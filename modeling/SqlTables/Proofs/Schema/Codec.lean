import SqlTables.Proofs.Json.Record
import SqlTables.Proofs.Schema.ColumnType
import SqlTables.Schema.Codec

/-! Tables that are written as JSON and read again. -/

namespace SqlTables

open Json (forall_of_bind present listSlot string? bool? list? strings Members)

namespace Field

def slots (f : Field) : List (String × Option Json) := [
  ("name", some (.str f.name)), ("type", some (.str f.type.name)),
  ("length", f.length.map fun n => .int n.toNat),
  ("precision", f.precision.map fun n => .int n.toNat),
  ("scale", f.scale.map fun n => .int n.toNat), ("nullable", some (.bool f.nullable)),
  ("defaultValue", f.default.map .str), ("comment", f.comment.map .str),
  ("isPrimaryKey", some (.bool f.inPrimaryKey)), ("isAutoIncrement", some (.bool f.autoIncrement)),
  ("unique", some (.bool f.unique)), ("index", some (.bool f.indexed)),
  ("unsigned", some (.bool f.unsigned)), ("zerofill", some (.bool f.zerofill)),
  ("enumValues", listSlot .str f.members), ("onUpdate", f.onUpdate.map .str)]

theorem toJson_eq (f : Field) : f.toJson = .obj (present f.slots) := by
  simp [toJson, slots, Json.present_some, Json.present_optional, Json.present_list,
    Json.present_nil]

theorem ofJson?_toJson {f : Field} (hn : ColumnType.ofName f.type.name = f.type) :
    Field.ofJson? f.toJson = some f := by
  have hkeys : Field.keys.Nodup := by decide
  have hlookup : ∀ s ∈ f.slots, (present f.slots).lookup s.1 = s.2 := Json.lookup_present hkeys
  have hrecord : Json.record? keys (.obj (present f.slots)) = some (present f.slots) :=
    Json.record?_present rfl hkeys
  rw [toJson_eq, ofJson?, hrecord, Option.bind_eq_bind, Option.bind_some]
  generalize present f.slots = ms at hlookup ⊢
  simp only [slots, List.forall_mem_cons] at hlookup
  obtain ⟨hname, htype, hlength, hprecision, hscale, hnullable, hdefault, hcomment, hkey, hauto,
    hunique, hindex, hunsigned, hzerofill, hmembers, honUpdate, -⟩ := hlookup
  simp only [Members.required_string hname, Members.required_string htype,
    Members.optional_uint32 hlength, Members.optional_uint32 hprecision,
    Members.optional_uint32 hscale,
    Members.withDefault_bool hnullable, Members.optional_string hdefault,
    Members.optional_string hcomment, Members.withDefault_bool hkey,
    Members.withDefault_bool hauto, Members.withDefault_bool hunique,
    Members.withDefault_bool hindex, Members.withDefault_bool hunsigned,
    Members.withDefault_bool hzerofill, Members.withDefault_strings hmembers,
    Members.optional_string honUpdate]
  change some { f with type := ColumnType.ofName f.type.name } = some f
  rw [hn]

theorem exists_type_of_ofJson? (v : Json) :
    ∀ f, Field.ofJson? v = some f → ∃ name, f.type = .ofName name := by
  refine forall_of_bind fun ms _ => forall_of_bind fun name _ => forall_of_bind fun typeName _ => ?_
  iterate 14 refine forall_of_bind fun _ _ => ?_
  intro f hf
  rw [← Option.some.inj hf]
  refine ⟨typeName, ?_⟩
  dsimp only

end Field

namespace Index

def slots (i : Index) : List (String × Option Json) := [
  ("name", some (.str i.name)), ("fields", some (strings i.fields)),
  ("kind", some (.str i.kind.name))]

theorem ofJson?_toJson (i : Index) : Index.ofJson? i.toJson = some i := by
  have hkeys : ["name", "fields", "kind"].Nodup := by decide
  have hlookup : ∀ s ∈ i.slots, (present i.slots).lookup s.1 = s.2 := Json.lookup_present hkeys
  have hrecord : Json.record? ["name", "fields", "kind"] (.obj (present i.slots)) =
      some (present i.slots) := Json.record?_present rfl hkeys
  have hjson : i.toJson = .obj (present i.slots) := rfl
  rw [hjson, ofJson?, hrecord, Option.bind_eq_bind, Option.bind_some]
  generalize present i.slots = ms at hlookup ⊢
  simp only [slots, List.forall_mem_cons] at hlookup
  obtain ⟨hname, hfields, hkind, -⟩ := hlookup
  have hread : ms.required "kind" (fun v => (Json.constant? v).bind IndexKind.ofName?) =
      some i.kind := by
    rw [Members.required_eq hkind]
    exact IndexKind.ofName?_name i.kind
  simp only [Members.required_string hname, Members.required_strings hfields, hread]
  rfl

end Index

namespace ForeignKey

def slots (k : ForeignKey) : List (String × Option Json) := [
  ("name", some (.str k.name)), ("fields", some (strings k.fields)),
  ("referencedTable", some (.str k.referencedTable)),
  ("referencedFields", some (strings k.referencedFields)),
  ("onDelete", k.onDelete.map .str), ("onUpdate", k.onUpdate.map .str)]

theorem toJson_eq (k : ForeignKey) : k.toJson = .obj (present k.slots) := by
  simp [toJson, slots, Json.present_some, Json.present_optional, Json.present_nil]

theorem ofJson?_toJson (k : ForeignKey) : ForeignKey.ofJson? k.toJson = some k := by
  have hkeys : ForeignKey.keys.Nodup := by decide
  have hlookup : ∀ s ∈ k.slots, (present k.slots).lookup s.1 = s.2 := Json.lookup_present hkeys
  have hrecord : Json.record? keys (.obj (present k.slots)) = some (present k.slots) :=
    Json.record?_present rfl hkeys
  rw [toJson_eq, ofJson?, hrecord, Option.bind_eq_bind, Option.bind_some]
  generalize present k.slots = ms at hlookup ⊢
  simp only [slots, List.forall_mem_cons] at hlookup
  obtain ⟨hname, hfields, htable, hreferenced, honDelete, honUpdate, -⟩ := hlookup
  simp only [Members.required_string hname, Members.required_strings hfields,
    Members.required_string htable, Members.required_strings hreferenced,
    Members.optional_string honDelete, Members.optional_string honUpdate]
  rfl

end ForeignKey

namespace Check

def slots (c : Check) : List (String × Option Json) := [
  ("name", c.name.map .str), ("expression", some (.str c.expression))]

theorem toJson_eq (c : Check) : c.toJson = .obj (present c.slots) := by
  simp [toJson, slots, Json.present_some, Json.present_optional, Json.present_nil]

theorem ofJson?_toJson (c : Check) : Check.ofJson? c.toJson = some c := by
  have hkeys : ["name", "expression"].Nodup := by decide
  have hlookup : ∀ s ∈ c.slots, (present c.slots).lookup s.1 = s.2 := Json.lookup_present hkeys
  have hrecord : Json.record? ["name", "expression"] (.obj (present c.slots)) =
      some (present c.slots) := Json.record?_present rfl hkeys
  rw [toJson_eq, ofJson?, hrecord, Option.bind_eq_bind, Option.bind_some]
  generalize present c.slots = ms at hlookup ⊢
  simp only [slots, List.forall_mem_cons] at hlookup
  obtain ⟨hname, hexpression, -⟩ := hlookup
  simp only [Members.optional_string hname, Members.required_string hexpression]
  rfl

end Check

namespace Table

def slots (t : Table) : List (String × Option Json) := [
  ("name", some (.str t.name)), ("comment", t.comment.map .str), ("engine", t.engine.map .str),
  ("charset", t.charset.map .str), ("collation", t.collation.map .str),
  ("autoIncrementStart", t.autoIncrementStart.map fun n => .int n.toNat),
  ("rowFormat", t.rowFormat.map .str), ("tableSpace", t.tableSpace.map .str),
  ("fields", some (.arr (t.fields.map Field.toJson))),
  ("indexes", some (.arr (t.indexes.map Index.toJson))),
  ("foreignKeys", listSlot ForeignKey.toJson t.foreignKeys),
  ("checks", listSlot Check.toJson t.checks)]

theorem toJson_eq (t : Table) : t.toJson = .obj (present t.slots) := by
  simp [toJson, slots, Json.present_some, Json.present_optional, Json.present_list,
    Json.present_nil]

/-- The columns have types that some name gives. -/
def HasNamedTypes (t : Table) : Prop := ∀ f ∈ t.fields, ∃ name, f.type = .ofName name

theorem ofJson?_toJson {t : Table} (h : t.HasNamedTypes) : Table.ofJson? t.toJson = some t := by
  have hkeys : Table.keys.Nodup := by decide
  have hlookup : ∀ s ∈ t.slots, (present t.slots).lookup s.1 = s.2 := Json.lookup_present hkeys
  have hrecord : Json.record? keys (.obj (present t.slots)) = some (present t.slots) :=
    Json.record?_present rfl hkeys
  have hfieldsRead : ∀ f ∈ t.fields, Field.ofJson? f.toJson = some f := by
    intro f hf
    obtain ⟨name, hname⟩ := h f hf
    apply Field.ofJson?_toJson
    rw [hname, ColumnType.ofName_name_ofName]
  rw [toJson_eq, ofJson?, hrecord, Option.bind_eq_bind, Option.bind_some]
  generalize present t.slots = ms at hlookup ⊢
  simp only [slots, List.forall_mem_cons] at hlookup
  obtain ⟨hname, hcomment, hengine, hcharset, hcollation, hstart, hrowFormat, htableSpace, hfields,
    hindexes, hforeignKeys, hchecks, -⟩ := hlookup
  simp only [Members.required_string hname, Members.optional_string hcomment,
    Members.optional_string hengine, Members.optional_string hcharset,
    Members.optional_string hcollation, Members.optional_uint64 hstart,
    Members.optional_string hrowFormat, Members.optional_string htableSpace,
    Members.withDefault_list hfields hfieldsRead,
    Members.withDefault_list hindexes fun i _ => Index.ofJson?_toJson i,
    Members.withDefault_listSlot hforeignKeys fun k _ => ForeignKey.ofJson?_toJson k,
    Members.withDefault_listSlot hchecks fun c _ => Check.ofJson?_toJson c]
  rfl

theorem hasNamedTypes_of_ofJson? (v : Json) : ∀ t, Table.ofJson? v = some t → t.HasNamedTypes := by
  iterate 9 refine forall_of_bind fun _ _ => ?_
  refine forall_of_bind fun fields hfields => ?_
  iterate 3 refine forall_of_bind fun _ _ => ?_
  rintro t ht
  cases ht
  intro f hf
  obtain ⟨w, hw⟩ := Members.exists_of_withDefault_list hfields f hf
  exact Field.exists_type_of_ofJson? w f hw

end Table

end SqlTables
