import SqlTables.CommandLine.Run
import SqlTables.Proofs.Json.Modest
import SqlTables.Proofs.Json.RoundTrip
import SqlTables.Proofs.Schema.Codec
import SqlTables.Proofs.Schema.Parsed

/-! A table in a file. What is read of a definition can be written as JSON and read again, and a
script generated from that file is the script of the table. -/

namespace SqlTables

open Declaration

variable {t : Table}

namespace Declaration

theorem exists_type_of_serialType? {name : String} {type : ColumnType}
    (h : DeclaredType.serialType? name = some type) : ∃ name, type = .ofName name := by
  unfold DeclaredType.serialType? at h
  split at h <;> cases h
  · exact ⟨"INT", by decide +kernel⟩
  · exact ⟨"INT", by decide +kernel⟩
  · exact ⟨"BIGINT", by decide +kernel⟩
  · exact ⟨"BIGINT", by decide +kernel⟩
  · exact ⟨"SMALLINT", by decide +kernel⟩
  · exact ⟨"SMALLINT", by decide +kernel⟩

theorem exists_type_of_read? {ts rest : List Token} {d : DeclaredType}
    (h : DeclaredType.read? ts = some (d, rest)) : ∃ name, d.type = .ofName name := by
  obtain ⟨⟨name, after⟩, -, h⟩ := Option.bind_eq_some_iff.1 h
  simp only at h
  split at h
  · rename_i type htype
    cases h
    exact exists_type_of_serialType? htype
  · simp only [Option.pure_def, Option.some.injEq, Prod.mk.injEq] at h
    refine ⟨name, ?_⟩
    rw [← h.1]

theorem type_apply (a : Attribute) (f : Field) : (a.apply f).type = f.type := by
  cases a <;> rfl

theorem type_field (c : Column) : c.field.type = c.type.type :=
  get_foldl_apply (·.type) (fun a _ f => type_apply a f) c.bareField

theorem exists_type_of_column {ts : List Token} {c : Column} {complete : Bool}
    (h : Column.read? ts = some (c, complete)) : ∃ name, c.field.type = .ofName name := by
  obtain ⟨⟨name, rest⟩, -, h⟩ := Option.bind_eq_some_iff.1 h
  obtain ⟨⟨type, rest⟩, htype, h⟩ := Option.bind_eq_some_iff.1 h
  cases h
  rw [type_field]
  exact exists_type_of_read? htype

end Declaration

namespace Draft

theorem hasNamedTypes_of_read {ts : List Token} {d : Draft} (h : read ts = .ok d) :
    d.table.HasNamedTypes := by
  obtain ⟨name, cs, settings, -, hcs, rfl⟩ := exists_clauses_of_read h
  intro f hf
  rw [(sums_ofClauses name cs settings).fields] at hf
  obtain ⟨column, hcolumn, rfl⟩ := List.mem_map.1 hf
  obtain ⟨c, hc, he⟩ := List.mem_filterMap.1 hcolumn
  rw [Clause.column?_eq_some_iff.1 he] at hc
  obtain ⟨ts, hts⟩ := hcs _ hc
  obtain ⟨_, rest, -, hread⟩ := Clause.readFrom_of_read hts
  cases hread with
  | column _ _ _ _ _ hwhole => exact exists_type_of_column hwhole

theorem hasNamedTypes_of_settle {d : Draft} (hd : d.table.HasNamedTypes) (h : d.settle = .ok t) :
    t.HasNamedTypes := by
  obtain ⟨added, ht, -⟩ := exists_of_settle h
  intro f hf
  rw [ht] at hf
  obtain ⟨g, hg, rfl⟩ := List.mem_map.1 hf
  exact hd g hg

end Draft

theorem Table.hasNamedTypes_of_parse {text : String} (h : Table.parse text = .ok t) :
    t.HasNamedTypes := by
  obtain ⟨ts, d, hread, hsettle⟩ := exists_draft_of_parse h
  exact Draft.hasNamedTypes_of_settle (Draft.hasNamedTypes_of_read hread) hsettle

section

open Json

theorem modest_field (f : Field) : Modest 2 f.toJson := by
  rw [Field.toJson_eq]
  apply modest_obj_present
  have hmembers := modest_listSlot (fun s => modest_str (n := 0) s) f.members
  simpa [Field.slots, modest_str, modest_bool, modest_uint32] using hmembers

theorem modest_strings {n : Nat} (ss : List String) : Modest (n + 1) (strings ss) :=
  modest_map modest_str ss

theorem modest_index (i : Index) : Modest 2 i.toJson := by
  have hjson : i.toJson = .obj (present i.slots) := rfl
  rw [hjson]
  apply modest_obj_present
  simp [Index.slots, modest_str, modest_strings]

theorem modest_foreignKey (k : ForeignKey) : Modest 2 k.toJson := by
  rw [ForeignKey.toJson_eq]
  apply modest_obj_present
  simp [ForeignKey.slots, modest_str, modest_strings]

theorem modest_check (c : Check) : Modest 2 c.toJson := by
  rw [Check.toJson_eq]
  apply modest_obj_present
  simp [Check.slots, modest_str]

theorem modest_table (t : Table) : Modest 4 t.toJson := by
  rw [Table.toJson_eq]
  apply modest_obj_present
  have hforeignKeys := modest_listSlot modest_foreignKey t.foreignKeys
  have hchecks := modest_listSlot modest_check t.checks
  have hfields := modest_map modest_field t.fields
  have hindexes := modest_map modest_index t.indexes
  simpa [Table.slots, modest_str, modest_uint64, hfields, hindexes] using
    And.intro hforeignKeys hchecks

end

namespace CommandLine

def Output.text : Output → String
  | .nothing => ""
  | .print text => text ++ "\n"
  | .save _ text => text

theorem exists_text_emit (path : Option String) (text : String) :
    ∃ after, (after = "" ∨ after = "\n") ∧ (Output.emit path text).text = text ++ after := by
  cases path with
  | none => exact ⟨"\n", .inr rfl, rfl⟩
  | some path => exact ⟨"", .inl rfl, by simp [Output.emit, Output.text]⟩

theorem Model.ofJson?_toJson (h : t.HasNamedTypes) : Model.ofJson? t.toJson = some (.one t) := by
  obtain ⟨hdepth, hfinite⟩ := modest_table t
  have hlist : Json.list? Table.ofJson? t.toJson = none := by
    rw [Table.toJson_eq]
    rfl
  have hdeep : t.toJson.depth < 128 := by omega
  rw [Model.ofJson?, hlist, Table.ofJson?_toJson h, hfinite]
  simp [hdeep]

theorem loadModel_text {files : Files} {path : String} {output : Option String}
    (h : t.HasNamedTypes)
    (hfile : files path = some (Output.emit output t.toJson.pretty).text) :
    loadModel files path false = .ok (.one t) := by
  obtain ⟨after, hafter, htext⟩ := exists_text_emit output t.toJson.pretty
  rw [htext] at hfile
  have hparse := Json.parse?_pretty t.toJson hafter
  have hmodel : (Json.parse? (t.toJson.pretty ++ after)).bind Model.ofJson? = some (.one t) := by
    rw [hparse, Option.bind_some, Model.ofJson?_toJson h]
  simp [loadModel, readFile, hfile, hmodel, bind, Except.bind]
  rfl

theorem execute_parse {files : Files} {file text : String} (hfile : files file = some text)
    (h : Table.parse text = .ok t) (output : Option String) :
    (Command.parse file false output).execute files = .ok (.emit output t.toJson.pretty) := by
  simp [Command.execute, readFile, hfile, h, Except.mapError, bind, Except.bind]
  rfl

theorem execute_generate {files : Files} {path : String} {m : Model}
    (h : loadModel files path false = .ok m) (dialect options output : Option String) :
    (Command.generate path false dialect options output).execute files =
      (loadOptions files options dialect).bind fun o =>
        ((m.script o).mapError .schema).map (.emit output) := by
  simp only [Command.execute, h, bind, Except.bind]
  cases loadOptions files options dialect with
  | error e => rfl
  | ok o =>
    cases (m.script o).mapError Failure.schema <;> rfl

end CommandLine

open CommandLine

/-- A table with types of some name is what its JSON is read as. Types that were read, from a
definition or from JSON, have such names; so a script generated from what `parse` leaves is the
script of the table that was parsed. -/
theorem table_roundTrip_json :
    (∀ t : Table, t.HasNamedTypes → Table.ofJson? t.toJson = some t) ∧
    (∀ text t, Table.parse text = .ok t → t.HasNamedTypes ∧
      ∀ (files : Files) (file : String) (output : Option String), files file = some text →
        ∃ left, (Command.parse file false output).execute files = .ok left ∧
          ∀ (files : Files) (path : String) (dialect options output : Option String),
            files path = some left.text →
              (Command.generate path false dialect options output).execute files =
                (loadOptions files options dialect).bind fun o =>
                  ((Creation.single o t).mapError .schema).map (.emit output)) ∧
    ∀ j t, Table.ofJson? j = some t → Table.ofJson? t.toJson = some t := by
  refine ⟨fun t => Table.ofJson?_toJson, fun text t h => ?_, fun j t h =>
    Table.ofJson?_toJson (Table.hasNamedTypes_of_ofJson? j t h)⟩
  have hnamed := Table.hasNamedTypes_of_parse h
  refine ⟨hnamed, fun files file output hfile => ⟨_, execute_parse hfile h output, ?_⟩⟩
  intro files path dialect options output' hpath
  exact execute_generate (loadModel_text hnamed hpath) dialect options output'

theorem table_roundTrip_json_point :
    ∃ left, (Command.parse "t.sql" false none).execute
        (fun _ => some "CREATE TABLE t (a point NOT NULL)") = .ok left ∧
      (Command.generate "t.json" false none none none).execute (fun _ => some left.text) =
        ((Creation.single {}
          { name := "t"
            fields := [{ name := "a", type := .custom "POINT", nullable := false }] }).mapError
              .schema).map (.emit none) := by
  have h : Table.parse "CREATE TABLE t (a point NOT NULL)" =
      .ok
        { name := "t"
          fields := [{ name := "a", type := .custom "POINT", nullable := false }] } := by
    decide +kernel
  obtain ⟨left, hleft, hgenerate⟩ := (table_roundTrip_json.2.1 _ _ h).2
    (fun _ => some "CREATE TABLE t (a point NOT NULL)") "t.sql" none rfl
  exact ⟨left, hleft, hgenerate (fun _ => some left.text) "t.json" none none none rfl⟩

end SqlTables
