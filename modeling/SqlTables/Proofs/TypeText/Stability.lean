import SqlTables.Proofs.ModelFile
import SqlTables.Proofs.TypeText.Reading

/-! Physical types read back. PostgreSQL and SQLite write each type so that it is written in the
same way when a column is declared with it, unless an attribute makes the column count. -/

namespace SqlTables

open Declaration
open Dialect (postgresqlType sqliteType physicalType withSizes)
open Text (isAscii upperCase)

variable {d : Dialect} {c : Column} {f g : Field} {n w name text : String} {type : DeclaredType}
  {t : ColumnType} {ts rest : List Token}

structure ColumnType.Readable (t : ColumnType) : Prop where
  bare : isBareWord t.name = true
  upper : upperCase t.name = t.name
  serial : DeclaredType.serialType? t.name = none
  ofName : ColumnType.ofName t.name = t

theorem readable_of_not_custom (ht : t.isCustom = false) : t.Readable :=
  ⟨isBareWord_name ht, upperCase_name ht, serialType?_name ht, ofName_name ht⟩

namespace Declaration

theorem DeclaredType.name?_cases (h : DeclaredType.name? ts = some (name, rest)) :
    ∃ t us s, ts = t :: us ∧ t.kind = .word s ∧
      (name = upperCase s ∨ name ∈ longNames.map (·.2.2)) := by
  obtain ⟨⟨u, us'⟩, htake, hname⟩ := Option.bind_eq_some_iff.1 h
  cases ts with
  | nil => cases htake
  | cons t us =>
    rw [take?] at htake
    split_ifs at htake
    cases htake
    dsimp only at hname
    split at hname
    · rename_i s hs
      refine ⟨u, us', s, rfl, hs, ?_⟩
      have hgetD (o : Option (String × List Token))
          (ho : o.getD (upperCase s, us') = (name, rest)) :
          name = upperCase s ∨ o = some (name, rest) := by
        cases o with
        | none => exact .inl (congrArg Prod.fst ho).symm
        | some found => exact .inr (congrArg some ho)
      rcases hgetD _ (Option.some.inj hname) with hword | hlong
      · exact .inl hword
      · obtain ⟨e, he, hfound⟩ := List.exists_of_findSome?_eq_some hlong
        split_ifs at hfound
        obtain ⟨_, -, hboth⟩ := Option.map_eq_some_iff.1 hfound
        cases hboth
        exact .inr (List.mem_map_of_mem he)
    · cases hname

theorem isCustom_ofName_longNames : ∀ name ∈ DeclaredType.longNames.map (·.2.2),
    (ColumnType.ofName name).isCustom = false := by decide +kernel

theorem isCustom_of_serialType? {type : ColumnType}
    (h : DeclaredType.serialType? name = some type) : type.isCustom = false := by
  unfold DeclaredType.serialType? at h
  split at h <;> cases h <;> rfl

theorem readable_named {s : String} {ps : List TypeParameter} (hs : isBareWord s = true)
    (hname : name = upperCase s ∨ name ∈ DeclaredType.longNames.map (·.2.2))
    (ha : isAscii (DeclaredType.named name ps).type.name = true) :
    (DeclaredType.named name ps).type.Readable := by
  unfold DeclaredType.named at ha ⊢
  split at ha
  · rename_i type htype
    exact readable_of_not_custom (isCustom_of_serialType? htype)
  · rename_i hserial
    dsimp only at ha ⊢
    rcases hname with rfl | hlong
    · rcases ofName_upperCase_cases hs with hknown | hself
      · exact readable_of_not_custom hknown
      · rw [hself] at ha ⊢
        exact ⟨isBareWord_upperCase hs ha, (normalize_upperCase hs).2, hserial, hself⟩
    · exact readable_of_not_custom (isCustom_ofName_longNames name hlong)

theorem Column.IsRead.readable (hc : c.IsRead) (ha : isAscii c.type.type.name = true) :
    c.type.type.Readable := by
  obtain ⟨source, ts, last, us, htokens, hus, hread⟩ := hc
  obtain ⟨p, gap, -, hscans⟩ := Token.exists_scans_of_tokenize htokens
  obtain ⟨rest, rest', hname, htype, -⟩ := Column.exists_of_read? hread
  obtain ⟨⟨name, after⟩, hword, -⟩ := Option.bind_eq_some_iff.1 htype
  obtain ⟨t, us', s, rfl, hkind, hname'⟩ := DeclaredType.name?_cases hword
  rw [DeclaredType.read?_of_name? hword, Option.some.injEq, Prod.mk.injEq] at htype
  have hmem : t ∈ ts := by
    obtain ⟨u, us, rfl, -, read, -, rfl⟩ := name?_consumes hname
    exact hus.subset (by simp)
  rw [← htype.1] at ha ⊢
  exact readable_named (hscans.bareWords t hmem s hkind) hname' ha

theorem Column.autoIncrement_field (c : Column) :
    c.field.autoIncrement = (c.type.serial || decide (.autoIncrement ∈ c.attributes)) := by
  have hfold (as : List Attribute) (f : Field) : (as.foldl Attribute.apply f).autoIncrement =
      (f.autoIncrement || decide (.autoIncrement ∈ as)) := by
    induction as generalizing f with
    | nil => simp
    | cons a as ih =>
      rw [List.foldl_cons, ih]
      cases a <;> simp [Attribute.apply]
  exact hfold c.attributes c.bareField

end Declaration

theorem physicalType_congr (hd : d = .postgresql ∨ d = .sqlite) (htype : f.type = g.type)
    (hlength : f.length = g.length) (hprecision : f.precision = g.precision)
    (hscale : f.scale = g.scale)
    (hauto : d = .postgresql → f.type.isInteger = true → f.autoIncrement = g.autoIncrement)
    (nativeJson : Bool) : physicalType d nativeJson f = physicalType d nativeJson g := by
  rcases hd with rfl | rfl
  · have hauto := hauto rfl
    simp only [physicalType, postgresqlType, Field.effectivePrecision, Dialect.varCharOf,
      Dialect.withParameters, hlength, hprecision, hscale, htype] at hauto ⊢
    cases ht : g.type <;> simp_all [ColumnType.isInteger, ColumnType.isDecimal]
  · simp only [physicalType, sqliteType, htype]

theorem physicalType_field_eq_iff (hd : d = .postgresql ∨ d = .sqlite) (nativeJson : Bool)
    (c : Column) : physicalType d nativeJson c.field = physicalType d nativeJson c.bareField ↔
      ¬(d = .postgresql ∧ c.type.type.isInteger = true ∧ c.type.serial = false ∧
        .autoIncrement ∈ c.attributes) := by
  have htype : c.field.type = c.bareField.type := type_field c
  have hlength : c.field.length = c.bareField.length :=
    get_foldl_apply (·.length) (fun a _ _ => by cases a <;> rfl) c.bareField
  have hprecision : c.field.precision = c.bareField.precision :=
    get_foldl_apply (·.precision) (fun a _ _ => by cases a <;> rfl) c.bareField
  have hscale : c.field.scale = c.bareField.scale :=
    get_foldl_apply (·.scale) (fun a _ _ => by cases a <;> rfl) c.bareField
  constructor
  · rintro hsame ⟨rfl, hinteger, hserial, hauto⟩
    have hfield : c.field.autoIncrement = true := by simp [Column.autoIncrement_field, hauto]
    have hbare : c.bareField.autoIncrement = false := hserial
    have hbareType : c.bareField.type = c.type.type := rfl
    simp only [physicalType, postgresqlType, hfield, hbare, htype, hbareType] at hsame
    cases ht : c.type.type <;> simp [ht, ColumnType.isInteger] at hinteger hsame
  · intro hnot
    apply physicalType_congr hd htype hlength hprecision hscale
    rintro rfl hinteger
    have hbare : c.bareField.autoIncrement = c.type.serial := rfl
    rw [type_field] at hinteger
    rw [Column.autoIncrement_field, hbare]
    cases hserial : c.type.serial with
    | true => rfl
    | false => simpa [hinteger, hserial] using hnot

/-- Whether a text names a type of which columns have this text again. -/
def Dialect.Stable (d : Dialect) (text : String) : Prop :=
  ∃ type, TypeText text type ∧
    ∀ name nativeJson, physicalType d nativeJson (⟨name, type, []⟩ : Column).bareField = text

def plainTypes : Dialect → List (String × DeclaredType)
  | .mysql => []
  | .postgresql => [
    ("SMALLSERIAL", ⟨.smallInt, true, []⟩), ("SERIAL", ⟨.int, true, []⟩),
    ("BIGSERIAL", ⟨.bigInt, true, []⟩), ("SMALLINT", ⟨.smallInt, false, []⟩),
    ("INTEGER", ⟨.int, false, []⟩), ("BIGINT", ⟨.bigInt, false, []⟩),
    ("REAL", ⟨.float, false, []⟩), ("BOOLEAN", ⟨.boolean, false, []⟩), ("TEXT", ⟨.text, false, []⟩),
    ("BYTEA", ⟨.blob, false, []⟩), ("DATE", ⟨.date, false, []⟩), ("TIME", ⟨.time, false, []⟩),
    ("TIMESTAMP", ⟨.timestamp, false, []⟩), ("JSONB", ⟨.json, false, []⟩)]
  | .sqlite => [
    ("INTEGER", ⟨.int, false, []⟩), ("REAL", ⟨.float, false, []⟩), ("TEXT", ⟨.text, false, []⟩),
    ("BLOB", ⟨.blob, false, []⟩), ("DATE", ⟨.date, false, []⟩), ("TIME", ⟨.time, false, []⟩),
    ("DATETIME", ⟨.dateTime, false, []⟩), ("TIMESTAMP", ⟨.timestamp, false, []⟩)]

theorem stable_plain (h : w ∈ (plainTypes d).map (·.1)) : d.Stable w := by
  have hwords : ∀ e ∈ plainTypes d, isBareWord e.1 = true ∧ upperCase e.1 = e.1 ∧
      .named e.1 [] = e.2 := by
    cases d <;> decide +kernel
  have htypes : ∀ e ∈ plainTypes d, ∀ name nativeJson,
      physicalType d nativeJson (⟨name, e.2, []⟩ : Column).bareField = e.1 := by
    cases d <;> simp [plainTypes, physicalType, postgresqlType, sqliteType, Column.bareField]
  obtain ⟨e, he, rfl⟩ := List.mem_map.1 h
  obtain ⟨hw, hu, hnamed⟩ := hwords e he
  have htext : TypeText e.1 (.named e.1 []) := .word hw hu none none
  exact ⟨e.2, hnamed ▸ htext, htypes e he⟩

theorem stable_name (ht : t.Readable) (n s : Option UInt32) (h : ∀ name nativeJson,
    physicalType d nativeJson (⟨name, ⟨t, false, (writtenSizes n s).map .size⟩, []⟩ :
      Column).bareField = withSizes t.name n s) : d.Stable (withSizes t.name n s) := by
  have hnamed (ps : List TypeParameter) : DeclaredType.named t.name ps = ⟨t, false, ps⟩ := by
    simp only [DeclaredType.named, ht.serial, ht.ofName]
  exact ⟨_, hnamed _ ▸ .word ht.bare ht.upper n s, h⟩

theorem stable_doublePrecision : Dialect.postgresql.Stable "DOUBLE PRECISION" := by
  have hnamed : DeclaredType.named "DOUBLE PRECISION" [] = ⟨.double, false, []⟩ := by
    decide +kernel
  exact ⟨⟨.double, false, []⟩, hnamed ▸ TypeText.doublePrecision, fun _ _ => rfl⟩

theorem stable_postgresqlType (hf : f.type.Readable) :
    Dialect.postgresql.Stable (postgresqlType f) := by
  cases ht : f.type with
  | tinyInt | smallInt | mediumInt | int | bigInt =>
    simp only [postgresqlType, ht]
    cases f.autoIncrement <;> exact stable_plain (by decide)
  | double =>
    simp only [postgresqlType, ht]
    exact stable_doublePrecision
  | decimal | numeric =>
    rw [ht] at hf
    simp only [postgresqlType, ht]
    cases f.effectivePrecision with
    | none => exact stable_name hf (some 10) (some 2) fun _ _ => rfl
    | some p => exact stable_name hf (some p) f.scale fun _ _ => by cases f.scale <;> rfl
  | bit | char =>
    rw [ht] at hf
    simp only [postgresqlType, ht]
    cases f.length with
    | none => exact stable_name hf none none fun _ _ => rfl
    | some n => exact stable_name hf (some n) none fun _ _ => rfl
  | varChar =>
    rw [ht] at hf
    simp only [postgresqlType, ht]
    exact stable_name hf (some (f.length.getD 255)) none fun _ _ => rfl
  | custom n =>
    rw [ht] at hf
    simp only [postgresqlType, ht]
    have hparameters : Dialect.withParameters n f = withSizes n f.length f.scale := by
      rw [Dialect.withParameters, ht]
      rfl
    rw [hparameters]
    exact stable_name hf f.length f.scale fun _ _ => by
      cases f.length <;> cases f.scale <;> rfl
  | _ =>
    simp only [postgresqlType, ht]
    exact stable_plain (by decide)

theorem stable_sqliteType (hf : f.type.Readable) : Dialect.sqlite.Stable (sqliteType f) := by
  cases ht : f.type with
  | custom n =>
    rw [ht] at hf
    simp only [sqliteType, ht]
    exact stable_name hf none none fun _ _ => rfl
  | _ =>
    simp only [sqliteType, ht]
    exact stable_plain (by decide)

theorem Declaration.Column.OfText.isRead (h : c.OfText text) : c.IsRead := by
  obtain ⟨ts, last, htokens, hread⟩ := h
  exact ⟨text, ts, last, ts, htokens, List.infix_rfl, hread⟩

/-- The physical type of a column is the text of a type, and the columns declared with it have it
again, but for those that PostgreSQL makes serial because an attribute lets them count. -/
theorem physicalType_stable (hd : d = .postgresql ∨ d = .sqlite) (hc : c.IsRead)
    (ha : isAscii c.field.type.name = true) (nativeJson : Bool) :
    (∀ name, ∃ c' : Column, c'.name = name ∧ c'.attributes = [] ∧
        c'.OfText (Dialect.mysql.quoteName name ++ " " ++ physicalType d nativeJson c.field) ∧
        c'.HasTypeText (physicalType d nativeJson c.field)) ∧
      ∀ c' : Column, c'.HasTypeText (physicalType d nativeJson c.field) →
        (physicalType d nativeJson c'.field = physicalType d nativeJson c.field ↔
          ¬(d = .postgresql ∧ c'.type.type.isInteger = true ∧ c'.type.serial = false ∧
            .autoIncrement ∈ c'.attributes)) := by
  rw [type_field] at ha
  have hreadable : c.field.type.Readable := type_field c ▸ hc.readable ha
  have hstable : d.Stable (physicalType d nativeJson c.field) := by
    rcases hd with rfl | rfl
    · exact stable_postgresqlType hreadable
    · exact stable_sqliteType hreadable
  obtain ⟨type, htext, hsame⟩ := hstable
  refine ⟨fun name => ?_, fun c' hc' => ?_⟩
  · obtain ⟨hdefinition, htype⟩ := htext.exists_ofText name
    exact ⟨_, rfl, rfl, hdefinition, htype⟩
  · have hbare := hsame c'.name nativeJson
    rw [← hc'.eq htext] at hbare
    have hattributes : (⟨c'.name, c'.type, []⟩ : Column).bareField = c'.bareField := rfl
    rw [hattributes] at hbare
    rw [← hbare]
    exact physicalType_field_eq_iff hd nativeJson c'

def countingColumn : Column := ⟨"a", ⟨.mediumInt, false, []⟩, [.autoIncrement]⟩

theorem ofText_countingColumn : countingColumn.OfText "a MEDIUMINT AUTO_INCREMENT" :=
  ⟨Lexeme.tokensAt .start [.word [] "a", .word [' '] "MEDIUMINT", .word [' '] "AUTO_INCREMENT"],
    ⟨"", .eof, "", Token.endPosition "a MEDIUMINT AUTO_INCREMENT"⟩, by decide +kernel,
    by decide +kernel⟩

theorem physicalType_stable_serial :
    countingColumn.IsRead ∧ physicalType .postgresql true countingColumn.field = "SERIAL" ∧
      ∃ c' : Column, c'.OfText "`b` SERIAL" ∧ c'.HasTypeText "SERIAL" ∧
        physicalType .postgresql true c'.field = "SERIAL" := by
  have hread : countingColumn.IsRead := ofText_countingColumn.isRead
  obtain ⟨hexists, hsame⟩ := physicalType_stable (.inl rfl) hread (by decide) true
  have hserial : physicalType .postgresql true countingColumn.field = "SERIAL" := rfl
  rw [hserial] at hexists hsame
  obtain ⟨c', -, hattributes, htext, htype⟩ := hexists "b"
  exact ⟨hread, hserial, c', htext, htype, (hsame c' htype).2 (by simp [hattributes])⟩

theorem not_physicalType_stable :
    ¬∀ (d : Dialect) (nativeJson : Bool) (c c' : Column), d = .postgresql ∨ d = .sqlite →
      c.IsRead → isAscii c.field.type.name = true →
        c'.HasTypeText (physicalType d nativeJson c.field) →
          physicalType d nativeJson c'.field = physicalType d nativeJson c.field := by
  intro h
  have hplain : (⟨"a", ⟨.int, false, []⟩, []⟩ : Column).OfText "a INTEGER" :=
    ⟨Lexeme.tokensAt .start [.word [] "a", .word [' '] "INTEGER"],
      ⟨"", .eof, "", Token.endPosition "a INTEGER"⟩, by decide +kernel, by decide +kernel⟩
  have hcounting : (⟨"a", ⟨.int, false, []⟩, [.primaryKey, .autoIncrement]⟩ :
      Column).HasTypeText "INTEGER" :=
    ⟨"a INTEGER PRIMARY KEY AUTO_INCREMENT",
      Lexeme.tokensAt .start (.word [] "a" ::
        Lexeme.words ["INTEGER", "PRIMARY", "KEY", "AUTO_INCREMENT"]),
      ⟨"", .eof, "", Token.endPosition "a INTEGER PRIMARY KEY AUTO_INCREMENT"⟩,
      (Lexeme.word [] "a").token .start,
      Lexeme.tokensAt ⟨1, 2, 1⟩ (Lexeme.words ["INTEGER"]),
      Lexeme.tokensAt ⟨1, 10, 9⟩ (Lexeme.words ["PRIMARY", "KEY", "AUTO_INCREMENT"]),
      by decide +kernel, by decide +kernel, by decide +kernel, by decide +kernel, by decide +kernel⟩
  have hsame := h .postgresql true _ _ (.inl rfl) hplain.isRead (by decide) hcounting
  exact absurd hsame (by decide)

end SqlTables
