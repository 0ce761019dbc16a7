import SqlTables.Proofs.Schema.Parsed
import SqlTables.Proofs.UniqueKeys.Written

/-! Unique keys through a script for PostgreSQL. The key of a unique column is written without a
name and is named for the column when it is read, so it can meet an index that has this name. If
none does, all unique keys of a table come back, and otherwise the script is rejected. -/

namespace SqlTables

open Declaration
open Creation (effectiveField uniqueColumns)

variable {t t' : Table} {o : Options}

/-- Whether the columns have the same flags of keys and the same unique indexes stand by them. -/
structure Table.SameUniqueKeys (t t' : Table) : Prop where
  fields : t'.fields.map (fun f => (f.name, f.inPrimaryKey, f.unique)) =
    t.fields.map fun f => (f.name, f.inPrimaryKey, f.unique)
  indexes : ∀ i : Index, i.kind = .unique → (i ∈ t'.indexes ↔ i ∈ t.indexes)

def Table.TakesKeyName (t : Table) (name : String) : Prop :=
  (∃ column ∈ uniqueColumns t, name = "uk_" ++ column) ∧
    ∃ i ∈ t.indexes, i.kind = .unique ∧ i.name = name

def integerField (o : Options) (f : Field) : Field where
  name := f.name
  type := .int
  nullable := f.nullable
  autoIncrement := (effectiveField o f).autoIncrement
  inPrimaryKey := f.inPrimaryKey
  unique := f.unique

def integerTable (o : Options) (t : Table) : Table where
  name := t.name
  fields := t.fields.map (integerField o)
  indexes := t.indexes.filter (·.kind == .unique)

def unnamedKeys (t : Table) : List Index :=
  (uniqueColumns t).map fun column => ⟨"uk_" ++ column, .unique, [column]⟩

theorem field_integerColumn (o : Options) (f : Field) :
    (integerColumn o f).field = (integerField o f).unkeyed := by
  unfold Column.field integerColumn nullParts integerField
  cases f.nullable <;> rfl

theorem keys_integerColumn (o : Options) (f : Field) (table : String) :
    (integerColumn o f).foreignKeys table = [] ∧ (integerColumn o f).checks = [] := by
  unfold Column.foreignKeys Column.checks integerColumn nullParts
  cases f.nullable <;> exact ⟨rfl, rfl⟩

theorem keyColumns_integerTable (o : Options) (t : Table) :
    keyColumns (integerTable o t) = keyColumns t := by
  change ((t.fields.map (integerField o)).filter _).map _ = (t.fields.filter _).map _
  rw [List.filter_map, List.map_map]
  rfl

theorem ofClauses_integerLines (o : Options) (t : Table) :
    Draft.ofClauses t.name ((integerLines o t).map (·.2)) [] =
      (integerTable o t).unsettled (unnamedKeys t) := by
  have hkeys : ∀ c ∈ t.fields.map (integerColumn o), ∀ table,
      c.foreignKeys table = [] ∧ c.checks = [] := by
    intro c hc
    obtain ⟨f, -, rfl⟩ := List.mem_map.1 hc
    exact keys_integerColumn o f
  have hcolumns (d : Draft) := Draft.foldl_add_columns hkeys d
  have hnames (column : String) : Draft.defaultIndexName .unique [column] = "uk_" ++ column := by
    simp [Draft.defaultIndexName]
  have hindexes : (t.indexes.filter (·.kind == .unique)).map
      (fun i => (⟨i.name, .unique, i.fields⟩ : Index)) = t.indexes.filter (·.kind == .unique) := by
    refine (List.map_congr_left fun i hi => ?_).trans (List.map_id _)
    have hkind := (List.mem_filter.1 hi).2
    rw [beq_iff_eq] at hkind
    rw [← hkind]
    rfl
  simp only [List.map_map, Function.comp_def] at hcolumns
  simp only [Draft.ofClauses, integerLines, uniqueLines, List.map_append, List.foldl_append,
    List.map_map, Function.comp_def, hcolumns, foldl_add_primaryKeyLines, Draft.foldl_add_indexes,
    Option.getD_some, Option.getD_none, hnames, hindexes, field_integerColumn]
  rw [Table.unsettled, keyColumns_integerTable]
  simp [integerTable, unnamedKeys, Declaration.Setting.applyAll]

theorem sameUniqueKeys_integerTable (o : Options) (t : Table) :
    t.SameUniqueKeys (integerTable o t) := by
  refine ⟨?_, fun i hi => ?_⟩
  · change (t.fields.map (integerField o)).map _ = _
    rw [List.map_map]
    rfl
  · change i ∈ t.indexes.filter (·.kind == .unique) ↔ _
    rw [List.mem_filter]
    simp [hi]

theorem folds_integerTable (o : Options) (t : Table) (i : Index) :
    (integerTable o t).folds i = t.folds i := by
  change (t.fields.map (integerField o)).any _ = t.fields.any _
  rw [List.any_map]
  rfl

variable (ht : t.Settled)

include ht

theorem settled_integerTable (o : Options) : (integerTable o t).Settled := by
  obtain ⟨hfields, hnames, hcolumns, -⟩ := Table.validate_eq_ok_iff.1 ht.valid
  have hsame : (integerTable o t).fieldNames = t.fieldNames :=
    map_name_map (integerField o) (fun _ => rfl) t.fields
  have hindexes (i : Index) (hi : i ∈ (integerTable o t).indexes) : i ∈ t.indexes :=
    (List.mem_filter.1 hi).1
  refine ⟨Table.validate_eq_ok_iff.2 ⟨?_, ?_, ?_, by simp [integerTable]⟩, ?_, ?_⟩
  · rwa [hsame]
  · exact hnames.sublist (List.filter_sublist.map _)
  · rw [hsame]
    exact fun i hi => hcolumns i (hindexes i hi)
  · intro g hg
    obtain ⟨f, hf, rfl⟩ := List.mem_map.1 hg
    exact ht.keyFlags f hf
  · intro i hi
    rw [folds_integerTable]
    exact ht.folded i (hindexes i hi)

theorem flagKeys_unnamedKeys (o : Options) : (integerTable o t).FlagKeys (unnamedKeys t) := by
  have hfields := Table.nodup_fieldNames_of_validate ht.valid
  have hkey (column : String) :
      (⟨"uk_" ++ column, .unique, [column]⟩ : Index).isUniqueOn column = true :=
    isUniqueOn_iff.2 ⟨rfl, rfl⟩
  refine ⟨?_, fun i hi => ?_, fun g hg hunique => ?_⟩
  · refine List.Nodup.map (fun a b h => ?_) (hfields.sublist (List.filter_sublist.map _))
    simpa using h
  · obtain ⟨column, hc, rfl⟩ := List.mem_map.1 hi
    obtain ⟨f, hf, hunique, -, rfl⟩ := mem_uniqueColumns.1 hc
    exact ⟨integerField o f, List.mem_map_of_mem hf, hunique, hkey f.name⟩
  · obtain ⟨f, hf, rfl⟩ := List.mem_map.1 hg
    have hprimary := ht.inPrimaryKey_eq_false hf hunique
    have hcolumn := mem_uniqueColumns.2 ⟨f, hf, hunique, hprimary, rfl⟩
    exact ⟨_, List.mem_map_of_mem hcolumn, hkey f.name⟩

theorem takesKeyName_iff (o : Options) {name : String} : t.TakesKeyName name ↔
    ∃ i ∈ unnamedKeys t ++ (integerTable o t).indexes,
      ∃ j ∈ unnamedKeys t ++ (integerTable o t).indexes,
        j.name = i.name ∧ j ≠ i ∧ i.name = name := by
  have hkeys := flagKeys_unnamedKeys ht o
  have hsettled := settled_integerTable ht o
  have htakes {i j : Index} (hi : i ∈ unnamedKeys t) (hj : j ∈ (integerTable o t).indexes)
      (h : j.name = i.name) : t.TakesKeyName i.name := by
    obtain ⟨column, hc, rfl⟩ := List.mem_map.1 hi
    obtain ⟨hmem, hkind⟩ := List.mem_filter.1 hj
    exact ⟨⟨column, hc, rfl⟩, j, hmem, beq_iff_eq.1 hkind, h⟩
  constructor
  · rintro ⟨⟨column, hc, rfl⟩, i, hi, hkind, hname⟩
    have hkey : (⟨"uk_" ++ column, .unique, [column]⟩ : Index) ∈ unnamedKeys t :=
      List.mem_map_of_mem hc
    have hmem : i ∈ (integerTable o t).indexes := List.mem_filter.2 ⟨hi, beq_iff_eq.2 hkind⟩
    refine ⟨_, List.mem_append_left _ hkey, i, List.mem_append_right _ hmem, hname, ?_, rfl⟩
    -- an index that is the key itself would have been folded
    rintro rfl
    have hfolds := folds_of_mem_keys hsettled hkeys hkey
    rw [hsettled.folded _ hmem] at hfolds
    exact absurd hfolds (by simp)
  · rintro ⟨i, hi, j, hj, hname, hne, rfl⟩
    rcases List.mem_append.1 hi with hi | hi <;> rcases List.mem_append.1 hj with hj | hj
    · obtain ⟨a, -, rfl⟩ := List.mem_map.1 hi
      obtain ⟨b, -, rfl⟩ := List.mem_map.1 hj
      have hcolumn : b = a := by simpa using hname
      exact absurd (by rw [hcolumn]) hne
    · exact htakes hi hj hname
    · rw [← hname]
      exact htakes hj hi hname.symm
    · have hnames := Table.nodup_indexNames_of_validate hsettled.valid
      exact absurd (List.inj_on_of_nodup_map hnames hj hi hname) hne

theorem settle_integers_eq_ok_iff (o : Options) :
    ((integerTable o t).unsettled (unnamedKeys t)).settle = .ok t' ↔
      (∀ name, ¬t.TakesKeyName name) ∧ t' = integerTable o t := by
  rw [settle_unsettled_eq_ok_iff (settled_integerTable ht o) (flagKeys_unnamedKeys ht o)]
  refine and_congr_left fun _ => ?_
  simp only [takesKeyName_iff ht o]
  constructor
  · rintro hnames name ⟨i, hi, j, hj, hname, hne, -⟩
    exact hne (hnames i hi j hj hname)
  · intro hfree i hi j hj hname
    by_contra hne
    exact hfree i.name ⟨i, hi, j, hj, hname, hne, rfl⟩

theorem takesKeyName_of_settle_integers_eq_error {o : Options} {e : SchemaError}
    (h : ((integerTable o t).unsettled (unnamedKeys t)).settle = .error e) :
    ∃ name, t.TakesKeyName name ∧ e = .duplicateIndexName name := by
  obtain ⟨i, hi, j, hj, hname, hne, rfl⟩ := exists_of_settle_unsettled_eq_error
    (settled_integerTable ht o) (flagKeys_unnamedKeys ht o) h
  exact ⟨i.name, (takesKeyName_iff ht o).2 ⟨i, hi, j, hj, hname, hne, rfl⟩, rfl⟩

omit ht

/-- The script of a table of integers is read with all unique keys of the table, unless an index has
taken the name of a key, in which case it is rejected for that name. -/
theorem Table.exists_sameUniqueKeys_iff {text : String} (h : Table.parse text = .ok t)
    (hi : t.OfIntegers) (ho : o.dialect = .postgresql) : ∃ sql, Creation.single o t = .ok sql ∧
      ((∃ t', Table.parse sql = .ok t' ∧ t.SameUniqueKeys t') ↔ ∀ name, ¬t.TakesKeyName name) ∧
      ∀ e, Table.parse sql = .error e →
        ∃ name, t.TakesKeyName name ∧ e = .schema (.duplicateIndexName name) := by
  have ht := Table.declared_of_parse h
  have hsingle : Creation.single o t = .ok (Creation.tableScript o t) := by
    rw [Creation.single, ht.valid]
  have hparse := parse_integerScript (o := o) hi ht.valid ho
    (ht.nonempty hi.foreignKeys hi.checks) ht.indexes
  rw [ofClauses_integerLines] at hparse
  have hok (t' : Table) : Table.parse (Creation.tableScript o t) = .ok t' ↔
      (∀ name, ¬t.TakesKeyName name) ∧ t' = integerTable o t := by
    rw [hparse, ← settle_integers_eq_ok_iff ht.toSettled o]
    cases ((integerTable o t).unsettled (unnamedKeys t)).settle <;> simp [Except.mapError]
  refine ⟨_, hsingle, ⟨?_, fun hfree => ?_⟩, fun e he => ?_⟩
  · rintro ⟨t', ht', -⟩
    exact ((hok t').1 ht').1
  · exact ⟨_, (hok _).2 ⟨hfree, rfl⟩, sameUniqueKeys_integerTable o t⟩
  · rw [hparse] at he
    cases hs : ((integerTable o t).unsettled (unnamedKeys t)).settle with
    | ok u =>
      rw [hs] at he
      cases he
    | error e' =>
      rw [hs] at he
      cases he
      obtain ⟨name, htakes, rfl⟩ := takesKeyName_of_settle_integers_eq_error ht.toSettled hs
      exact ⟨name, htakes, rfl⟩

namespace Table

def keyed (name : String) : Table where
  name := "t"
  fields := [{ name := "x", type := .int, unique := true }, { name := "a", type := .int },
    { name := "b", type := .int }]
  indexes := [⟨name, .unique, ["a", "b"]⟩]

theorem ofIntegers_keyed {name : String} (h : isIdentifier name = true) :
    (keyed name).OfIntegers where
  name := show isIdentifier "t" = true by decide
  fieldNames := by simp only [keyed]; decide
  indexNames := by simpa [keyed] using h
  fields := by simp only [keyed]; decide
  foreignKeys := rfl
  checks := rfl
  comment := rfl

theorem exists_sameUniqueKeys_iff_keyed :
    parse "CREATE TABLE t (x INT UNIQUE, a INT, b INT, UNIQUE KEY k (a, b))" = .ok (keyed "k") ∧
      (keyed "k").OfIntegers ∧ ∃ sql t', Creation.single { dialect := .postgresql } (keyed "k") =
        .ok sql ∧ parse sql = .ok t' ∧ (keyed "k").SameUniqueKeys t' := by
  have hparse : parse "CREATE TABLE t (x INT UNIQUE, a INT, b INT, UNIQUE KEY k (a, b))" =
      .ok (keyed "k") := by
    decide +kernel
  have hi := ofIntegers_keyed (show isIdentifier "k" = true by decide)
  obtain ⟨sql, hsql, hkept, -⟩ :=
    exists_sameUniqueKeys_iff (o := { dialect := .postgresql }) hparse hi rfl
  have hfree : ∀ name, ¬(keyed "k").TakesKeyName name := by
    rintro name ⟨⟨column, hc, rfl⟩, i, hmem, -, hname⟩
    obtain rfl : column = "x" := by simpa using (show column ∈ ["x"] from hc)
    obtain rfl := List.mem_singleton.1 hmem
    exact absurd hname (by decide)
  obtain ⟨t', hok, hsame⟩ := hkept.2 hfree
  exact ⟨hparse, hi, sql, t', hsql, hok, hsame⟩

theorem not_exists_sameUniqueKeys :
    ¬∀ (text : String) (t : Table), parse text = .ok t → t.OfIntegers →
      ∃ sql t', Creation.single { dialect := .postgresql } t = .ok sql ∧ parse sql = .ok t' ∧
        t.SameUniqueKeys t' := by
  intro h
  have hi := ofIntegers_keyed (show isIdentifier "uk_x" = true by decide)
  obtain ⟨sql, t', hsql, hok, -⟩ := h
    "CREATE TABLE t (x INT UNIQUE, a INT, b INT, UNIQUE KEY uk_x (a, b))" (keyed "uk_x")
    (by decide +kernel) hi
  have hvalid : (keyed "uk_x").validate = .ok () := by decide
  rw [Creation.single, hvalid, Except.ok.injEq] at hsql
  have hclash : ((integerTable { dialect := .postgresql } (keyed "uk_x")).unsettled
      (unnamedKeys (keyed "uk_x"))).settle = .error (.duplicateIndexName "uk_x") := by
    decide
  rw [← hsql, parse_integerScript hi hvalid rfl (by decide) (by decide), ofClauses_integerLines,
    hclash] at hok
  cases hok

end Table

end SqlTables
