import SqlTables.Proofs.RoundTrip.Keys

/-! The keys that MySQL has inside a table. The indexes are kept as they are, and a column that is
marked for a key gets one of its own unless an index does for it. -/

namespace SqlTables

open Creation (columnKeys declaresKey inlineKeys keyPlan)

variable {o : Options} {t : Table} {i : Index} {kind : IndexKind}

/-- Whether a column is to have a key of the kind. The primary key is unique without one. -/
def Field.isMarked (f : Field) : IndexKind → Bool
  | .unique => f.unique && !f.inPrimaryKey
  | .normal => f.indexed
  | .fulltext | .spatial => false

/-- Whether keys do for a table: they hold its indexes, each once and in order, there is one for
every marked column, and those that are no index are each for a marked column alone. -/
structure Table.KeyedBy (t : Table) (keys : List Index) : Prop where
  names : (keys.map (·.name)).Nodup
  indexes : keys.filter (· ∈ t.indexes) = t.indexes
  marked : ∀ f ∈ t.fields, ∀ kind, f.isMarked kind = true →
    ∃ i ∈ keys, i.kind = kind ∧ i.fields = [f.name]
  own : ∀ i ∈ keys, i ∉ t.indexes → ∃ f ∈ t.fields, f.isMarked i.kind = true ∧
    i.fields = [f.name] ∧ ∀ j ∈ t.indexes, ¬(j.kind = i.kind ∧ j.fields = [f.name])
  alone : ∀ i ∈ keys, i ∉ t.indexes →
    ∀ j ∈ keys, j.kind = i.kind → j.fields = i.fields → j = i

def markedColumns (t : Table) (kind : IndexKind) : List String :=
  (t.fields.filter (·.isMarked kind)).map (·.name)

theorem mem_markedColumns {column : String} :
    column ∈ markedColumns t kind ↔ ∃ f ∈ t.fields, f.isMarked kind = true ∧ f.name = column := by
  simp [markedColumns, and_assoc]

theorem declaresKey_eq_true_iff {column : String} :
    declaresKey t kind column = true ↔ ∃ i ∈ t.indexes, i.kind = kind ∧ i.fields = [column] := by
  simp [declaresKey]

def ownKeys (t : Table) (kind : IndexKind) (stem : String) (taken : List String) : List Index :=
  columnKeys kind stem taken ((markedColumns t kind).filter (!declaresKey t kind ·))

theorem exists_inlineKeys_eq (t : Table) : ∃ taken, inlineKeys t =
    ownKeys t .unique "uk_" (t.indexes.map (·.name)) ++ t.indexes ++
      ownKeys t .normal "idx_" taken := ⟨_, rfl⟩

theorem exists_field_of_mem_ownKeys {stem : String} {taken : List String}
    (h : i ∈ ownKeys t kind stem taken) : i.kind = kind ∧
      ∃ f ∈ t.fields, f.isMarked kind = true ∧ i.fields = [f.name] ∧
        ∀ j ∈ t.indexes, ¬(j.kind = kind ∧ j.fields = [f.name]) := by
  obtain ⟨column, hc, hkind, hfields⟩ := mem_columnKeys h
  obtain ⟨hmarked, hdeclared⟩ := List.mem_filter.1 hc
  obtain ⟨f, hf, hfmarked, rfl⟩ := mem_markedColumns.1 hmarked
  refine ⟨hkind, f, hf, hfmarked, hfields, fun j hj hsame => ?_⟩
  rw [declaresKey_eq_true_iff.2 ⟨j, hj, hsame⟩] at hdeclared
  cases hdeclared

theorem not_mem_indexes_of_mem_ownKeys {stem : String} {taken : List String}
    (h : i ∈ ownKeys t kind stem taken) : i ∉ t.indexes := by
  obtain ⟨hkind, f, -, -, hfields, hnone⟩ := exists_field_of_mem_ownKeys h
  exact fun hi => hnone i hi ⟨hkind, hfields⟩

theorem map_fields_columnKeys (kind : IndexKind) (stem : String) (taken columns : List String) :
    (columnKeys kind stem taken columns).map (·.fields) = columns.map ([·]) := by
  induction columns generalizing taken with
  | nil => rfl
  | cons column columns ih =>
    rw [columnKeys, List.map_cons, List.map_cons, ih]

theorem eq_of_mem_ownKeys (hv : t.validate = .ok ()) {stem : String} {taken : List String}
    (hi : i ∈ ownKeys t kind stem taken) {j : Index} (hj : j ∈ ownKeys t kind stem taken)
    (h : j.fields = i.fields) : j = i := by
  refine List.inj_on_of_nodup_map ?_ hj hi h
  rw [ownKeys, map_fields_columnKeys]
  have hcolumns : (markedColumns t kind).Nodup :=
    (Table.nodup_fieldNames_of_validate hv).sublist (List.filter_sublist.map _)
  exact (hcolumns.filter _).map fun a b hab => by simpa using hab

theorem exists_mem_ownKeys (t : Table) (kind : IndexKind) : ∃ stem taken,
    ∀ i ∈ inlineKeys t, i ∉ t.indexes → i.kind = kind → i ∈ ownKeys t kind stem taken := by
  obtain ⟨taken, hkeys⟩ := exists_inlineKeys_eq t
  have hmade {i : Index} (hi : i ∈ inlineKeys t) (hne : i ∉ t.indexes) :
      i ∈ ownKeys t .unique "uk_" (t.indexes.map (·.name)) ∨
        i ∈ ownKeys t .normal "idx_" taken := by
    simpa [hkeys, hne] using hi
  have hunique {i : Index} {taken : List String} (hi : i ∈ ownKeys t .unique "uk_" taken) :
      i.kind = .unique := (exists_field_of_mem_ownKeys hi).1
  have hnormal {i : Index} {taken : List String} (hi : i ∈ ownKeys t .normal "idx_" taken) :
      i.kind = .normal := (exists_field_of_mem_ownKeys hi).1
  cases kind with
  | unique =>
    refine ⟨"uk_", _, fun i hi hne hkind => (hmade hi hne).resolve_right fun hi => ?_⟩
    rw [hnormal hi] at hkind
    cases hkind
  | normal =>
    refine ⟨"idx_", taken, fun i hi hne hkind => (hmade hi hne).resolve_left fun hi => ?_⟩
    rw [hunique hi] at hkind
    cases hkind
  | fulltext | spatial =>
    refine ⟨"", [], fun i hi hne hkind => ?_⟩
    rcases hmade hi hne with hi | hi
    · rw [hunique hi] at hkind
      cases hkind
    · rw [hnormal hi] at hkind
      cases hkind

theorem filter_inlineKeys (t : Table) : (inlineKeys t).filter (· ∈ t.indexes) = t.indexes := by
  obtain ⟨taken, hkeys⟩ := exists_inlineKeys_eq t
  have hown (kind : IndexKind) (stem : String) (taken : List String) :
      (ownKeys t kind stem taken).filter (· ∈ t.indexes) = [] :=
    List.filter_eq_nil_iff.2 fun i hi => by simpa using not_mem_indexes_of_mem_ownKeys hi
  have hself : t.indexes.filter (· ∈ t.indexes) = t.indexes :=
    List.filter_eq_self.2 fun i hi => by simpa using hi
  rw [hkeys, List.filter_append, List.filter_append, hown, hown, hself]
  simp

theorem exists_mem_inlineKeys {f : Field} (hf : f ∈ t.fields) (h : f.isMarked kind = true) :
    ∃ i ∈ inlineKeys t, i.kind = kind ∧ i.fields = [f.name] := by
  obtain ⟨taken, hkeys⟩ := exists_inlineKeys_eq t
  rw [hkeys]
  by_cases hdeclared : declaresKey t kind f.name = true
  · obtain ⟨i, hi, hsame⟩ := declaresKey_eq_true_iff.1 hdeclared
    exact ⟨i, by simp [hi], hsame⟩
  · have hcolumn : f.name ∈ (markedColumns t kind).filter (!declaresKey t kind ·) := by
      rw [List.mem_filter]
      exact ⟨mem_markedColumns.2 ⟨f, hf, h, rfl⟩, by simpa using hdeclared⟩
    have hown (stem : String) (taken : List String) :
        ∃ i ∈ ownKeys t kind stem taken, i.kind = kind ∧ i.fields = [f.name] := by
      have hmem : ∃ i ∈ ownKeys t kind stem taken, i.fields = [f.name] :=
        exists_mem_columnKeys hcolumn
      obtain ⟨i, hi, hfields⟩ := hmem
      exact ⟨i, hi, (exists_field_of_mem_ownKeys hi).1, hfields⟩
    cases kind with
    | unique =>
      obtain ⟨i, hi, hsame⟩ := hown "uk_" (t.indexes.map (·.name))
      exact ⟨i, by simp [hi], hsame⟩
    | normal =>
      obtain ⟨i, hi, hsame⟩ := hown "idx_" taken
      exact ⟨i, by simp [hi], hsame⟩
    | fulltext | spatial => cases h

theorem keyedBy_inlineKeys (hv : t.validate = .ok ()) : t.KeyedBy (inlineKeys t) where
  names := nodup_inlineKeys hv
  indexes := filter_inlineKeys t
  marked f hf kind h := exists_mem_inlineKeys hf h
  own i hi hne := by
    obtain ⟨stem, taken, hown⟩ := exists_mem_ownKeys t i.kind
    exact (exists_field_of_mem_ownKeys (hown i hi hne rfl)).2
  alone i hi hne j hj hkind hfields := by
    obtain ⟨stem, taken, hown⟩ := exists_mem_ownKeys t i.kind
    have hi' := hown i hi hne rfl
    obtain ⟨-, f, -, -, hf, hnone⟩ := exists_field_of_mem_ownKeys hi'
    have hnej : j ∉ t.indexes := fun hmem => hnone j hmem ⟨hkind, hfields.trans hf⟩
    exact eq_of_mem_ownKeys hv hi' (hown j hj hnej hkind) hfields

/-- MySQL has all keys of a table inside it, and they do for the table. -/
theorem exists_keyedBy_keyPlan (ho : o.dialect = .mysql) (hv : t.validate = .ok ()) :
    ∃ keys, keyPlan o t = ⟨keys.map fun i => .key i.kind i.name i.fields, []⟩ ∧
      t.KeyedBy keys := by
  refine ⟨inlineKeys t, ?_, keyedBy_inlineKeys hv⟩
  rw [keyPlan, ho]
  rfl

def takenNames : Table where
  name := "t"
  fields := [{ name := "id", type := .int, inPrimaryKey := true, unique := true, indexed := true },
    { name := "email", type := .varChar, unique := true, indexed := true },
    { name := "a", type := .int, indexed := true }]
  indexes := [⟨"uk_email", .normal, ["email"]⟩, ⟨"uk_email_2", .unique, ["email", "a"]⟩,
    ⟨"idx_a", .fulltext, ["a"]⟩]

theorem exists_keyedBy_keyPlan_takenNames : ({} : Options).dialect = .mysql ∧
    takenNames.validate = .ok () ∧ ∃ keys,
      keyPlan {} takenNames = ⟨keys.map fun i => .key i.kind i.name i.fields, []⟩ ∧
        takenNames.KeyedBy keys :=
  ⟨rfl, by decide, exists_keyedBy_keyPlan rfl (by decide)⟩

example : (inlineKeys takenNames).map (·.name) =
    ["uk_email_3", "uk_email", "uk_email_2", "idx_a", "idx_id", "idx_a_2"] := by decide +kernel

end SqlTables
