import SqlTables.Proofs.Schema.Settling

/-! Settled tables, unsettled and settled again. A script declares the primary key and the unique
columns of a table by clauses, and these settle to the flags of the table, unless a key for a flag
takes the name of another. -/

namespace SqlTables

variable {t u : Table} {d : Draft} {keys : List Index}

structure Table.Settled (t : Table) : Prop where
  valid : t.validate = .ok ()
  keyFlags : ∀ f ∈ t.fields, f.inPrimaryKey = true → f.unique = false
  folded : ∀ i ∈ t.indexes, t.folds i = false

theorem Table.Settled.inPrimaryKey_eq_false (ht : t.Settled) {f : Field} (hf : f ∈ t.fields)
    (hunique : f.unique = true) : f.inPrimaryKey = false := by
  by_contra hkey
  have hflag := ht.keyFlags f hf (by simpa using hkey)
  exact absurd (hunique.symm.trans hflag) (by simp)

theorem Draft.settled_of_settle (h : d.settle = .ok t) : t.Settled :=
  ⟨validate_of_settle h, fun _ => unique_eq_false_of_settle h,
    fun _ => folds_eq_false_of_settle h⟩

structure Table.FlagKeys (t : Table) (keys : List Index) : Prop where
  nodup : keys.Nodup
  flagged : ∀ i ∈ keys, ∃ f ∈ t.fields, f.unique = true ∧ i.isUniqueOn f.name = true
  keyed : ∀ f ∈ t.fields, f.unique = true → ∃ i ∈ keys, i.isUniqueOn f.name = true

def keyColumns (t : Table) : List String := t.primaryKeyFields.map (·.name)

def Field.unkeyed (f : Field) : Field := { f with inPrimaryKey := false, unique := false }

/-- The draft that declares by clauses what the flags of a table say. -/
def Table.unsettled (t : Table) (keys : List Index) : Draft where
  table := { t with fields := t.fields.map Field.unkeyed, indexes := keys ++ t.indexes }
  primaryKey := keyColumns t

theorem promoteKeyFlags_eq_self (h : ∀ f ∈ t.fields, f.inPrimaryKey = true → f.unique = false) :
    Draft.promoteKeyFlags t = t := by
  have hflagged : t.fields.filter (fun f => f.inPrimaryKey && f.unique) = [] := by
    rw [List.filter_eq_nil_iff]
    intro f hf hboth
    rw [Bool.and_eq_true] at hboth
    rw [h f hf hboth.1] at hboth
    exact absurd hboth.2 (by simp)
  have hclear : t.fields.map (fun f => if f.inPrimaryKey then { f with unique := false } else f) =
      t.fields := by
    rw [List.map_congr_left (g := id), List.map_id]
    intro f hf
    split_ifs with hk
    · have hunique := h f hf hk
      cases f
      simp_all
    · rfl
  rw [Draft.promoteKeyFlags, hflagged, Draft.clearKeyFlags, hclear]
  rfl

theorem exists_of_distinctIndexes_eq_error {kept is : List Index} {e : SchemaError}
    (h : Draft.distinctIndexes kept is = .error e) : ∃ i ∈ is, ∃ j ∈ kept ++ is,
      j.name = i.name ∧ j ≠ i ∧ e = .duplicateIndexName i.name := by
  induction is generalizing kept with
  | nil => cases h
  | cons i is ih =>
    rw [Draft.distinctIndexes] at h
    split at h
    · obtain ⟨k, hk, j, hj, hclash⟩ := ih h
      rw [List.append_assoc] at hj
      exact ⟨k, List.mem_cons_of_mem _ hk, j, hj, hclash⟩
    · rename_i seen hseen
      split_ifs at h with hi
      · obtain ⟨k, hk, j, hj, hclash⟩ := ih h
        refine ⟨k, List.mem_cons_of_mem _ hk, j, ?_, hclash⟩
        rw [List.mem_append] at hj ⊢
        exact hj.imp_right (List.mem_cons_of_mem _)
      · cases h
        refine ⟨i, List.mem_cons_self, seen, ?_, ?_, hi, rfl⟩
        · exact List.mem_append_left _ (List.mem_of_find?_eq_some hseen)
        · simpa using List.find?_some hseen

theorem settle_eq_error_of_distinctIndexes {e : SchemaError} (hn : d.table.fieldNames.Nodup)
    (hc : ∀ column ∈ d.primaryKey, column ∈ d.table.fieldNames)
    (h : Draft.distinctIndexes [] d.table.indexes = .error e) : d.settle = .error e := by
  unfold Draft.settle
  rw [flagPrimaryKey_eq_ok hn hc]
  simp only [bind, Except.bind, h]

theorem mem_keyColumns (hv : t.validate = .ok ()) {f : Field} (hf : f ∈ t.fields) :
    f.name ∈ keyColumns t ↔ f.inPrimaryKey = true := by
  have hn := Table.nodup_fieldNames_of_validate hv
  rw [keyColumns, Table.primaryKeyFields, List.mem_map]
  constructor
  · rintro ⟨g, hg, hname⟩
    rw [List.mem_filter] at hg
    rw [← eq_of_name_eq hn hg.1 hf hname]
    exact hg.2
  · intro hkey
    exact ⟨f, List.mem_filter.2 ⟨hf, hkey⟩, rfl⟩

theorem fieldNames_unsettled (t : Table) (keys : List Index) :
    (t.unsettled keys).table.fieldNames = t.fieldNames :=
  map_name_map Field.unkeyed (fun _ => rfl) t.fields

theorem nodup_fieldNames_unsettled (hv : t.validate = .ok ()) :
    (t.unsettled keys).table.fieldNames.Nodup := by
  rw [fieldNames_unsettled]
  exact Table.nodup_fieldNames_of_validate hv

theorem isKey_unsettled (hv : t.validate = .ok ()) {f : Field} (hf : f ∈ t.fields) :
    (t.unsettled keys).isKey f.unkeyed = f.inPrimaryKey := by
  change (false || decide (f.name ∈ keyColumns t)) = f.inPrimaryKey
  rw [Bool.false_or, Bool.eq_iff_iff, decide_eq_true_eq]
  exact mem_keyColumns hv hf

theorem folds_unsettled (hv : t.validate = .ok ()) (i : Index) :
    (t.unsettled keys).folds i = t.folds i := by
  change (t.fields.map Field.unkeyed).any _ = t.fields.any _
  rw [List.any_map, Bool.eq_iff_iff, List.any_eq_true, List.any_eq_true]
  refine exists_congr fun f => and_congr_right fun hf => ?_
  rw [Function.comp_apply, isKey_unsettled hv hf]
  rfl

theorem mem_primaryKey_unsettled : ∀ column ∈ (t.unsettled keys).primaryKey,
    column ∈ (t.unsettled keys).table.fieldNames := by
  intro column hc
  obtain ⟨f, hf, rfl⟩ := List.mem_map.1 hc
  rw [fieldNames_unsettled]
  exact List.mem_map_of_mem (List.mem_filter.1 hf).1

variable (ht : t.Settled) (hk : t.FlagKeys keys)

include ht hk

theorem folds_of_mem_keys {i : Index} (hi : i ∈ keys) : t.folds i = true := by
  obtain ⟨f, hf, hunique, hu⟩ := hk.flagged i hi
  rw [Table.folds, List.any_eq_true]
  exact ⟨f, hf, by simp [ht.inPrimaryKey_eq_false hf hunique, hu]⟩

theorem any_isUniqueOn_unsettled {f : Field} (hf : f ∈ t.fields) :
    (!f.inPrimaryKey && (keys ++ t.indexes).any (·.isUniqueOn f.name)) = f.unique := by
  have hn := Table.nodup_fieldNames_of_validate ht.valid
  rw [Bool.eq_iff_iff, Bool.and_eq_true, Bool.not_eq_true', List.any_eq_true]
  constructor
  · rintro ⟨hkey, i, hi, hu⟩
    rcases List.mem_append.1 hi with hi | hi
    · obtain ⟨g, hg, hunique, hu'⟩ := hk.flagged i hi
      rw [← eq_of_name_eq hn hg hf (eq_of_isUniqueOn hu' hu)]
      exact hunique
    · have hfolded := ht.folded i hi
      rw [Table.folds, List.any_eq_false] at hfolded
      exact absurd (by simp [hkey, hu]) (hfolded f hf)
  · intro hunique
    obtain ⟨i, hi, hu⟩ := hk.keyed f hf hunique
    exact ⟨ht.inPrimaryKey_eq_false hf hunique, i, List.mem_append_left _ hi, hu⟩

theorem nodup_append_indexes : (keys ++ t.indexes).Nodup := by
  rw [List.nodup_append]
  refine ⟨hk.nodup, List.Nodup.of_map _ (Table.nodup_indexNames_of_validate ht.valid), ?_⟩
  rintro i hi _ hj rfl
  -- a key of a flag would have been folded
  have hfolds := folds_of_mem_keys ht hk hi
  rw [ht.folded i hj] at hfolds
  exact absurd hfolds (by simp)

theorem placed_unsettled : (t.unsettled keys).placed = t := by
  have hindexes : (t.unsettled keys).placed.indexes = t.indexes := by
    have hfolds : keys.filter (!t.folds ·) = [] := by
      rw [List.filter_eq_nil_iff]
      intro i hi
      simp [folds_of_mem_keys ht hk hi]
    have hkept : t.indexes.filter (!t.folds ·) = t.indexes := by
      rw [List.filter_eq_self]
      intro i hi
      simp [ht.folded i hi]
    rw [Draft.indexes_placed]
    change (keys ++ t.indexes).eraseDups.filter _ = _
    simp only [eraseDups_of_nodup (nodup_append_indexes ht hk), folds_unsettled ht.valid,
      List.filter_append, hfolds, hkept, List.nil_append]
  have hfields : (t.unsettled keys).placed.fields = t.fields := by
    rw [Draft.fields_placed]
    change (t.fields.map Field.unkeyed).map _ = _
    rw [List.map_map]
    refine (List.map_congr_left fun f hf => ?_).trans (List.map_id _)
    have hkey : (t.unsettled keys).isKey f.unkeyed = f.inPrimaryKey := isKey_unsettled ht.valid hf
    have hunique := any_isUniqueOn_unsettled ht hk hf
    change { f with
      inPrimaryKey := (t.unsettled keys).isKey f.unkeyed
      unique := false || (!(t.unsettled keys).isKey f.unkeyed &&
        (keys ++ t.indexes).any (·.isUniqueOn f.name)) } = f
    rw [hkey, hunique]
    rfl
  have hplaced : (t.unsettled keys).placed =
      { t with
        fields := (t.unsettled keys).placed.fields
        indexes := (t.unsettled keys).placed.indexes } := rfl
  rw [hplaced, hfields, hindexes]

theorem settle_unsettled_eq_ok_iff : (t.unsettled keys).settle = .ok u ↔
    (∀ i ∈ keys ++ t.indexes, ∀ j ∈ keys ++ t.indexes, j.name = i.name → j = i) ∧ u = t := by
  have hcolumns (i : Index) (hi : i ∈ keys ++ t.indexes) (column : String)
      (hu : i.isUniqueOn column = true) : column ∈ (t.unsettled keys).table.fieldNames := by
    rw [fieldNames_unsettled]
    rcases List.mem_append.1 hi with hi | hi
    · obtain ⟨f, hf, -, hu'⟩ := hk.flagged i hi
      rw [eq_of_isUniqueOn hu hu']
      exact List.mem_map_of_mem hf
    · have hfields := (Table.validate_eq_ok_iff.1 ht.valid).2.2.1 i hi
      exact hfields column (by simp [(isUniqueOn_iff.1 hu).2])
  rw [settle_eq_ok_iff_of_nodup (nodup_fieldNames_unsettled ht.valid), placed_unsettled ht hk,
    promoteKeyFlags_eq_self ht.keyFlags]
  constructor
  · rintro ⟨-, hnames, -, -, rfl⟩
    exact ⟨hnames, rfl⟩
  · rintro ⟨hnames, rfl⟩
    exact ⟨mem_primaryKey_unsettled, hnames, hcolumns, ht.valid, rfl⟩

theorem exists_of_settle_unsettled_eq_error {e : SchemaError}
    (h : (t.unsettled keys).settle = .error e) : ∃ i ∈ keys ++ t.indexes,
      ∃ j ∈ keys ++ t.indexes, j.name = i.name ∧ j ≠ i ∧ e = .duplicateIndexName i.name := by
  cases hdistinct : Draft.distinctIndexes [] (t.unsettled keys).table.indexes with
  | ok is =>
    have hnames := (distinctIndexes_nil_eq_ok_iff.1 hdistinct).1
    rw [(settle_unsettled_eq_ok_iff ht hk).2 ⟨hnames, rfl⟩] at h
    cases h
  | error e' =>
    rw [settle_eq_error_of_distinctIndexes (nodup_fieldNames_unsettled ht.valid)
      mem_primaryKey_unsettled hdistinct] at h
    cases h
    exact exists_of_distinctIndexes_eq_error hdistinct

end SqlTables
