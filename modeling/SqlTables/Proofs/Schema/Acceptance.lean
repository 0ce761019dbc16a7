import SqlTables.Proofs.Schema.Resettling

/-! Which drafts settle. A draft is turned down for what it says itself: neither the keys that
become flags nor the keys that are added for flags change what the final check finds. -/

namespace SqlTables

variable {t u keyed placed : Table} {d : Draft} {is js : List Index} {columns : List String}

/-- What a draft must keep to: columns are named once, every key lists columns of the table, and two
indexes of one name are one index. -/
structure Draft.Consistent (d : Draft) : Prop where
  fieldNames : d.table.fieldNames.Nodup
  primaryKey : ∀ column ∈ d.primaryKey, column ∈ d.table.fieldNames
  indexes : ∀ i ∈ d.table.indexes, ∀ column ∈ i.fields, column ∈ d.table.fieldNames
  foreignKeys : ∀ k ∈ d.table.foreignKeys, ∀ column ∈ k.fields, column ∈ d.table.fieldNames
  indexNames : ∀ i ∈ d.table.indexes, ∀ j ∈ d.table.indexes, i.name = j.name →
    i.kind = j.kind ∧ i.fields = j.fields

/-- The passes before the final check: the table with its primary key flagged, its indexes with one
of each kept, and the table with these in place. -/
structure Draft.Passes (d : Draft) (keyed : Table) (is : List Index) (placed : Table) : Prop where
  flagged : Draft.flagPrimaryKey d.table d.primaryKey = .ok keyed
  distinct : Draft.distinctIndexes [] keyed.indexes = .ok is
  inPlace : Draft.placeIndexes { keyed with indexes := [] } is = .ok placed

theorem settle_eq_ok_iff_passes : d.settle = .ok t ↔ ∃ keyed is placed,
    d.Passes keyed is placed ∧ (Draft.promoteKeyFlags placed).validate = .ok () ∧
      Draft.promoteKeyFlags placed = t := by
  rw [settle_eq_ok_iff]
  constructor
  · rintro ⟨keyed, is, placed, hkeyed, hdistinct, hplaced, hrest⟩
    exact ⟨keyed, is, placed, ⟨hkeyed, hdistinct, hplaced⟩, hrest⟩
  · rintro ⟨keyed, is, placed, ⟨hkeyed, hdistinct, hplaced⟩, hrest⟩
    exact ⟨keyed, is, placed, hkeyed, hdistinct, hplaced, hrest⟩

theorem exists_flagPrimaryKey_iff (t : Table) (columns : List String) :
    (∃ u, Draft.flagPrimaryKey t columns = .ok u) ↔ ∀ column ∈ columns, column ∈ t.fieldNames := by
  refine ⟨fun ⟨u, h⟩ => (fieldNames_flagPrimaryKey h).2, fun h => ?_⟩
  induction columns generalizing t with
  | nil => exact ⟨t, rfl⟩
  | cons column columns ih =>
    rw [List.forall_mem_cons] at h
    have hnames : (t.modifyField column Field.asPrimaryKey).fieldNames = t.fieldNames :=
      fieldNames_modifyField t column fun _ => rfl
    rw [Draft.flagPrimaryKey, if_pos (Table.hasField_iff_mem.2 h.1)]
    exact ih _ (hnames ▸ h.2)

theorem keys_flagPrimaryKey (h : Draft.flagPrimaryKey t columns = .ok u) :
    u.indexes = t.indexes ∧ u.foreignKeys = t.foreignKeys := by
  induction columns generalizing t with
  | nil =>
    rw [Draft.flagPrimaryKey, Except.ok.injEq] at h
    exact h ▸ ⟨rfl, rfl⟩
  | cons column columns ih =>
    rw [Draft.flagPrimaryKey] at h
    split_ifs at h
    exact @ih (t.modifyField column Field.asPrimaryKey) h

def Table.columnFault? (t : Table) (i : Index) : Option SchemaError :=
  (i.fields.find? (!t.hasField ·)).map (.unknownIndexColumn i.name)

theorem columnFault?_eq_none_iff {i : Index} :
    t.columnFault? i = none ↔ ∀ column ∈ i.fields, column ∈ t.fieldNames := by
  rw [Table.columnFault?, Option.map_eq_none_iff, Table.find?_hasField_eq_none_iff]

theorem hasField_congr (h : t.fieldNames = u.fieldNames) : t.hasField = u.hasField := by
  funext name
  rw [Bool.eq_iff_iff, Table.hasField_iff_mem, Table.hasField_iff_mem, h]

theorem columnFault?_congr (h : t.fieldNames = u.fieldNames) : t.columnFault? = u.columnFault? := by
  funext i
  rw [Table.columnFault?, Table.columnFault?, hasField_congr h]

theorem indexFault?_of_nodup {seen : List String} (hn : (is.map (·.name)).Nodup)
    (hs : ∀ i ∈ is, i.name ∉ seen) : t.indexFault? seen is = is.findSome? t.columnFault? := by
  induction is generalizing seen with
  | nil => rfl
  | cons i is ih =>
    rw [List.map_cons, List.nodup_cons] at hn
    rw [List.forall_mem_cons] at hs
    have hrest : ∀ j ∈ is, j.name ∉ i.name :: seen := by
      intro j hj
      rw [List.mem_cons, not_or]
      exact ⟨fun he => hn.1 (List.mem_map.2 ⟨j, hj, he⟩), hs.2 j hj⟩
    rw [Table.indexFault?, if_neg hs.1, ih hn.2 hrest, List.findSome?_cons, Table.columnFault?]
    cases i.fields.find? (!t.hasField ·) <;> rfl

theorem foreignKeyFault?_congr (hf : t.fieldNames = u.fieldNames)
    (hk : t.foreignKeys = u.foreignKeys) : t.foreignKeyFault? = u.foreignKeyFault? := by
  rw [Table.foreignKeyFault?, Table.foreignKeyFault?, hk, hasField_congr hf]

theorem fault?_eq_of_indexes (hf : t.fieldNames = u.fieldNames)
    (hk : t.foreignKeys = u.foreignKeys) (ht : (t.indexes.map (·.name)).Nodup)
    (hu : (u.indexes.map (·.name)).Nodup)
    (hi : t.indexes.findSome? u.columnFault? = u.indexes.findSome? u.columnFault?) :
    t.fault? = u.fault? := by
  have hindex : t.indexFault? [] t.indexes = u.indexFault? [] u.indexes := by
    rw [indexFault?_of_nodup ht (by simp), indexFault?_of_nodup hu (by simp),
      columnFault?_congr hf, hi]
  rw [Table.fault?, Table.fault?, hindex, foreignKeyFault?_congr hf hk, Table.fieldFault?,
    Table.fieldFault?, hf]

theorem placeIndex_cases {i : Index} (h : Draft.placeIndex t i = .ok u) :
    u.fieldNames = t.fieldNames ∧ u.foreignKeys = t.foreignKeys ∧
      (u.indexes = t.indexes ++ [i] ∨ u.indexes = t.indexes ∧ t.columnFault? i = none) := by
  by_cases hu : ∃ column, i.isUniqueOn column = true
  · obtain ⟨column, hunique⟩ := hu
    rw [placeIndex_of_isUniqueOn hunique] at h
    cases hf : t.field? column with
    | none =>
      rw [hf] at h
      cases h
    | some f =>
      rw [hf, Except.ok.injEq] at h
      subst h
      split_ifs
      · exact ⟨rfl, rfl, .inl rfl⟩
      · refine ⟨fieldNames_modifyField t column fun _ => rfl, rfl, .inr ⟨rfl, ?_⟩⟩
        obtain ⟨hmem, rfl⟩ := Table.mem_of_field? hf
        rw [columnFault?_eq_none_iff, (isUniqueOn_iff.1 hunique).2, List.forall_mem_singleton]
        exact List.mem_map_of_mem hmem
  · have hnone : ∀ column, i.isUniqueOn column = false := by simpa using hu
    rw [placeIndex_of_not_unique hnone, Except.ok.injEq] at h
    subst h
    exact ⟨rfl, rfl, .inl rfl⟩

theorem exists_of_placeIndexes (h : Draft.placeIndexes t is = .ok u) :
    u.fieldNames = t.fieldNames ∧ u.foreignKeys = t.foreignKeys ∧
      ∃ kept, u.indexes = t.indexes ++ kept ∧ kept.Sublist is ∧
        kept.findSome? t.columnFault? = is.findSome? t.columnFault? := by
  induction is generalizing t with
  | nil =>
    rw [Draft.placeIndexes, Except.ok.injEq] at h
    subst h
    exact ⟨rfl, rfl, [], (List.append_nil _).symm, .slnil, rfl⟩
  | cons i is ih =>
    rw [Draft.placeIndexes] at h
    split at h
    · cases h
    · rename_i v hv
      obtain ⟨hnames, hkeys, hcase⟩ := placeIndex_cases hv
      obtain ⟨hnames', hkeys', kept, hkept, hsub, hfault⟩ := ih h
      rw [columnFault?_congr hnames] at hfault
      refine ⟨hnames'.trans hnames, hkeys'.trans hkeys, ?_⟩
      rcases hcase with hindexes | ⟨hindexes, hnone⟩
      · refine ⟨i :: kept, ?_, hsub.cons_cons i, ?_⟩
        · rw [hkept, hindexes, List.append_assoc, List.singleton_append]
        · rw [List.findSome?_cons, List.findSome?_cons, hfault]
      · refine ⟨kept, by rw [hkept, hindexes], hsub.cons i, ?_⟩
        rw [List.findSome?_cons, hnone, hfault]

theorem fault?_placeIndexes (hn : (is.map (·.name)).Nodup)
    (h : Draft.placeIndexes { keyed with indexes := [] } is = .ok placed) :
    (placed.indexes.map (·.name)).Nodup ∧
      placed.fault? = ({ keyed with indexes := is } : Table).fault? := by
  obtain ⟨hnames, hkeys, kept, hkept, hsub, hfault⟩ := exists_of_placeIndexes h
  rw [List.nil_append] at hkept
  have hn' : (placed.indexes.map (·.name)).Nodup := hkept ▸ hn.sublist (hsub.map _)
  exact ⟨hn', fault?_eq_of_indexes hnames hkeys hn' hn (hkept ▸ hfault)⟩

theorem promote_cases {column : String} (hc : column ∈ t.fieldNames)
    (hn : (t.indexes.map (·.name)).Nodup) :
    ∃ added, Draft.promote t column = t.withIndexes added ∧
      ((t.indexes ++ added).map (·.name)).Nodup ∧ ∀ i ∈ added, t.columnFault? i = none := by
  unfold Draft.promote
  split_ifs
  · exact ⟨[], by simp [Table.withIndexes], by simpa using hn, by simp⟩
  · have hfresh := freshName_not_mem (t.indexes.map (·.name)) ("uk_" ++ column)
    refine ⟨[⟨freshName (t.indexes.map (·.name)) ("uk_" ++ column), .unique, [column]⟩], rfl,
      ?_, ?_⟩
    · rw [List.map_append, List.map_singleton, List.nodup_append]
      refine ⟨hn, List.nodup_singleton _, ?_⟩
      rintro _ hname _ hm rfl
      rw [List.mem_singleton.1 hm] at hname
      exact hfresh hname
    · rw [List.forall_mem_singleton, columnFault?_eq_none_iff, List.forall_mem_singleton]
      exact hc

theorem fault?_foldl_promote (hc : ∀ column ∈ columns, column ∈ t.fieldNames)
    (hn : (t.indexes.map (·.name)).Nodup) : (columns.foldl Draft.promote t).fault? = t.fault? := by
  induction columns generalizing t with
  | nil => rfl
  | cons column columns ih =>
    rw [List.forall_mem_cons] at hc
    obtain ⟨added, hadded, hn', hnone⟩ := promote_cases hc.1 hn
    have hstep : (t.withIndexes added).fault? = t.fault? := by
      refine fault?_eq_of_indexes rfl rfl hn' hn ?_
      have hall : added.findSome? t.columnFault? = none := List.findSome?_eq_none_iff.2 hnone
      rw [Table.withIndexes, List.findSome?_append, hall, Option.or_none]
    rw [List.foldl_cons, hadded, ih (t := t.withIndexes added) hc.2 hn', hstep]

theorem fault?_promoteKeyFlags (hn : (t.indexes.map (·.name)).Nodup) :
    (Draft.promoteKeyFlags t).fault? = t.fault? := by
  have hnames : (Draft.clearKeyFlags t).fieldNames = t.fieldNames :=
    map_name_map (fun f => if f.inPrimaryKey then { f with unique := false } else f)
      (fun f => by split_ifs <;> rfl) t.fields
  have hcolumns : ∀ column ∈ t.flaggedKeys, column ∈ (Draft.clearKeyFlags t).fieldNames := by
    intro column hc
    rw [hnames]
    obtain ⟨f, hf, rfl⟩ := List.mem_map.1 hc
    exact List.mem_map_of_mem (List.mem_filter.1 hf).1
  exact (fault?_foldl_promote hcolumns hn).trans (Table.fault?_congr hnames rfl rfl)

theorem nodup_of_distinctIndexes {kept : List Index} (hn : (kept.map (·.name)).Nodup)
    (h : Draft.distinctIndexes kept is = .ok js) : (js.map (·.name)).Nodup := by
  induction is generalizing kept with
  | nil =>
    rw [Draft.distinctIndexes, Except.ok.injEq] at h
    exact h ▸ hn
  | cons i is ih =>
    rw [Draft.distinctIndexes] at h
    split at h
    · rename_i hnone
      refine ih ?_ h
      rw [List.map_append, List.nodup_append]
      refine ⟨hn, List.nodup_singleton _, ?_⟩
      simpa using hnone
    · split_ifs at h
      exact ih hn h

namespace Draft.Passes

theorem nodup_names (h : d.Passes keyed is placed) : (is.map (·.name)).Nodup := by
  have hempty : (([] : List Index).map (·.name)).Nodup := List.nodup_nil
  exact nodup_of_distinctIndexes hempty h.distinct

theorem validate_eq (h : d.Passes keyed is placed) :
    (Draft.promoteKeyFlags placed).validate =
      ({ keyed with indexes := is } : Table).validate := by
  obtain ⟨hn, hfault⟩ := fault?_placeIndexes h.nodup_names h.inPlace
  rw [Table.validate, Table.validate, fault?_promoteKeyFlags hn, hfault]

theorem same_columns (h : d.Passes keyed is placed) :
    keyed.fieldNames = d.table.fieldNames ∧ keyed.indexes = d.table.indexes ∧
      keyed.foreignKeys = d.table.foreignKeys :=
  ⟨(fieldNames_flagPrimaryKey h.flagged).1, keys_flagPrimaryKey h.flagged⟩

theorem consistent_iff (h : d.Passes keyed is placed) :
    ({ keyed with indexes := is } : Table).validate = .ok () ↔ d.Consistent := by
  obtain ⟨hnames, hindexes, hkeys⟩ := h.same_columns
  obtain ⟨hsame, rfl⟩ := distinctIndexes_nil_eq_ok_iff.1 h.distinct
  have hn := h.nodup_names
  rw [Table.validate_eq_ok_iff]
  change keyed.fieldNames.Nodup ∧ _ ∧
    (∀ i ∈ keyed.indexes.eraseDups, ∀ column ∈ i.fields, column ∈ keyed.fieldNames) ∧
    (∀ k ∈ keyed.foreignKeys, ∀ column ∈ k.fields, column ∈ keyed.fieldNames) ↔ _
  simp only [List.mem_eraseDups]
  rw [hnames, hkeys]
  constructor
  · rintro ⟨hfields, -, hcolumns, hforeign⟩
    refine ⟨hfields, (fieldNames_flagPrimaryKey h.flagged).2, hindexes ▸ hcolumns, hforeign, ?_⟩
    intro i hi j hj hname
    rw [hsame j (hindexes ▸ hj) i (hindexes ▸ hi) hname]
    exact ⟨rfl, rfl⟩
  · intro hd
    exact ⟨hd.fieldNames, hn, hindexes ▸ hd.indexes, hd.foreignKeys⟩

end Draft.Passes

namespace Draft.Consistent

theorem eq_of_name (hd : d.Consistent) {i j : Index} (hi : i ∈ d.table.indexes)
    (hj : j ∈ d.table.indexes) (hname : j.name = i.name) : j = i := by
  obtain ⟨hkind, hfields⟩ := hd.indexNames j hj i hi hname
  cases i
  cases j
  simp_all

theorem exists_passes (hd : d.Consistent) : ∃ keyed is placed, d.Passes keyed is placed := by
  obtain ⟨keyed, hkeyed⟩ := (exists_flagPrimaryKey_iff _ _).2 hd.primaryKey
  have hnames := (fieldNames_flagPrimaryKey hkeyed).1
  have hindexes := (keys_flagPrimaryKey hkeyed).1
  refine ⟨keyed, keyed.indexes.eraseDups, _, hkeyed, distinctIndexes_nil_eq_ok_iff.2 ⟨?_, rfl⟩,
    (placeIndexes_eq_ok_iff ?_).2 ⟨?_, rfl⟩⟩
  · intro i hi j hj
    rw [hindexes] at hi hj
    exact hd.eq_of_name hi hj
  · change keyed.fieldNames.Nodup
    rw [hnames]
    exact hd.fieldNames
  · intro i hi column hu
    change column ∈ keyed.fieldNames
    rw [List.mem_eraseDups, hindexes] at hi
    rw [hnames]
    refine hd.indexes i hi column ?_
    rw [(isUniqueOn_iff.1 hu).2]
    exact List.mem_singleton_self column

end Draft.Consistent

/-- The drafts that settle are the consistent ones. Where the passes before it come to an end, the
final check finds in the settled table what it finds before any key is folded or added. -/
theorem exists_settle_iff (d : Draft) :
    ((∃ t, d.settle = .ok t) ↔ d.Consistent) ∧
      ∀ keyed is placed, d.Passes keyed is placed →
        (Draft.promoteKeyFlags placed).validate =
          ({ keyed with indexes := is } : Table).validate := by
  refine ⟨⟨?_, ?_⟩, fun _ _ _ h => h.validate_eq⟩
  · rintro ⟨t, h⟩
    obtain ⟨keyed, is, placed, hpasses, hvalid, -⟩ := settle_eq_ok_iff_passes.1 h
    rw [hpasses.validate_eq] at hvalid
    exact hpasses.consistent_iff.1 hvalid
  · intro hd
    obtain ⟨keyed, is, placed, hpasses⟩ := hd.exists_passes
    refine ⟨_, settle_eq_ok_iff_passes.2 ⟨keyed, is, placed, hpasses, ?_, rfl⟩⟩
    rw [hpasses.validate_eq, hpasses.consistent_iff]
    exact hd

def Draft.misindexed : Draft where
  table :=
    { name := "t"
      fields := [{ name := "a", type := .int, unique := true }, { name := "b", type := .int }]
      indexes := [⟨"uk_a", .normal, ["b", "c"]⟩, ⟨"uk_b", .unique, ["b"]⟩] }
  primaryKey := ["a"]

theorem exists_passes_misindexed : ∃ keyed is placed, Draft.misindexed.Passes keyed is placed ∧
    (Draft.promoteKeyFlags placed).validate = ({ keyed with indexes := is } : Table).validate ∧
    (Draft.promoteKeyFlags placed).validate = .error (.unknownIndexColumn "uk_a" "c") := by
  refine ⟨_, _, _, ⟨rfl, rfl, rfl⟩,
    (exists_settle_iff Draft.misindexed).2 _ _ _ ⟨rfl, rfl, rfl⟩, ?_⟩
  decide +kernel

end SqlTables
