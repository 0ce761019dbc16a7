import SqlTables.Proofs.Schema.Resettling

/-! Settling twice. The first pass leaves nothing to flag, to fold or to promote, so a settled
table, read as a draft again, comes back as it is, whichever columns of its key are listed once
more. -/

namespace SqlTables

variable {t : Table} {d : Draft} {columns : List String}

/-- The draft that lists columns of the primary key beside a table. -/
def Table.relisted (t : Table) (columns : List String) : Draft := ⟨t, columns⟩

namespace Table.Settled

section

variable (ht : t.Settled) (hc : ∀ column ∈ columns, column ∈ keyColumns t)

include ht hc

theorem isKey_relisted {f : Field} (hf : f ∈ t.fields) :
    (t.relisted columns).isKey f = f.inPrimaryKey := by
  rw [Bool.eq_iff_iff]
  change (f.inPrimaryKey || decide (f.name ∈ columns)) = true ↔ f.inPrimaryKey = true
  rw [Bool.or_eq_true, decide_eq_true_eq, or_iff_left_iff_imp]
  intro hmem
  exact (mem_keyColumns ht.valid hf).1 (hc f.name hmem)

theorem folds_relisted (i : Index) : (t.relisted columns).folds i = t.folds i := by
  change t.fields.any _ = t.fields.any _
  rw [Bool.eq_iff_iff, List.any_eq_true, List.any_eq_true]
  refine exists_congr fun f => and_congr_right fun hf => ?_
  rw [ht.isKey_relisted hc hf]

theorem placed_relisted : (t.relisted columns).placed = t := by
  have hfields : (t.relisted columns).placed.fields = t.fields := by
    rw [Draft.fields_placed]
    refine (List.map_congr_left fun f hf => ?_).trans (List.map_id _)
    have hunique : (!f.inPrimaryKey && t.indexes.any (·.isUniqueOn f.name)) = false := by
      rw [Bool.and_eq_false_imp]
      intro hkey
      rw [List.any_eq_false]
      intro i hi hu
      have hfolded := ht.folded i hi
      rw [Table.folds, List.any_eq_false] at hfolded
      exact hfolded f hf (by rw [hkey, hu]; rfl)
    rw [ht.isKey_relisted hc hf]
    change { f with
      inPrimaryKey := f.inPrimaryKey
      unique := f.unique || (!f.inPrimaryKey && t.indexes.any (·.isUniqueOn f.name)) } = f
    rw [hunique, Bool.or_false]
  have hindexes : (t.relisted columns).placed.indexes = t.indexes := by
    have hnodup : t.indexes.Nodup :=
      List.Nodup.of_map _ (Table.nodup_indexNames_of_validate ht.valid)
    rw [Draft.indexes_placed]
    change t.indexes.eraseDups.filter _ = t.indexes
    rw [eraseDups_of_nodup hnodup, List.filter_eq_self]
    intro i hi
    rw [ht.folds_relisted hc, ht.folded i hi]
    rfl
  have hplaced : (t.relisted columns).placed =
      { t with
        fields := (t.relisted columns).placed.fields
        indexes := (t.relisted columns).placed.indexes } := rfl
  rw [hplaced, hfields, hindexes]

theorem settle_relisted : (t.relisted columns).settle = .ok t := by
  obtain ⟨hfields, hnames, hcolumns, -⟩ := Table.validate_eq_ok_iff.1 ht.valid
  rw [settle_eq_ok_iff_of_nodup hfields, ht.placed_relisted hc, promoteKeyFlags_eq_self ht.keyFlags]
  refine ⟨fun column hmem => ?_, fun i hi j hj hname => ?_, fun i hi column hu => ?_, ht.valid, rfl⟩
  · obtain ⟨f, hf, rfl⟩ := List.mem_map.1 (hc column hmem)
    exact List.mem_map_of_mem (List.mem_filter.1 hf).1
  · exact List.inj_on_of_nodup_map hnames hj hi hname
  · refine hcolumns i hi column ?_
    rw [(isUniqueOn_iff.1 hu).2]
    exact List.mem_singleton_self column

end

end Table.Settled

/-- Settling is idempotent, and the columns that may be listed again are those of the key. -/
theorem settle_relisted_eq_self_iff (h : d.settle = .ok t) :
    (t.relisted columns).settle = .ok t ↔ ∀ column ∈ columns, column ∈ keyColumns t := by
  have ht := Draft.settled_of_settle h
  refine ⟨fun hself column hmem => ?_, ht.settle_relisted⟩
  have hnames := ((settle_eq_ok_iff_of_nodup (nodup_of_settle hself)).1 hself).1 column hmem
  obtain ⟨f, hf, rfl⟩ := List.mem_map.1 hnames
  obtain ⟨_, hform, -⟩ := Draft.exists_of_settle hself
  have hfields : t.fields = t.fields.map (t.relisted columns).settledField :=
    congrArg Table.fields hform
  have hsettled : (t.relisted columns).settledField f ∈ t.fields := by
    rw [hfields]
    exact List.mem_map_of_mem hf
  have hkey : (t.relisted columns).isKey f = true := by
    change (f.inPrimaryKey || decide (f.name ∈ columns)) = true
    rw [decide_eq_true hmem, Bool.or_true]
  exact (mem_keyColumns ht.valid hsettled).2 hkey

def Draft.relistable : Draft where
  table :=
    { name := "t"
      fields := [{ name := "a", type := .int, unique := true }, { name := "b", type := .int },
        { name := "c", type := .int }]
      indexes := [⟨"uk_a", .normal, ["b", "c"]⟩, ⟨"uk_b", .unique, ["b"]⟩,
        ⟨"uk_c", .unique, ["c"]⟩] }
  primaryKey := ["b", "a"]

theorem settle_relisted_eq_self_iff_promoted : ∃ t, Draft.relistable.settle = .ok t ∧
    t.fields.map (·.unique) = [false, false, true] ∧ keyColumns t = ["a", "b"] ∧
      (t.relisted []).settle = .ok t ∧ (t.relisted ["b"]).settle = .ok t ∧
        (t.relisted ["c"]).settle ≠ .ok t := by
  have h : Draft.relistable.settle = .ok
      { name := "t"
        fields := [{ name := "a", type := .int, inPrimaryKey := true },
          { name := "b", type := .int, inPrimaryKey := true },
          { name := "c", type := .int, unique := true }]
        indexes := [⟨"uk_a", .normal, ["b", "c"]⟩, ⟨"uk_b", .unique, ["b"]⟩,
          ⟨"uk_a_2", .unique, ["a"]⟩] } := by
    decide +kernel
  refine ⟨_, h, rfl, rfl, (settle_relisted_eq_self_iff h).2 (by decide),
    (settle_relisted_eq_self_iff h).2 (by decide), fun hself => ?_⟩
  exact absurd ((settle_relisted_eq_self_iff h).1 hself) (by decide)

end SqlTables
