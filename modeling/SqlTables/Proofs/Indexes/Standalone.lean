import Mathlib.Data.List.Find
import Mathlib.Data.List.Nodup
import SqlTables.Creation.Keys

/-! Indexes that are statements of their own. Each is named for its columns and only the first of a
name is kept, so a list of columns has an index unless one before it is joined to the same text. -/

namespace SqlTables.Creation

open Script (CreateIndex)

variable {o : Options} {t : Table} {i : CreateIndex} {is : List CreateIndex} {seen : List String}
  {columns : List String}

theorem mem_firstOfName_iff :
    i ∈ firstOfName seen is ↔ i.name ∉ seen ∧ is.find? (·.name = i.name) = some i := by
  induction is generalizing seen with
  | nil => simp [firstOfName]
  | cons j is ih =>
    rw [firstOfName, List.find?_cons]
    by_cases hname : j.name = i.name
    · simp only [hname, decide_true, Option.some.injEq]
      split_ifs with hseen
      · simp [ih, hseen]
      · simp [ih, hseen, eq_comm]
    · simp only [hname, decide_false]
      have hne : i ≠ j := fun h => hname (h ▸ rfl)
      split_ifs with hseen
      · exact ih
      · simp [ih, hne, Ne.symm hname]

theorem nodup_firstOfName (seen : List String) (is : List CreateIndex) :
    ((firstOfName seen is).map (·.name)).Nodup := by
  induction is generalizing seen with
  | nil => simp [firstOfName]
  | cons i is ih =>
    rw [firstOfName]
    split_ifs
    · exact ih seen
    · refine List.nodup_cons.2 ⟨fun hmem => ?_, ih _⟩
      obtain ⟨j, hj, hname⟩ := List.mem_map.1 hmem
      exact (mem_firstOfName_iff.1 hj).1 (hname ▸ List.mem_cons_self)

def standaloneColumns (t : Table) : List (List String) :=
  (t.indexes.filter (·.kind != .unique)).map (·.fields) ++ (indexedColumns t).map ([·])

theorem exists_standaloneIndexes_eq (o : Options) (t : Table) :
    ∃ is, standaloneIndexes o t = firstOfName [] is ∧ is.map (·.columns) = standaloneColumns t ∧
      ∀ i ∈ is, i.table = t.name ∧ i.name = t.name ++ "_" ++ "_".intercalate i.columns := by
  refine ⟨_, rfl, ?_, fun i hi => ?_⟩
  · simp only [standaloneColumns, List.map_append, List.map_map]
    rfl
  · rcases List.mem_append.1 hi with hi | hi <;>
      obtain ⟨_, -, rfl⟩ := List.mem_map.1 hi <;> exact ⟨rfl, rfl⟩

theorem table_of_mem_standaloneIndexes (h : i ∈ standaloneIndexes o t) : i.table = t.name := by
  obtain ⟨is, heq, -, hnames⟩ := exists_standaloneIndexes_eq o t
  rw [heq, mem_firstOfName_iff] at h
  exact (hnames i (List.mem_of_find?_eq_some h.2)).1

theorem exists_mem_standaloneIndexes_iff :
    (∃ i ∈ standaloneIndexes o t, i.columns = columns) ↔ (standaloneColumns t).find?
      (fun other => "_".intercalate other = "_".intercalate columns) = some columns := by
  obtain ⟨is, heq, hcolumns, hnames⟩ := exists_standaloneIndexes_eq o t
  have hname (i : CreateIndex) (hi : i ∈ is) (columns : List String) :
      i.name = t.name ++ "_" ++ "_".intercalate columns ↔
        "_".intercalate i.columns = "_".intercalate columns := by
    rw [(hnames i hi).2, String.append_right_inj]
  have hfind (columns : List String) : (standaloneColumns t).find?
        (fun other => "_".intercalate other = "_".intercalate columns) =
      (is.find? (·.name = t.name ++ "_" ++ "_".intercalate columns)).map (·.columns) := by
    rw [← hcolumns, List.find?_map]
    refine congrArg _ (List.find?_congr fun i hi => ?_)
    simp only [Function.comp_apply, hname i hi]
  simp only [heq, mem_firstOfName_iff, List.not_mem_nil, not_false_eq_true, true_and, hfind,
    Option.map_eq_some_iff]
  constructor
  · rintro ⟨i, hi, rfl⟩
    rw [(hnames i (List.mem_of_find?_eq_some hi)).2] at hi
    exact ⟨i, hi, rfl⟩
  · rintro ⟨i, hi, rfl⟩
    refine ⟨i, ?_, rfl⟩
    rwa [(hnames i (List.mem_of_find?_eq_some hi)).2]

theorem mem_names_standaloneIndexes_iff {name : String} :
    name ∈ (standaloneIndexes o t).map (·.name) ↔
      ∃ columns ∈ standaloneColumns t, name = t.name ++ "_" ++ "_".intercalate columns := by
  obtain ⟨is, heq, hcolumns, hnames⟩ := exists_standaloneIndexes_eq o t
  rw [heq, ← hcolumns]
  constructor
  · intro h
    obtain ⟨i, hi, rfl⟩ := List.mem_map.1 h
    have hmem := List.mem_of_find?_eq_some (mem_firstOfName_iff.1 hi).2
    exact ⟨i.columns, List.mem_map_of_mem hmem, (hnames i hmem).2⟩
  · rintro ⟨_, hmem, rfl⟩
    obtain ⟨i, hi, rfl⟩ := List.mem_map.1 hmem
    rw [← (hnames i hi).2]
    -- the index that is kept may be another one of the name
    have hfound : (is.find? (·.name = i.name)).isSome :=
      List.find?_isSome.2 ⟨i, hi, decide_eq_true rfl⟩
    obtain ⟨j, hj⟩ := Option.isSome_iff_exists.1 hfound
    have hname : j.name = i.name := by simpa using List.find?_some hj
    refine List.mem_map.2 ⟨j, mem_firstOfName_iff.2 ⟨by simp, ?_⟩, hname⟩
    rwa [hname]

end SqlTables.Creation
