import SqlTables.Creation.Keys
import SqlTables.Proofs.RoundTrip.Plain
import SqlTables.Proofs.Schema.Validity

/-! The keys that a MySQL table lists: one for each unique column, then the indexes. -/

namespace SqlTables

open Creation (columnKeys inlineKeys uniqueColumns)

variable {kind : IndexKind} {stem : String} {taken columns : List String} {t : Table}

theorem mem_columnKeys {i : Index} (h : i ∈ columnKeys kind stem taken columns) :
    ∃ column ∈ columns, i.kind = kind ∧ i.fields = [column] := by
  induction columns generalizing taken with
  | nil => simp [columnKeys] at h
  | cons column columns ih =>
    rcases List.mem_cons.1 h with rfl | h
    · exact ⟨column, by simp, rfl, rfl⟩
    · obtain ⟨c, hc, hi⟩ := ih h
      exact ⟨c, List.mem_cons_of_mem _ hc, hi⟩

theorem exists_mem_columnKeys {column : String} (h : column ∈ columns) :
    ∃ i ∈ columnKeys kind stem taken columns, i.fields = [column] := by
  induction columns generalizing taken with
  | nil => simp at h
  | cons c columns ih =>
    rw [columnKeys]
    rcases List.mem_cons.1 h with rfl | h
    · exact ⟨_, List.mem_cons_self .., rfl⟩
    · obtain ⟨i, hi, hf⟩ := @ih (freshName taken (stem ++ c) :: taken) h
      exact ⟨i, List.mem_cons_of_mem _ hi, hf⟩

theorem nodup_columnKeys :
    ((columnKeys kind stem taken columns).map (·.name)).Nodup ∧
      ∀ i ∈ columnKeys kind stem taken columns, i.name ∉ taken := by
  induction columns generalizing taken with
  | nil => simp [columnKeys]
  | cons column columns ih =>
    obtain ⟨hnodup, hfresh⟩ := @ih (freshName taken (stem ++ column) :: taken)
    have hname := freshName_not_mem taken (stem ++ column)
    rw [columnKeys, List.map_cons, List.nodup_cons, List.forall_mem_cons]
    refine ⟨⟨?_, hnodup⟩, hname, fun i hi hm => hfresh i hi (List.mem_cons_of_mem _ hm)⟩
    intro hm
    obtain ⟨i, hi, he⟩ := List.mem_map.1 hm
    exact hfresh i hi (he ▸ List.mem_cons_self ..)

def uniqueKeys (t : Table) : List Index :=
  columnKeys .unique "uk_" (t.indexes.map (·.name)) (uniqueColumns t)

theorem mem_uniqueColumns {column : String} :
    column ∈ uniqueColumns t ↔
      ∃ f ∈ t.fields, f.unique = true ∧ f.inPrimaryKey = false ∧ f.name = column := by
  simp [uniqueColumns, and_assoc]

theorem mem_fields_uniqueKeys (h : t.Plain) {f : Field} (hf : f ∈ t.fields) :
    [f.name] ∈ (uniqueKeys t).map (·.fields) ↔ f.unique = true := by
  have hnodup := Table.nodup_fieldNames_of_validate h.valid
  rw [List.mem_map]
  constructor
  · rintro ⟨i, hi, hfields⟩
    obtain ⟨column, hc, _, hcolumn⟩ := mem_columnKeys hi
    rw [hcolumn, List.cons.injEq] at hfields
    obtain ⟨g, hg, hunique, _, hname⟩ := mem_uniqueColumns.1 hc
    rw [← eq_of_name_eq hnodup hg hf (hname.trans hfields.1)]
    exact hunique
  · intro hunique
    have hkey : f.inPrimaryKey = false := by
      by_contra hk
      rw [(h.fields f hf).unique (by simpa using hk)] at hunique
      exact absurd hunique (by simp)
    exact exists_mem_columnKeys (mem_uniqueColumns.2 ⟨f, hf, hunique, hkey, rfl⟩)

theorem inlineKeys_of_plain (h : t.Plain) : inlineKeys t = uniqueKeys t ++ t.indexes := by
  have hnodup := Table.nodup_fieldNames_of_validate h.valid
  have hindexed : Creation.indexedColumns t = [] := by
    rw [Creation.indexedColumns, List.map_eq_nil_iff, List.filter_eq_nil_iff]
    intro f hf
    simp [(h.fields f hf).indexed]
  have hundeclared (column : String) (hc : column ∈ uniqueColumns t) :
      Creation.declaresKey t .unique column = false := by
    obtain ⟨f, hf, hunique, hkey, rfl⟩ := mem_uniqueColumns.1 hc
    rw [Creation.declaresKey, List.any_eq_false]
    intro i hi hdeclared
    -- a unique key that the table declares is on the primary key, and `f` is not of it
    obtain ⟨g, hg, hname, hprimary⟩ := h.uniqueKeys i hi f.name hdeclared
    rw [eq_of_name_eq hnodup hg hf hname, hkey] at hprimary
    exact absurd hprimary (by simp)
  have hfilter : (uniqueColumns t).filter (!Creation.declaresKey t .unique ·) =
      uniqueColumns t := by
    rw [List.filter_eq_self]
    intro column hc
    simp [hundeclared column hc]
  simp [inlineKeys, hindexed, hfilter, uniqueKeys, columnKeys]

theorem fields_ne_nil_of_mem_inlineKeys (h : t.Plain) {i : Index} (hi : i ∈ inlineKeys t) :
    i.fields ≠ [] := by
  rw [inlineKeys_of_plain h] at hi
  rcases List.mem_append.1 hi with hi | hi
  · obtain ⟨column, _, _, hfields⟩ := mem_columnKeys hi
    simp [hfields]
  · exact h.indexes i hi

theorem nodup_inlineKeys (hv : t.validate = .ok ()) : ((inlineKeys t).map (·.name)).Nodup := by
  have hnames := Table.nodup_indexNames_of_validate hv
  rw [inlineKeys, List.map_append, List.map_append, List.nodup_append, List.nodup_append]
  refine ⟨⟨nodup_columnKeys.1, hnames, ?_⟩, nodup_columnKeys.1, ?_⟩
  · rintro a ha b hb rfl
    obtain ⟨i, hi, rfl⟩ := List.mem_map.1 ha
    exact nodup_columnKeys.2 i hi hb
  · rintro a ha b hb rfl
    obtain ⟨i, hi, rfl⟩ := List.mem_map.1 hb
    exact nodup_columnKeys.2 i hi ha

end SqlTables
