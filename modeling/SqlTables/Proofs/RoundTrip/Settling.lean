import SqlTables.Proofs.RoundTrip.Listing

/-! Settling what was read of a script. The primary key flags its columns again, the keys of unique
columns become flags, and the other indexes stay. -/

namespace SqlTables

open Declaration

variable {t : Table} {o : Options}

def drafted (o : Options) (t : Table) : Draft where
  table := {
    t.written o with
    fields := t.fields.map fun f => (f.written o).unkeyed
    indexes := Creation.inlineKeys t }
  primaryKey := keyColumns t

theorem foldl_add_columns_written (h : t.Plain) (d : Draft) :
    (t.fields.map fun f => Clause.column (f.written o).column).foldl Draft.add d =
      { d with
        table := {
          d.table with
          fields := d.table.fields ++ t.fields.map fun f => (f.written o).unkeyed } } := by
  have hfields : t.fields.map (fun f => (f.written o).column.field) =
      t.fields.map fun f => (f.written o).unkeyed :=
    List.map_congr_left fun f hf => field_column ((h.fields f hf).written o)
  have hkeys : ∀ c ∈ t.fields.map (fun f => (f.written o).column), ∀ table,
      c.foreignKeys table = [] ∧ c.checks = [] := by
    intro c hc
    obtain ⟨f, -, rfl⟩ := List.mem_map.1 hc
    exact keys_column (f.written o)
  have hcolumns := Draft.foldl_add_columns hkeys d
  simp only [List.map_map, Function.comp_def, hfields] at hcolumns
  exact hcolumns

theorem ofClauses_tableLines (ho : o.dialect = .mysql) (h : t.Plain) :
    Draft.ofClauses t.name ((tableLines o t).map (·.2))
      ((Creation.tableOptions o t).map settingOf) = drafted o t := by
  have hclauses : ((tableLines o t).map (·.2)).foldl Draft.add { table := { name := t.name } } =
      { table := {
          name := t.name
          fields := t.fields.map fun f => (f.written o).unkeyed
          indexes := Creation.inlineKeys t
          foreignKeys := t.foreignKeys
          checks := t.checks }
        primaryKey := keyColumns t } := by
    simp only [tableLines, List.map_append, List.foldl_append, List.map_map, Function.comp_def,
      foldl_add_columns_written h, foldl_add_primaryKeyLines, Draft.foldl_add_indexes,
      Draft.foldl_add_foreignKeys, Draft.foldl_add_checks, Option.getD_some, List.map_id',
      List.nil_append]
  rw [Draft.ofClauses, hclauses, tableOptions_eq ho, applyAll_settingOptions]
  rfl

theorem drafted_eq (h : t.Plain) : drafted o t = (t.written o).unsettled (uniqueKeys t) := by
  have hfields : t.fields.map (fun f => (f.written o).unkeyed) =
      (t.written o).fields.map Field.unkeyed := by
    change _ = (t.fields.map (Field.written o)).map Field.unkeyed
    rw [List.map_map]
    rfl
  have hkeys : keyColumns t = keyColumns (t.written o) := by
    change ((t.fields.filter _).map _) = ((t.fields.map _).filter _).map _
    rw [List.filter_map, List.map_map]
    rfl
  rw [drafted, inlineKeys_of_plain h, hfields, hkeys]
  rfl

theorem settled_written (h : t.Plain) (o : Options) : (t.written o).Settled := by
  have hnames : (t.written o).fieldNames = t.fieldNames :=
    map_name_map (Field.written o) (fun _ => rfl) t.fields
  refine ⟨?_, ?_, fun i hi => ?_⟩
  · rw [Table.validate, Table.fault?_congr hnames rfl rfl, Table.fault?_of_validate h.valid]
  · intro g hg
    obtain ⟨f, hf, rfl⟩ := List.mem_map.1 hg
    exact (h.fields f hf).unique
  · rw [Table.folds, List.any_eq_false]
    intro g hg hfold
    obtain ⟨f, hf, rfl⟩ := List.mem_map.1 hg
    rw [Bool.and_eq_true, Bool.not_eq_true'] at hfold
    -- a unique key of one column is on the primary key
    obtain ⟨k, hk, hname, hkey⟩ := h.uniqueKeys i hi f.name hfold.2
    rw [eq_of_name_eq (Table.nodup_fieldNames_of_validate h.valid) hk hf hname] at hkey
    exact absurd (hfold.1.symm.trans hkey) (by simp)

theorem flagKeys_uniqueKeys (h : t.Plain) (o : Options) :
    (t.written o).FlagKeys (uniqueKeys t) := by
  refine ⟨List.Nodup.of_map _ nodup_columnKeys.1, fun i hi => ?_, fun g hg hunique => ?_⟩
  · obtain ⟨column, hc, hkind, hfields⟩ := mem_columnKeys hi
    obtain ⟨f, hf, hunique, -, rfl⟩ := mem_uniqueColumns.1 hc
    exact ⟨f.written o, List.mem_map_of_mem hf, hunique, isUniqueOn_iff.2 ⟨hkind, hfields⟩⟩
  · obtain ⟨f, hf, rfl⟩ := List.mem_map.1 hg
    obtain ⟨i, hi, hfields⟩ := List.mem_map.1 ((mem_fields_uniqueKeys h hf).2 hunique)
    obtain ⟨_, -, hkind, -⟩ := mem_columnKeys hi
    exact ⟨i, hi, isUniqueOn_iff.2 ⟨hkind, hfields⟩⟩

theorem settle_drafted (h : t.Plain) : (drafted o t).settle = .ok (t.written o) := by
  have hnames : ∀ i ∈ uniqueKeys t ++ t.indexes, ∀ j ∈ uniqueKeys t ++ t.indexes,
      j.name = i.name → j = i := by
    rw [← inlineKeys_of_plain h]
    intro i hi j hj hname
    exact List.inj_on_of_nodup_map (nodup_inlineKeys h.valid) hj hi hname
  rw [drafted_eq h]
  exact (settle_unsettled_eq_ok_iff (settled_written h o) (flagKeys_uniqueKeys h o)).2 ⟨hnames, rfl⟩

end SqlTables
