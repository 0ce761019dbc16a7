import SqlTables.Proofs.PrimaryKeyOrder

/-! Where a primary key is declared. A definition states it once: by a clause, or in SQLite with its
only column. Columns count by themselves in the primary key only, and in each dialect by its own
words. -/

namespace SqlTables

variable {t : Table} {f g : Field} {o : Options}

namespace Script

def Statement.createTable? : Statement → Option CreateTable
  | .createTable create => some create
  | _ => none

def serialTypes : List String := ["SMALLSERIAL", "SERIAL", "BIGSERIAL"]

namespace ColumnDefinition

def declaresKey (k : ColumnDefinition) : Bool := k.options.contains .primaryKeyAutoIncrement

def Counts (k : ColumnDefinition) (type : ColumnType) : Prop :=
  .autoIncrement ∈ k.options ∨ .primaryKeyAutoIncrement ∈ k.options ∨
    type.isInteger = true ∧ k.type ∈ serialTypes

end ColumnDefinition

/-- A definition declares the primary key nowhere, by one clause, or with the only key column. -/
inductive CreateTable.DeclaresKey (create : CreateTable) (d : Dialect) (t : Table) : Prop where
  | absent (key : t.primaryKeyFields = [])
      (clauses : create.constraints.filterMap Constraint.primaryKey? = [])
      (columns : create.columns.filter (·.declaresKey) = [])
  | clause (key : t.primaryKeyFields ≠ [])
      (clauses : create.constraints.filterMap Constraint.primaryKey? = [keyColumns t])
      (columns : create.columns.filter (·.declaresKey) = [])
  | column (f : Field) (k : ColumnDefinition) (dialect : d = .sqlite)
      (key : t.primaryKeyFields = [f])
      (clauses : create.constraints.filterMap Constraint.primaryKey? = [])
      (columns : create.columns.filter (·.declaresKey) = [k]) (name : k.name = f.name)
      (options : k.options = [.primaryKeyAutoIncrement])

end Script

theorem ColumnType.isInteger_iff {type : ColumnType} : type.isInteger = true ↔
    type = .tinyInt ∨ type = .smallInt ∨ type = .mediumInt ∨ type = .int ∨ type = .bigInt := by
  cases type <;> simp [isInteger]

namespace Dialect

theorem exists_withSizes_eq (name : String) (n s : Option UInt32) :
    ∃ rest, withSizes name n s = name ++ rest := by
  unfold withSizes sized
  split
  · exact ⟨_, by simp only [String.append_assoc]; rfl⟩
  · exact ⟨_, by simp only [String.append_assoc]; rfl⟩
  · exact ⟨"", by simp⟩

theorem exists_mysqlType_eq (h : f.type.isInteger = true) (nativeJson : Bool) :
    ∃ rest, mysqlType nativeJson f = f.type.name ++ rest := by
  have hparameters : mysqlBaseType nativeJson f = withParameters f.type.name f := by
    rcases ColumnType.isInteger_iff.1 h with ht | ht | ht | ht | ht <;> rw [mysqlBaseType, ht]
  obtain ⟨rest, hbase⟩ := exists_withSizes_eq f.type.name
    (if f.type.isDecimal then f.effectivePrecision else f.length) f.scale
  rw [mysqlType, hparameters, withParameters, hbase]
  exact ⟨_, by simp only [String.append_assoc]; rfl⟩

theorem mysqlType_not_mem_serialTypes (h : f.type.isInteger = true) (nativeJson : Bool) :
    mysqlType nativeJson f ∉ Script.serialTypes := by
  have hnames : ∀ s ∈ Script.serialTypes, ¬f.type.name.toList <+: s.toList := by
    rcases ColumnType.isInteger_iff.1 h with ht | ht | ht | ht | ht <;> rw [ht] <;> decide
  intro hmem
  obtain ⟨rest, hrest⟩ := exists_mysqlType_eq h nativeJson
  refine hnames _ hmem ?_
  rw [hrest, String.toList_append]
  exact List.prefix_append ..

theorem postgresqlType_mem_serialTypes_iff (h : f.type.isInteger = true) :
    postgresqlType f ∈ Script.serialTypes ↔ f.autoIncrement = true := by
  rcases ColumnType.isInteger_iff.1 h with ht | ht | ht | ht | ht
  all_goals
    simp only [postgresqlType, ht]
    cases f.autoIncrement <;> decide

theorem sqliteType_not_mem_serialTypes (h : f.type.isInteger = true) :
    sqliteType f ∉ Script.serialTypes := by
  have hinteger : sqliteType f = "INTEGER" := by
    rcases ColumnType.isInteger_iff.1 h with ht | ht | ht | ht | ht <;> rw [sqliteType, ht]
  rw [hinteger]
  decide

theorem physicalType_mem_serialTypes_iff (h : f.type.isInteger = true) (d : Dialect)
    (nativeJson : Bool) : d.physicalType nativeJson f ∈ Script.serialTypes ↔
      d = .postgresql ∧ f.autoIncrement = true := by
  cases d with
  | mysql => simp [physicalType, mysqlType_not_mem_serialTypes h]
  | postgresql => simp [physicalType, postgresqlType_mem_serialTypes_iff h]
  | sqlite => simp [physicalType, sqliteType_not_mem_serialTypes h]

end Dialect

namespace Table

theorem solePrimaryKey?_eq_some_iff : t.solePrimaryKey? = some f ↔ t.primaryKeyFields = [f] := by
  unfold solePrimaryKey?
  split
  · rename_i hkey
    simp [hkey]
  · rename_i hkey
    simp only [reduceCtorEq, false_iff]
    exact hkey f

theorem eq_of_primaryKeyFields (h : t.primaryKeyFields = [g]) (hf : f ∈ t.fields)
    (hkey : f.inPrimaryKey = true) : f = g := by
  rw [← List.mem_singleton, ← h]
  exact List.mem_filter.2 ⟨hf, hkey⟩

end Table

namespace Creation

open Script (ColumnOption)
open Script.Statement (createTable?)

theorem inlinesPrimaryKey_iff : inlinesPrimaryKey o t = true ↔ o.dialect = .sqlite ∧
    o.includeAutoIncrement = true ∧
      ∃ f, t.primaryKeyFields = [f] ∧ f.autoIncrement = true ∧ f.type.isInteger = true := by
  simp [inlinesPrimaryKey, Option.any_eq_true, Table.solePrimaryKey?_eq_some_iff, and_assoc]

theorem autoIncrement_effectiveField_iff : (effectiveField o f).autoIncrement = true ↔
    f.inPrimaryKey = true ∧ f.autoIncrement = true ∧ o.includeAutoIncrement = true := by
  simp only [effectiveField, Bool.and_eq_true]
  tauto

theorem autoIncrement_mem_columnOptions_iff : ColumnOption.autoIncrement ∈ columnOptions o t f ↔
    o.dialect = .mysql ∧ f.autoIncrement = true := by
  unfold columnOptions
  cases o.dialect <;> cases f.autoIncrement <;> simp

theorem columnOptions_sqlite (hd : o.dialect = .sqlite) : columnOptions o t f =
    if f.autoIncrement && inlinesPrimaryKey o t then [.primaryKeyAutoIncrement] else [] := by
  simp only [columnOptions, hd]

theorem primaryKeyAutoIncrement_mem_columnOptions_iff :
    ColumnOption.primaryKeyAutoIncrement ∈ columnOptions o t f ↔
      f.autoIncrement = true ∧ inlinesPrimaryKey o t = true := by
  cases hd : o.dialect with
  | sqlite => simp [columnOptions_sqlite hd]
  | mysql | postgresql =>
    have hinlines : inlinesPrimaryKey o t = false := by simp [inlinesPrimaryKey, hd]
    simp [columnOptions, hd, hinlines]

theorem declaresKey_columnDefinition_iff (hf : f ∈ t.fields) :
    (columnDefinition o t f).declaresKey = true ↔
      f.inPrimaryKey = true ∧ inlinesPrimaryKey o t = true := by
  have hmem : (columnDefinition o t f).declaresKey = true ↔
      ColumnOption.primaryKeyAutoIncrement ∈ columnOptions o t (effectiveField o f) := by
    rw [Script.ColumnDefinition.declaresKey, List.contains_iff_mem]
    rfl
  rw [hmem, primaryKeyAutoIncrement_mem_columnOptions_iff, autoIncrement_effectiveField_iff]
  refine and_congr_left fun hinlines => and_iff_left_of_imp fun hkey => ?_
  obtain ⟨-, hincluded, g, hsole, hcounts, -⟩ := inlinesPrimaryKey_iff.1 hinlines
  rw [Table.eq_of_primaryKeyFields hsole hf hkey]
  exact ⟨hcounts, hincluded⟩

theorem filter_declaresKey_columns (o : Options) (t : Table) :
    (createTable o t).columns.filter (·.declaresKey) =
      if inlinesPrimaryKey o t then t.primaryKeyFields.map (columnDefinition o t) else [] := by
  have hcolumns : (createTable o t).columns.filter (·.declaresKey) =
      (t.fields.filter fun f => f.inPrimaryKey && inlinesPrimaryKey o t).map
        (columnDefinition o t) := by
    change (t.fields.map _).filter _ = _
    rw [List.filter_map]
    congr 1
    refine List.filter_congr fun f hf => ?_
    rw [Bool.eq_iff_iff, Bool.and_eq_true]
    exact declaresKey_columnDefinition_iff hf
  rw [hcolumns]
  cases inlinesPrimaryKey o t <;> simp [Table.primaryKeyFields]

theorem counts_columnDefinition_iff (hf : f ∈ t.fields) :
    (columnDefinition o t f).Counts f.type ↔
      f.inPrimaryKey = true ∧ f.autoIncrement = true ∧ o.includeAutoIncrement = true ∧
        (o.dialect = .mysql ∨
          f.type.isInteger = true ∧ (o.dialect = .sqlite → t.primaryKeyFields = [f])) := by
  have hmarks : (columnDefinition o t f).Counts f.type ↔
      (o.dialect = .mysql ∧ (effectiveField o f).autoIncrement = true) ∨
        ((effectiveField o f).autoIncrement = true ∧ inlinesPrimaryKey o t = true) ∨
          f.type.isInteger = true ∧ o.dialect = .postgresql ∧
            (effectiveField o f).autoIncrement = true :=
    or_congr autoIncrement_mem_columnOptions_iff <|
      or_congr primaryKeyAutoIncrement_mem_columnOptions_iff <|
        and_congr_right fun hinteger =>
          Dialect.physicalType_mem_serialTypes_iff (f := effectiveField o f) hinteger ..
  rw [hmarks, autoIncrement_effectiveField_iff, inlinesPrimaryKey_iff]
  cases hd : o.dialect with
  | mysql => simp
  | postgresql =>
    simp only [reduceCtorEq, false_and, and_false, false_or, true_and, false_implies, and_true]
    tauto
  | sqlite =>
    simp only [reduceCtorEq, false_and, and_false, or_false, false_or, true_and, true_implies]
    constructor
    · rintro ⟨⟨hkey, hcounts, hincluded⟩, -, g, hsole, -, hinteger⟩
      obtain rfl := Table.eq_of_primaryKeyFields hsole hf hkey
      exact ⟨hkey, hcounts, hincluded, hinteger, hsole⟩
    · rintro ⟨hkey, hcounts, hincluded, hinteger, hsole⟩
      exact ⟨⟨hkey, hcounts, hincluded⟩, hincluded, f, hsole, hcounts, hinteger⟩

theorem filterMap_createTable?_statements (o : Options) (t : Table) :
    (statements o t).filterMap createTable? = [createTable o t] := by
  have hheading : (heading o t).filterMap createTable? = [] := by
    unfold heading
    split_ifs <;> rfl
  have hdrop (p : Prop) [Decidable p] :
      (if p then [Script.Statement.dropTable t.name true] else []).filterMap createTable? = [] := by
    split_ifs <;> rfl
  have hindexes : ((keyPlan o t).indexes.map Script.Statement.createIndex).filterMap
      createTable? = [] := by
    simp [createTable?]
  have hcomments : (commentStatements o t).filterMap createTable? = [] := by
    unfold commentStatements
    split_ifs
    · rw [List.filterMap_eq_nil_iff]
      simp only [List.mem_append, List.mem_map, List.mem_flatMap]
      rintro _ (⟨_, -, rfl⟩ | ⟨_, -, _, -, rfl⟩) <;> rfl
    · rfl
  rw [statements, List.filterMap_append, List.filterMap_append, List.filterMap_append,
    List.filterMap_append, hheading, hdrop, hindexes, hcomments]
  rfl

theorem declaresKey_createTable (o : Options) (t : Table) :
    (createTable o t).DeclaresKey o.dialect t := by
  have hcolumns := filter_declaresKey_columns o t
  have hclauses : (createTable o t).constraints.filterMap Script.Constraint.primaryKey? = _ :=
    primaryKey?_constraints o t
  cases hinlines : inlinesPrimaryKey o t with
  | true =>
    obtain ⟨hd, hincluded, f, hkey, hcounts, -⟩ := inlinesPrimaryKey_iff.1 hinlines
    rw [hinlines, if_pos rfl, hkey] at hcolumns
    rw [primaryKey, hinlines, Bool.or_true, if_pos rfl] at hclauses
    refine .column f (columnDefinition o t f) hd hkey hclauses hcolumns rfl ?_
    have hf : f ∈ t.primaryKeyFields := by simp [hkey]
    have heffective : (effectiveField o f).autoIncrement = true :=
      autoIncrement_effectiveField_iff.2 ⟨(List.mem_filter.1 hf).2, hcounts, hincluded⟩
    change columnOptions o t (effectiveField o f) = _
    rw [columnOptions_sqlite hd, heffective, hinlines]
    rfl
  | false =>
    rw [hinlines, if_neg Bool.false_ne_true] at hcolumns
    rw [primaryKey, hinlines, Bool.or_false] at hclauses
    by_cases hkey : t.primaryKeyFields = []
    · rw [hkey] at hclauses
      exact .absent hkey hclauses hcolumns
    · rw [List.isEmpty_eq_false_iff.2 hkey] at hclauses
      exact .clause hkey hclauses hcolumns

/-- The primary key is declared once, and what counts by itself is in it. -/
theorem exists_declaresKey_statements (o : Options) (t : Table) : ∃ create,
    (statements o t).filterMap createTable? = [create] ∧ create.DeclaresKey o.dialect t ∧
      List.Forall₂ (fun f k => k.name = f.name ∧
        (k.Counts f.type ↔ f.inPrimaryKey = true ∧ f.autoIncrement = true ∧
          o.includeAutoIncrement = true ∧ (o.dialect = .mysql ∨
            f.type.isInteger = true ∧ (o.dialect = .sqlite → t.primaryKeyFields = [f]))))
        t.fields create.columns := by
  refine ⟨createTable o t, filterMap_createTable?_statements o t, declaresKey_createTable o t, ?_⟩
  change List.Forall₂ _ t.fields (t.fields.map (columnDefinition o t))
  rw [List.forall₂_map_right_iff, List.forall₂_same]
  exact fun f hf => ⟨rfl, counts_columnDefinition_iff hf⟩

end Creation

end SqlTables
