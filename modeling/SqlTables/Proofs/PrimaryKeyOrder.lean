import SqlTables.Creation.Script
import SqlTables.Proofs.Schema.Parsed

/-! The order of a primary key. A clause that lists its columns leaves a flag on each of them, so
the key that is written has the same columns, but in the order in which the table declares them. -/

namespace SqlTables

open Declaration

variable {t : Table} {d : Draft} {o : Options} {columns : List String}

namespace Declaration

def columnNames (cs : List Clause) : List String := (cs.filterMap Clause.column?).map (·.name)

structure Column.Unkeyed (c : Column) : Prop where
  primaryKey : .primaryKey ∉ c.attributes
  autoIncrement : .autoIncrement ∉ c.attributes
  serial : c.type.serial = false

/-- Whether one clause, and no column, declares the primary key, which is over the columns. -/
structure DeclareKey (cs : List Clause) (columns : List String) : Prop where
  key : cs.filterMap Clause.primaryKey? = [columns]
  nodup : columns.Nodup
  unkeyed : ∀ c ∈ cs.filterMap Clause.column?, c.Unkeyed

theorem name_field (c : Column) : c.field.name = c.name :=
  get_foldl_apply (·.name) (fun a _ _ => by cases a <;> rfl) c.bareField

theorem Column.Unkeyed.inPrimaryKey_field {c : Column} (h : c.Unkeyed) :
    c.field.inPrimaryKey = false := by
  refine get_foldl_apply (·.inPrimaryKey) (fun a ha f => ?_) c.bareField
  cases a with
  | primaryKey => exact absurd ha h.primaryKey
  | _ => rfl

theorem Column.Unkeyed.autoIncrement_field {c : Column} (h : c.Unkeyed) :
    c.field.autoIncrement = false := by
  refine (get_foldl_apply (·.autoIncrement) (fun a ha f => ?_) c.bareField).trans h.serial
  cases a with
  | autoIncrement => exact absurd ha h.autoIncrement
  | _ => rfl

end Declaration

namespace Draft

theorem fieldNames_ofClauses (name : String) (cs : List Clause) (settings : List Setting) :
    (ofClauses name cs settings).table.fieldNames = columnNames cs := by
  rw [Table.fieldNames, (sums_ofClauses name cs settings).fields, List.map_map, columnNames]
  exact List.map_congr_left fun c _ => name_field c

theorem fieldNames_of_settle (h : d.settle = .ok t) : t.fieldNames = d.table.fieldNames := by
  obtain ⟨_, ht, -⟩ := exists_of_settle h
  rw [Table.fieldNames, ht]
  exact map_name_map d.settledField (fun _ => rfl) d.table.fields

theorem keyColumns_of_settle (h : d.settle = .ok t)
    (hd : ∀ f ∈ d.table.fields, f.inPrimaryKey = false) :
    keyColumns t = d.table.fieldNames.filter (· ∈ d.primaryKey) := by
  obtain ⟨_, ht, -⟩ := exists_of_settle h
  have hflag (f : Field) (hf : f ∈ d.table.fields) :
      ((·.inPrimaryKey) ∘ d.settledField) f = decide (f.name ∈ d.primaryKey) := by
    change d.isKey f = _
    rw [isKey, hd f hf, Bool.false_or]
  rw [keyColumns, Table.primaryKeyFields, ht, Table.fieldNames, List.filter_map, List.filter_map,
    List.map_map, List.filter_congr hflag]
  rfl

section

variable {name : String} {cs : List Clause} {settings : List Setting}
  (h : (ofClauses name cs settings).settle = .ok t)

include h

theorem fieldNames_of_settle_ofClauses : t.fieldNames = columnNames cs := by
  rw [fieldNames_of_settle h, fieldNames_ofClauses]

theorem nodup_columnNames_of_settle : (columnNames cs).Nodup := by
  rw [← fieldNames_ofClauses name cs settings]
  exact nodup_of_settle h

variable (hk : DeclareKey cs columns)

include hk

theorem mem_columnNames_of_settle : ∀ column ∈ columns, column ∈ columnNames cs := by
  have hcolumns := ((settle_eq_ok_iff_of_nodup (nodup_of_settle h)).1 h).1
  rwa [fieldNames_ofClauses, (sums_ofClauses name cs settings).primaryKey, hk.key,
    List.flatten_singleton] at hcolumns

theorem keyColumns_of_settle_ofClauses :
    keyColumns t = (columnNames cs).filter (· ∈ columns) := by
  have hunkeyed : ∀ f ∈ (ofClauses name cs settings).table.fields, f.inPrimaryKey = false := by
    rw [(sums_ofClauses name cs settings).fields]
    intro f hf
    obtain ⟨c, hc, rfl⟩ := List.mem_map.1 hf
    exact (hk.unkeyed c hc).inPrimaryKey_field
  rw [keyColumns_of_settle h hunkeyed, fieldNames_ofClauses,
    (sums_ofClauses name cs settings).primaryKey, hk.key, List.flatten_singleton]

theorem autoIncrement_of_settle : ∀ f ∈ t.fields, f.autoIncrement = false := by
  obtain ⟨_, ht, -⟩ := exists_of_settle h
  rw [ht]
  intro f hf
  obtain ⟨g, hg, rfl⟩ := List.mem_map.1 hf
  rw [(sums_ofClauses name cs settings).fields] at hg
  obtain ⟨c, hc, rfl⟩ := List.mem_map.1 hg
  exact (hk.unkeyed c hc).autoIncrement_field

end

end Draft

theorem perm_filter_of_subset {names : List String} (hn : names.Nodup) (hc : columns.Nodup)
    (h : ∀ column ∈ columns, column ∈ names) : (names.filter (· ∈ columns)).Perm columns := by
  refine (List.perm_ext_iff_of_nodup (hn.filter _) hc).2 fun column => ?_
  rw [List.mem_filter, decide_eq_true_eq]
  exact and_iff_right_of_imp (h column)

theorem filter_eq_iff_sublist {names : List String} (hn : names.Nodup) (hc : columns.Nodup)
    (h : ∀ column ∈ columns, column ∈ names) :
    names.filter (· ∈ columns) = columns ↔ columns.Sublist names := by
  constructor
  · intro heq
    rw [← heq]
    exact List.filter_sublist
  · intro hsub
    have hkept : columns.filter (· ∈ columns) = columns :=
      List.filter_eq_self.2 fun column hmem => decide_eq_true hmem
    have hfilter := hsub.filter (· ∈ columns)
    rw [hkept] at hfilter
    exact (hfilter.eq_of_length (perm_filter_of_subset hn hc h).length_eq.symm).symm

namespace Creation

theorem inlinesPrimaryKey_eq_false (h : ∀ f ∈ t.fields, f.autoIncrement = false) (o : Options) :
    inlinesPrimaryKey o t = false := by
  have hsole (f : Field) (hf : t.solePrimaryKey? = some f) : f ∈ t.fields := by
    unfold Table.solePrimaryKey? at hf
    split at hf
    · rename_i hkey
      cases hf
      have hmem : f ∈ t.primaryKeyFields := by simp [hkey]
      exact (List.mem_filter.1 hmem).1
    · cases hf
  cases hs : t.solePrimaryKey? with
  | none => simp [inlinesPrimaryKey, hs]
  | some f => simp [inlinesPrimaryKey, hs, h f (hsole f hs)]

theorem primaryKey_of_autoIncrement (h : ∀ f ∈ t.fields, f.autoIncrement = false)
    (hkeys : keyColumns t ≠ []) (o : Options) :
    primaryKey o t = [.primaryKey (keyColumns t)] := by
  have hfields : t.primaryKeyFields.isEmpty = false := by
    rw [List.isEmpty_eq_false_iff]
    exact fun hnil => hkeys (by rw [keyColumns, hnil, List.map_nil])
  rw [primaryKey, hfields, inlinesPrimaryKey_eq_false h]
  rfl

end Creation

def Script.Constraint.primaryKey? : Script.Constraint → Option (List String)
  | .primaryKey columns => some columns
  | _ => none

namespace Creation

open Script.Constraint (primaryKey?)

theorem primaryKey?_keyPlan (o : Options) (t : Table) :
    (keyPlan o t).constraints.filterMap primaryKey? = [] := by
  rw [List.filterMap_eq_nil_iff]
  intro c hc
  unfold keyPlan at hc
  split at hc
  · obtain ⟨_, -, rfl⟩ := List.mem_map.1 hc
    rfl
  · rcases List.mem_append.1 hc with hc | hc <;> obtain ⟨_, -, rfl⟩ := List.mem_map.1 hc <;> rfl

theorem primaryKey?_constraints (o : Options) (t : Table) :
    (constraints o t).filterMap primaryKey? = (primaryKey o t).filterMap primaryKey? := by
  have hforeign : (t.foreignKeys.map Script.Constraint.foreignKey).filterMap primaryKey? = [] := by
    simp [List.filterMap_map, Function.comp_def, primaryKey?]
  have hchecks : (t.checks.map Script.Constraint.check).filterMap primaryKey? = [] := by
    simp [List.filterMap_map, Function.comp_def, primaryKey?]
  rw [constraints, List.filterMap_append, List.filterMap_append, List.filterMap_append,
    primaryKey?_keyPlan, hforeign, hchecks, List.append_nil, List.append_nil, List.append_nil]

theorem createTable_mem_statements_iff {create : Script.CreateTable} :
    .createTable create ∈ statements o t ↔ create = createTable o t := by
  have hheading : Script.Statement.createTable create ∉ heading o t := by
    unfold heading rule
    split_ifs <;> simp
  have hcomments : Script.Statement.createTable create ∉ commentStatements o t := by
    unfold commentStatements
    split_ifs <;> simp
  simp [statements, hheading, hcomments]

end Creation

namespace Table

def clauses (text : String) : Except ParseError (List Clause) :=
  match Token.tokenize (Source.withoutComments text) with
  | .error e => .error (.scan e)
  | .ok ts =>
    match Draft.Definition.read ts with
    | .error e => .error e
    | .ok definition => Draft.clauses definition.items

variable {text : String} {cs : List Clause}

theorem exists_definition_of_clauses (h : clauses text = .ok cs) : ∃ ts definition,
    Token.tokenize (Source.withoutComments text) = .ok ts ∧
      Draft.Definition.read ts = .ok definition ∧ Draft.clauses definition.items = .ok cs := by
  unfold clauses at h
  split at h
  · cases h
  rename_i ts hts
  split at h
  · cases h
  rename_i definition hdefinition
  exact ⟨ts, definition, hts, hdefinition, h⟩

theorem exists_parse_eq_settle (h : clauses text = .ok cs) : ∃ name settings,
    parse text = (Draft.ofClauses name cs settings).settle.mapError .schema := by
  obtain ⟨ts, definition, hts, hdefinition, hclauses⟩ := exists_definition_of_clauses h
  refine ⟨definition.name, Setting.readAll definition.rest, ?_⟩
  simp only [parse, parseStatement, hts, Draft.read, hdefinition, hclauses]

theorem exists_settle_of_parse (h : parse text = .ok t) (hcs : clauses text = .ok cs) :
    ∃ name settings, (Draft.ofClauses name cs settings).settle = .ok t := by
  obtain ⟨name, settings, hparse⟩ := exists_parse_eq_settle hcs
  refine ⟨name, settings, ?_⟩
  rw [h] at hparse
  cases hsettle : (Draft.ofClauses name cs settings).settle with
  | error e =>
    rw [hsettle] at hparse
    cases hparse
  | ok u =>
    rw [hsettle] at hparse
    cases hparse
    rfl

theorem columns_ne_nil_of_declareKey (hcs : clauses text = .ok cs) (hk : DeclareKey cs columns) :
    columns ≠ [] := by
  obtain ⟨ts, definition, -, -, hclauses⟩ := exists_definition_of_clauses hcs
  have hmem : columns ∈ cs.filterMap Clause.primaryKey? := by simp [hk.key]
  obtain ⟨c, hc, hcolumns⟩ := List.mem_filterMap.1 hmem
  obtain ⟨us, hread⟩ := Draft.exists_clause_of_clauses hclauses c hc
  have hlists := Clause.listsColumns_of_read hread
  cases c with
  | primaryKey columns =>
    cases hcolumns
    exact hlists
  | _ => cases hcolumns

/-- A key declared by one clause is written as one constraint over the same columns. They stand in
the order of the table's columns, which is that of the clause only if the clause keeps to it. -/
theorem exists_primaryKey_of_parse (h : parse text = .ok t) (hcs : clauses text = .ok cs)
    (hk : DeclareKey cs columns) (o : Options) : ∃ create keys,
      Creation.single o t = .ok (Script.render o.dialect (Creation.statements o t)) ∧
      .createTable create ∈ Creation.statements o t ∧
      create.columns.map (·.name) = columnNames cs ∧
      create.constraints.filterMap Script.Constraint.primaryKey? = [keys] ∧
      keys.Perm columns ∧ keys.Sublist (columnNames cs) ∧
      (keys = columns ↔ columns.Sublist (columnNames cs)) := by
  obtain ⟨name, settings, hsettle⟩ := exists_settle_of_parse h hcs
  have hn := Draft.nodup_columnNames_of_settle hsettle
  have hfound := Draft.mem_columnNames_of_settle hsettle hk
  have hkeys := Draft.keyColumns_of_settle_ofClauses hsettle hk
  have hperm := perm_filter_of_subset hn hk.nodup hfound
  have hne : keyColumns t ≠ [] := by
    rw [hkeys]
    exact fun hnil => columns_ne_nil_of_declareKey hcs hk (hnil ▸ hperm).nil_eq.symm
  have hcounts := Draft.autoIncrement_of_settle hsettle hk
  refine ⟨Creation.createTable o t, keyColumns t, ?_, Creation.createTable_mem_statements_iff.2 rfl,
    ?_, ?_, ?_⟩
  · rw [Creation.single, validate_of_settle hsettle]
    rfl
  · change (t.fields.map (Creation.columnDefinition o t)).map (·.name) = _
    rw [← Draft.fieldNames_of_settle_ofClauses hsettle, List.map_map]
    rfl
  · change (Creation.constraints o t).filterMap _ = _
    rw [Creation.primaryKey?_constraints, Creation.primaryKey_of_autoIncrement hcounts hne]
    rfl
  · rw [hkeys]
    exact ⟨hperm, List.filter_sublist, filter_eq_iff_sublist hn hk.nodup hfound⟩

def keyedClauses (names columns : List String) : List Clause :=
  names.map (fun name => .column ⟨name, ⟨.int, false, []⟩, []⟩) ++ [.primaryKey columns]

theorem declareKey_keyedClauses (names : List String) (h : columns.Nodup) :
    DeclareKey (keyedClauses names columns) columns where
  key := by simp [keyedClauses, List.filterMap_map, Function.comp_def, Clause.primaryKey?]
  nodup := h
  unkeyed c hc := by
    have hcolumns : (keyedClauses names columns).filterMap Clause.column? =
        names.map fun name => ⟨name, ⟨.int, false, []⟩, []⟩ := by
      simp [keyedClauses, List.filterMap_map, Function.comp_def, Clause.column?]
    rw [hcolumns] at hc
    obtain ⟨_, -, rfl⟩ := List.mem_map.1 hc
    exact ⟨by simp, by simp, rfl⟩

def keyedTable (names columns : List String) : Table where
  name := "t"
  fields := names.map fun name => { name := name, type := .int, inPrimaryKey := name ∈ columns }

theorem exists_primaryKey_of_parse_keyed :
    parse "CREATE TABLE t (a INT, b INT, c INT, PRIMARY KEY (a, c))" =
        .ok (keyedTable ["a", "b", "c"] ["a", "c"]) ∧
      clauses "CREATE TABLE t (a INT, b INT, c INT, PRIMARY KEY (a, c))" =
        .ok (keyedClauses ["a", "b", "c"] ["a", "c"]) ∧
      DeclareKey (keyedClauses ["a", "b", "c"] ["a", "c"]) ["a", "c"] ∧
      ∃ create, .createTable create ∈ Creation.statements { dialect := .sqlite }
          (keyedTable ["a", "b", "c"] ["a", "c"]) ∧
        create.constraints.filterMap Script.Constraint.primaryKey? = [["a", "c"]] := by
  have hparse : parse "CREATE TABLE t (a INT, b INT, c INT, PRIMARY KEY (a, c))" =
      .ok (keyedTable ["a", "b", "c"] ["a", "c"]) := by
    decide +kernel
  have hcs : clauses "CREATE TABLE t (a INT, b INT, c INT, PRIMARY KEY (a, c))" =
      .ok (keyedClauses ["a", "b", "c"] ["a", "c"]) := by
    decide +kernel
  have hk := declareKey_keyedClauses ["a", "b", "c"] (show ["a", "c"].Nodup by decide)
  obtain ⟨create, keys, -, hmem, -, hkeys, -, -, heq⟩ :=
    exists_primaryKey_of_parse hparse hcs hk { dialect := .sqlite }
  rw [heq.2 (by decide)] at hkeys
  exact ⟨hparse, hcs, hk, create, hmem, hkeys⟩

theorem not_exists_primaryKey_of_parse : ¬∀ (text : String) (t : Table) (cs : List Clause)
    (columns : List String), parse text = .ok t → clauses text = .ok cs →
      DeclareKey cs columns → ∀ o : Options, ∃ create,
        .createTable create ∈ Creation.statements o t ∧
          create.constraints.filterMap Script.Constraint.primaryKey? = [columns] := by
  intro h
  obtain ⟨create, hmem, hkeys⟩ := h "CREATE TABLE t (a INT, b INT, PRIMARY KEY (b, a))"
    (keyedTable ["a", "b"] ["b", "a"]) (keyedClauses ["a", "b"] ["b", "a"]) ["b", "a"]
    (by decide +kernel) (by decide +kernel) (declareKey_keyedClauses _ (by decide)) {}
  rw [Creation.createTable_mem_statements_iff.1 hmem] at hkeys
  exact absurd hkeys (by decide)

end Table

end SqlTables
