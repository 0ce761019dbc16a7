import SqlTables.Parse
import SqlTables.Proofs.RoundTrip.Grouping
import SqlTables.Proofs.Schema.Resettling

/-! What is known of a table because it was read. Its keys list columns, a table without checks and
references has columns, and no key says what a flag of a column says. -/

namespace SqlTables

open Declaration

variable {t : Table} {ts : List Token} {d : Draft}

namespace Declaration

theorem get_foldl_apply {α : Type} (get : Field → α) {as : List Attribute}
    (h : ∀ a ∈ as, ∀ f : Field, get (a.apply f) = get f) (f : Field) :
    get (as.foldl Attribute.apply f) = get f := by
  induction as generalizing f with
  | nil => rfl
  | cons a as ih =>
    rw [List.forall_mem_cons] at h
    rw [List.foldl_cons, ih h.2, h.1]

theorem splitCommas_ne_nil (depth : Nat) (ts : List Token) : splitCommas depth ts ≠ [] := by
  cases ts with
  | nil => simp [splitCommas]
  | cons t ts =>
    rw [splitCommas]
    split_ifs
    · simp
    · dsimp only
      split <;> simp

theorem columnNames?_ne_nil {columns : List String} (h : columnNames? ts = some columns) :
    columns ≠ [] := by
  rintro rfl
  unfold columnNames? at h
  cases hparts : splitCommas 0 ts with
  | nil => exact splitCommas_ne_nil 0 ts hparts
  | cons part parts =>
    rw [hparts] at h
    simp [Option.bind_eq_some_iff] at h

theorem columns?_ne_nil {columns : List String} {rest : List Token}
    (h : Clause.columns? ts = some (columns, rest)) : columns ≠ [] := by
  obtain ⟨_, -, h⟩ := Option.bind_eq_some_iff.1 h
  obtain ⟨_, hcolumns, h⟩ := Option.bind_eq_some_iff.1 h
  cases h
  exact columnNames?_ne_nil hcolumns

namespace Clause

variable {c : Clause}

inductive ReadFrom (constraint : Option String) (ts : List Token) : Clause → Prop
  | primaryKey {rest after : List Token} {columns : List String}
      (opening : keywords? ["PRIMARY", "KEY"] ts = some rest)
      (listed : columns? (skipMethod rest) = some (columns, after)) :
      ReadFrom constraint ts (.primaryKey columns)
  | index {kind : IndexKind} {name : Option String} {rest us after : List Token}
      {columns : List String} (opening : indexKind? ts = some (kind, rest))
      (listed : columns? us = some (columns, after)) :
      ReadFrom constraint ts (.index kind name columns)
  | foreignKey {rest : List Token} {name : Option String} {columns : List String}
      {target : Reference} (opening : keywords? ["FOREIGN", "KEY"] ts = some rest) :
      ReadFrom constraint ts (.foreignKey name columns target)
  | check {rest after : List Token} {g : Group} (opening : keyword? "CHECK" ts = some rest)
      (group : group? rest = some (g, after)) :
      ReadFrom constraint ts (.check constraint (Token.sourceText g.inside))
  | column {c : Column} (unnamed : constraint = none)
      (primaryKey : keywords? ["PRIMARY", "KEY"] ts = none) (index : indexKind? ts = none)
      (foreignKey : keywords? ["FOREIGN", "KEY"] ts = none) (check : keyword? "CHECK" ts = none)
      (whole : Column.read? ts = some (c, true)) : ReadFrom constraint ts (.column c)

theorem readFrom_of_read (h : (read ts).clause? = some c) : ∃ constraint rest,
    constraintName? ts = some (constraint, rest) ∧ ReadFrom constraint rest c := by
  unfold read at h
  split at h
  · cases h
  rename_i constraint rest hconstraint
  refine ⟨constraint, rest, hconstraint, ?_⟩
  split at h
  · rename_i hkey
    rw [Reading.clause?_ofOption, Option.map_eq_some_iff] at h
    obtain ⟨_, hcolumns, rfl⟩ := h
    exact .primaryKey hkey hcolumns
  rename_i hprimary
  split at h
  · rename_i hkind
    rw [Reading.clause?_ofOption] at h
    obtain ⟨_, -, h⟩ := Option.bind_eq_some_iff.1 h
    obtain ⟨_, hcolumns, h⟩ := Option.bind_eq_some_iff.1 h
    cases h
    exact .index hkind hcolumns
  rename_i hindex
  split at h
  · rename_i hkey
    rw [Reading.clause?_ofOption, foreignKey?] at h
    -- a name may stand before the columns
    split_ifs at h
    all_goals
      obtain ⟨_, -, h⟩ := Option.bind_eq_some_iff.1 h
      obtain ⟨_, -, h⟩ := Option.bind_eq_some_iff.1 h
      obtain ⟨_, -, h⟩ := Option.bind_eq_some_iff.1 h
      cases h
      exact .foreignKey hkey
  rename_i hforeign
  split at h
  · rename_i hcheck
    rw [Reading.clause?_ofOption, Option.map_eq_some_iff] at h
    obtain ⟨_, hgroup, rfl⟩ := h
    exact .check hcheck hgroup
  rename_i hcheck
  split_ifs at h with hnamed
  · cases h
  · unfold Reading.ofColumn at h
    split at h <;> cases h
    exact .column (Option.not_isSome_iff_eq_none.1 hnamed)
      (Option.eq_none_iff_forall_ne_some.2 hprimary)
      (Option.eq_none_iff_forall_ne_some.2 (Prod.forall.2 hindex))
      (Option.eq_none_iff_forall_ne_some.2 hforeign)
      (Option.eq_none_iff_forall_ne_some.2 hcheck) ‹_›

def ListsColumns : Clause → Prop
  | .primaryKey columns | .index _ _ columns => columns ≠ []
  | _ => True

theorem listsColumns_of_read (h : (read ts).clause? = some c) : c.ListsColumns := by
  obtain ⟨_, _, -, hread⟩ := readFrom_of_read h
  cases hread with
  | primaryKey _ hcolumns | index _ hcolumns => exact columns?_ne_nil hcolumns
  | _ => trivial

end Clause

end Declaration

namespace Draft

theorem forall₂_of_clauses {is : List Item} {cs : List Clause} (h : clauses is = .ok cs) :
    List.Forall₂ (fun i c => (Clause.read i.tokens).clause? = some c) is cs := by
  induction is generalizing cs with
  | nil =>
    cases h
    exact .nil
  | cons i is ih =>
    rw [clauses] at h
    split at h
    · cases h
    · rename_i c hc
      cases hrest : clauses is with
      | error e =>
        rw [hrest] at h
        cases h
      | ok rest =>
        rw [hrest] at h
        cases h
        exact .cons hc (ih hrest)

theorem exists_clause_of_clauses {is : List Item} {cs : List Clause} (h : clauses is = .ok cs) :
    ∀ c ∈ cs, ∃ ts, (Clause.read ts).clause? = some c := by
  have hall := forall₂_of_clauses h
  clear h
  induction hall with
  | nil => simp
  | cons hc _ ih => exact List.forall_mem_cons.2 ⟨⟨_, hc⟩, ih⟩

theorem exists_items?_of_read {definition : Definition} (h : Definition.read ts = .ok definition) :
    ∃ rest, items? 0 rest = some (definition.items, definition.rest) := by
  unfold Definition.read at h
  split at h
  · cases h
  split at h
  · cases h
  rename_i hitems
  cases h
  exact ⟨_, hitems⟩

theorem clauses_ne_nil {definition : Definition} (hd : Definition.read ts = .ok definition)
    {cs : List Clause} (h : clauses definition.items = .ok cs) : cs ≠ [] := by
  rintro rfl
  obtain ⟨rest, hitems⟩ := exists_items?_of_read hd
  have hall := forall₂_of_clauses h
  rw [List.forall₂_nil_right_iff] at hall
  exact items?_ne_nil _ _ _ (hall ▸ hitems)

theorem exists_clauses_of_read (h : read ts = .ok d) : ∃ name cs settings, cs ≠ [] ∧
    (∀ c ∈ cs, ∃ us, (Clause.read us).clause? = some c) ∧ d = ofClauses name cs settings := by
  unfold read at h
  split at h
  · cases h
  rename_i hdefinition
  split at h
  · cases h
  rename_i cs hcs
  cases h
  exact ⟨_, cs, _, clauses_ne_nil hdefinition hcs, exists_clause_of_clauses hcs, rfl⟩

def size (d : Draft) : Nat :=
  d.table.fields.length + d.table.indexes.length + d.table.foreignKeys.length +
    d.table.checks.length + d.primaryKey.length

theorem size_lt_size_add (d : Draft) {c : Clause} (h : c.ListsColumns) :
    d.size < (d.add c).size := by
  cases c with
  | primaryKey columns =>
    have hpos := List.length_pos_iff.2 h
    simp only [size, add, List.length_append]
    omega
  | index kind name columns =>
    simp only [size, add, Table.withIndex, List.length_append, List.length_singleton]
    omega
  | foreignKey name columns target =>
    simp only [size, add, List.length_append, List.length_singleton]
    omega
  | check name expression =>
    simp only [size, add, List.length_append, List.length_singleton]
    omega
  | column c =>
    simp only [size, add, List.length_append, List.length_singleton]
    omega

theorem size_le_size_foldl_add (d : Draft) {cs : List Clause} (h : ∀ c ∈ cs, c.ListsColumns) :
    d.size + cs.length ≤ (cs.foldl add d).size := by
  induction cs generalizing d with
  | nil => exact Nat.le_refl _
  | cons c cs ih =>
    rw [List.forall_mem_cons] at h
    have hc := size_lt_size_add d h.1
    have hcs := ih (d.add c) h.2
    rw [List.foldl_cons, List.length_cons]
    omega

theorem size_pos_of_read (h : read ts = .ok d) :
    0 < d.size ∧ ∀ i ∈ d.table.indexes, i.fields ≠ [] := by
  obtain ⟨name, cs, settings, hne, hcs, rfl⟩ := exists_clauses_of_read h
  have hlists : ∀ c ∈ cs, c.ListsColumns := by
    intro c hc
    obtain ⟨us, hread⟩ := hcs c hc
    exact Clause.listsColumns_of_read hread
  have hsize := size_le_size_foldl_add { table := { name := name } } hlists
  have hpos := List.length_pos_iff.2 hne
  have hsettings : (ofClauses name cs settings).size =
      (cs.foldl add { table := { name := name } }).size := rfl
  refine ⟨by omega, fun i hi => ?_⟩
  rw [(sums_ofClauses name cs settings).indexes] at hi
  obtain ⟨c, hc, he⟩ := List.mem_filterMap.1 hi
  obtain ⟨kind, given, columns, rfl, rfl⟩ := Clause.addedIndex?_eq_some_iff.1 he
  exact hlists _ hc

end Draft

/-- What is known of a table that was settled from clauses. -/
structure Table.Declared (t : Table) : Prop extends t.Settled where
  nonempty : t.foreignKeys = [] → t.checks = [] → t.fields ≠ []
  indexes : ∀ i ∈ t.indexes, i.fields ≠ []

theorem Draft.declared_of_settle (h : d.settle = .ok t) (hsize : 0 < d.size)
    (hindexes : ∀ i ∈ d.table.indexes, i.fields ≠ []) : t.Declared := by
  have hvalid := validate_of_settle h
  obtain ⟨added, ht, hover, -⟩ := exists_of_settle h
  refine ⟨settled_of_settle h, fun hforeign hchecks hfields => ?_, fun i hi => ?_⟩
  · -- without columns there is nothing that a key could list
    rw [ht] at hforeign hchecks hfields
    have hnone : d.table.fields = [] := List.map_eq_nil_iff.1 hfields
    have hkeys : d.primaryKey = [] := by
      have hcolumns := ((settle_eq_ok_iff_of_nodup (nodup_of_settle h)).1 h).1
      rw [Table.fieldNames, hnone] at hcolumns
      exact List.eq_nil_iff_forall_not_mem.2 fun column hc => by simpa using hcolumns column hc
    have hlisted : d.table.indexes = [] := by
      refine List.eq_nil_iff_forall_not_mem.2 fun i hi => hindexes i hi ?_
      have hmem : i ∈ t.indexes := by
        rw [ht, List.mem_append, List.mem_filter, List.mem_eraseDups]
        exact .inl ⟨hi, by simp [folds, hnone]⟩
      have hcolumns := (Table.validate_eq_ok_iff.1 hvalid).2.2.1 i hmem
      rw [Table.fieldNames, ht, hfields] at hcolumns
      exact List.eq_nil_iff_forall_not_mem.2 fun column hc => by simpa using hcolumns column hc
    rw [size, hnone, hlisted, hforeign, hchecks, hkeys] at hsize
    exact absurd hsize (by simp)
  · rw [ht, List.mem_append, List.mem_filter, List.mem_eraseDups] at hi
    rcases hi with ⟨hi, -⟩ | hi
    · exact hindexes i hi
    · obtain ⟨f, -, -, -, hu⟩ := hover i hi
      rw [(isUniqueOn_iff.1 hu).2]
      simp

namespace Table

theorem exists_draft_of_parse {text : String} (h : parse text = .ok t) :
    ∃ ts d, Draft.read ts = .ok d ∧ d.settle = .ok t := by
  unfold parse parseStatement at h
  split at h
  · cases h
  rename_i ts _
  split at h
  · cases h
  rename_i d hread
  refine ⟨ts, d, hread, ?_⟩
  cases hsettle : d.settle with
  | error e =>
    rw [hsettle] at h
    cases h
  | ok t' =>
    rw [hsettle] at h
    cases h
    rfl

theorem declared_of_parse {text : String} (h : parse text = .ok t) : t.Declared := by
  obtain ⟨ts, d, hread, hsettle⟩ := exists_draft_of_parse h
  obtain ⟨hsize, hindexes⟩ := Draft.size_pos_of_read hread
  exact Draft.declared_of_settle hsettle hsize hindexes

end Table

end SqlTables
