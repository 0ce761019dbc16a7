import SqlTables.Proofs.PrimaryKeyOrder
import SqlTables.Proofs.Schema.Acceptance

/-! Keys without names. A key clause that gives none gets one made of a prefix and its columns, and
two clauses that differ can get the same: a prefix stands for three kinds, and columns that are
joined by underscores can be the columns of another list. -/

namespace SqlTables

open Declaration

variable {t : Table} {d : Draft} {cs : List Clause}

theorem exists_of_flagPrimaryKey_eq_error {columns : List String} {e : SchemaError}
    (h : Draft.flagPrimaryKey t columns = .error e) :
    ∃ column, e = .unknownIndexColumn "PRIMARY" column := by
  induction columns generalizing t with
  | nil => cases h
  | cons column columns ih =>
    rw [Draft.flagPrimaryKey] at h
    split_ifs at h
    · exact @ih (t.modifyField column Field.asPrimaryKey) h
    · cases h
      exact ⟨column, rfl⟩

theorem exists_of_placeIndexes_eq_error {is : List Index} {e : SchemaError}
    (h : Draft.placeIndexes t is = .error e) :
    ∃ index column, e = .unknownIndexColumn index column := by
  induction is generalizing t with
  | nil => cases h
  | cons i is ih =>
    rw [Draft.placeIndexes] at h
    split at h
    · rename_i e' he
      cases h
      unfold Draft.placeIndex at he
      split at he
      · split at he <;> cases he
        exact ⟨i.name, _, rfl⟩
      · cases he
    · exact ih h

theorem validate_ne_duplicateIndexName (hn : (t.indexes.map (·.name)).Nodup) (name : String) :
    t.validate ≠ .error (.duplicateIndexName name) := by
  intro h
  have hfault : t.fault? = some (.duplicateIndexName name) := by
    unfold Table.validate at h
    split at h
    · cases h
      assumption
    · cases h
  rw [Table.fault?, Option.or_eq_some_iff, Option.or_eq_some_iff] at hfault
  rcases hfault with hfield | ⟨-, hindex | ⟨-, hkey⟩⟩
  · obtain ⟨_, -, he⟩ := Option.map_eq_some_iff.1 hfield
    cases he
  · rw [indexFault?_of_nodup hn (by simp)] at hindex
    obtain ⟨i, -, hi⟩ := List.exists_of_findSome?_eq_some hindex
    obtain ⟨_, -, he⟩ := Option.map_eq_some_iff.1 hi
    cases he
  · obtain ⟨k, -, hk⟩ := List.exists_of_findSome?_eq_some hkey
    obtain ⟨_, -, he⟩ := Option.map_eq_some_iff.1 hk
    cases he

theorem exists_settle_eq_duplicateIndexName_iff :
    (∃ name, d.settle = .error (.duplicateIndexName name)) ↔
      (∀ column ∈ d.primaryKey, column ∈ d.table.fieldNames) ∧
        ∃ i ∈ d.table.indexes, ∃ j ∈ d.table.indexes, j.name = i.name ∧ j ≠ i := by
  unfold Draft.settle
  rw [← exists_flagPrimaryKey_iff]
  cases hkeyed : Draft.flagPrimaryKey d.table d.primaryKey with
  | error e =>
    obtain ⟨column, rfl⟩ := exists_of_flagPrimaryKey_eq_error hkeyed
    simp [bind, Except.bind]
  | ok keyed =>
    rw [← (keys_flagPrimaryKey hkeyed).1]
    cases hdistinct : Draft.distinctIndexes [] keyed.indexes with
    | error e =>
      obtain ⟨i, hi, j, hj, hname, hne, rfl⟩ := exists_of_distinctIndexes_eq_error hdistinct
      have hclash : ∃ i ∈ keyed.indexes, ∃ j ∈ keyed.indexes, j.name = i.name ∧ j ≠ i :=
        ⟨i, hi, j, hj, hname, hne⟩
      simp [bind, Except.bind, hdistinct, hclash]
    | ok is =>
      have hsame := (distinctIndexes_nil_eq_ok_iff.1 hdistinct).1
      have hclash : ¬∃ i ∈ keyed.indexes, ∃ j ∈ keyed.indexes, j.name = i.name ∧ j ≠ i := by
        rintro ⟨i, hi, j, hj, hname, hne⟩
        exact hne (hsame i hi j hj hname)
      simp only [bind, Except.bind, hdistinct, hclash, and_false, iff_false]
      rintro ⟨name, h⟩
      cases hplaced : Draft.placeIndexes { keyed with indexes := [] } is with
      | error e =>
        obtain ⟨_, _, rfl⟩ := exists_of_placeIndexes_eq_error hplaced
        simp [hplaced] at h
      | ok placed =>
        have hpasses : d.Passes keyed is placed := ⟨hkeyed, hdistinct, hplaced⟩
        have hvalid := validate_ne_duplicateIndexName (t := { keyed with indexes := is })
          hpasses.nodup_names name
        rw [← hpasses.validate_eq] at hvalid
        cases hcheck : (Draft.promoteKeyFlags placed).validate with
        | error e =>
          simp only [hplaced, hcheck] at h
          exact hvalid (hcheck.trans (Except.error.inj h ▸ rfl))
        | ok _ => simp [hplaced, hcheck, pure, Except.pure] at h

namespace Declaration.Clause

def isUnnamed : Clause → Bool
  | .index _ name _ => name.isNone
  | _ => true

end Declaration.Clause

theorem defaultIndexName_inj {kind kind' : IndexKind} {columns columns' : List String} :
    Draft.defaultIndexName kind columns = Draft.defaultIndexName kind' columns' ↔
      (kind = .unique ↔ kind' = .unique) ∧
        "_".intercalate columns = "_".intercalate columns' := by
  have hchars (p s : String) : (p ++ "_" ++ s).toList = p.toList ++ '_' :: s.toList := by
    simp
  have hjoined : "_".intercalate columns = "_".intercalate columns' ↔
      ("_".intercalate columns).toList = ("_".intercalate columns').toList := String.toList_inj.symm
  rw [Draft.defaultIndexName, Draft.defaultIndexName, ← String.toList_inj, hchars, hchars, hjoined]
  by_cases hk : kind = .unique <;> by_cases hk' : kind' = .unique <;> simp [hk, hk']

namespace Draft

variable {e : ParseError}

theorem ne_schema_of_definition {ts : List Token} (h : Definition.read ts = .error e)
    (fault : SchemaError) : e ≠ .schema fault := by
  unfold Definition.read at h
  split at h
  · cases h
    simp
  · split at h <;> cases h
    simp

theorem ne_schema_of_clauses {is : List Item} (h : clauses is = .error e) (fault : SchemaError) :
    e ≠ .schema fault := by
  induction is with
  | nil => cases h
  | cons i is ih =>
    rw [clauses] at h
    split at h
    · cases h
      simp [unreadable]
    · cases hrest : clauses is with
      | error e' =>
        rw [hrest] at h
        cases h
        exact ih hrest
      | ok cs =>
        rw [hrest] at h
        cases h

end Draft

namespace Table

variable {text : String}

theorem parse_ne_schema {e : ParseError} (h : clauses text = .error e) (fault : SchemaError) :
    parse text ≠ .error (.schema fault) := by
  unfold clauses at h
  unfold parse parseStatement Draft.read
  cases hts : Token.tokenize (Source.withoutComments text) with
  | error e' => simp
  | ok ts =>
    simp only [hts] at h
    cases hdefinition : Draft.Definition.read ts with
    | error e' => simpa [hdefinition] using Draft.ne_schema_of_definition hdefinition fault
    | ok definition =>
      simp only [hdefinition] at h
      simpa [hdefinition, h] using Draft.ne_schema_of_clauses h fault

/-- A text whose keys have no names is turned down for a name if its primary key is known and two of
its keys differ, in kind or in columns, but not in what their names are made of. -/
theorem exists_parse_eq_duplicateIndexName_iff
    (h : ∀ cs, clauses text = .ok cs → ∀ c ∈ cs, c.isUnnamed = true) :
    (∃ name, parse text = .error (.schema (.duplicateIndexName name))) ↔
      ∃ cs, clauses text = .ok cs ∧
        (∀ columns, .primaryKey columns ∈ cs → ∀ column ∈ columns, column ∈ columnNames cs) ∧
        ∃ kind columns kind' columns', .index kind none columns ∈ cs ∧
          .index kind' none columns' ∈ cs ∧ (kind, columns) ≠ (kind', columns') ∧
          (kind = .unique ↔ kind' = .unique) ∧
          "_".intercalate columns = "_".intercalate columns' := by
  cases hcs : clauses text with
  | error e => simp [parse_ne_schema hcs]
  | ok cs =>
    have hunnamed {kind : IndexKind} {name : Option String} {columns : List String}
        (hc : .index kind name columns ∈ cs) : name = none :=
      Option.isNone_iff_eq_none.1 (h cs hcs (.index kind name columns) hc)
    obtain ⟨name, settings, hparse⟩ := exists_parse_eq_settle hcs
    have herror (fault : SchemaError) : parse text = .error (.schema fault) ↔
        (Draft.ofClauses name cs settings).settle = .error fault := by
      rw [hparse]
      cases (Draft.ofClauses name cs settings).settle <;> simp [Except.mapError]
    simp only [herror, Except.ok.injEq, exists_eq_left']
    have hsums := Draft.sums_ofClauses name cs settings
    rw [exists_settle_eq_duplicateIndexName_iff, hsums.primaryKey, Draft.fieldNames_ofClauses,
      hsums.indexes]
    simp only [List.mem_flatten, List.mem_filterMap, Clause.primaryKey?_eq_some_iff,
      Clause.addedIndex?_eq_some_iff, exists_eq_right]
    refine and_congr ⟨fun hall columns hc column hcolumn => hall column ⟨columns, hc, hcolumn⟩,
      fun hall column ⟨columns, hc, hcolumn⟩ => hall columns hc column hcolumn⟩ ⟨?_, ?_⟩
    · rintro ⟨_, ⟨_, hi, kind, iname, columns, rfl, rfl⟩, _,
        ⟨_, hj, kind', jname, columns', rfl, rfl⟩, hname, hne⟩
      obtain rfl := hunnamed hi
      obtain rfl := hunnamed hj
      obtain ⟨hunique, hjoined⟩ := defaultIndexName_inj.1 hname
      refine ⟨kind', columns', kind, columns, hj, hi, ?_, hunique, hjoined⟩
      rintro ⟨⟩
      exact hne rfl
    · rintro ⟨kind, columns, kind', columns', hi, hj, hne, hunique, hjoined⟩
      refine ⟨_, ⟨_, hj, kind', none, columns', rfl, rfl⟩, _,
        ⟨_, hi, kind, none, columns, rfl, rfl⟩, defaultIndexName_inj.2 ⟨hunique, hjoined⟩, ?_⟩
      intro he
      rw [Index.mk.injEq] at he
      exact hne (Prod.ext he.2.1 he.2.2)

theorem isUnnamed_of_all (h : (clauses text).map (·.all (·.isUnnamed)) = .ok true) :
    ∀ cs, clauses text = .ok cs → ∀ c ∈ cs, c.isUnnamed = true := by
  intro cs hcs
  rw [hcs, Except.map, Except.ok.injEq] at h
  exact List.all_eq_true.1 h

theorem exists_clash_fulltext : ∃ cs,
    clauses "CREATE TABLE t (a INT, KEY (a), FULLTEXT KEY (a))" = .ok cs ∧
      ∃ kind columns kind' columns', .index kind none columns ∈ cs ∧
        .index kind' none columns' ∈ cs ∧ (kind, columns) ≠ (kind', columns') ∧
        (kind = .unique ↔ kind' = .unique) ∧
        "_".intercalate columns = "_".intercalate columns' := by
  have hparse : parse "CREATE TABLE t (a INT, KEY (a), FULLTEXT KEY (a))" =
      .error (.schema (.duplicateIndexName "idx_a")) := by
    decide +kernel
  obtain ⟨cs, hcs, -, hclash⟩ := (exists_parse_eq_duplicateIndexName_iff
    (isUnnamed_of_all (by decide +kernel))).1 ⟨_, hparse⟩
  exact ⟨cs, hcs, hclash⟩

theorem not_parse_ne_duplicateIndexName :
    ¬∀ text, (∀ cs, clauses text = .ok cs → ∀ c ∈ cs, c.isUnnamed = true) →
      ∀ name, parse text ≠ .error (.schema (.duplicateIndexName name)) := by
  intro h
  exact h "CREATE TABLE t (a INT, b INT, a_b INT, KEY (a, b), KEY (a_b))"
    (isUnnamed_of_all (by decide +kernel)) "idx_a_b" (by decide +kernel)

end Table

end SqlTables
