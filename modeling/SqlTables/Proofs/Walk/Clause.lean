import SqlTables.Proofs.Walk.Column

/-! Walks over the items of a column list. Each begins at the first token of its item. -/

namespace SqlTables

open Declaration

namespace Walk

def constraintName : Walk (Option String) := do
  if ← eatKeyword "CONSTRAINT" then
    if ← seesOneOf ["PRIMARY", "UNIQUE", "FOREIGN", "CHECK"] then return none
    else return some (← identifier)
  else return none

def skipMethod : Walk Unit := do
  if ← eatKeyword "USING" then
    let _ ← advance?
    return ()
  else return ()

def columns : Walk (List String) := do columnList (← group)

def indexWord (kind : IndexKind) : Walk (Option IndexKind) := do
  let _ ← eatOneOf [["KEY"], ["INDEX"]]
  return some kind

def indexKind : Walk (Option IndexKind) := do
  if ← eatKeyword "UNIQUE" then indexWord .unique
  else if ← eatKeyword "FULLTEXT" then indexWord .fulltext
  else if ← eatKeyword "SPATIAL" then indexWord .spatial
  else if ← seesOneOf ["KEY", "INDEX"] then indexWord .normal
  else return none

def indexName : Walk (Option String) := do
  match ← peek with
  | none => return none
  | some t =>
    if t.kind = .leftParen ∨ t.isKeyword "USING" then return none else return some (← identifier)

def index (kind : IndexKind) (constraint : Option String) : Walk Clause := do
  let name ← indexName
  skipMethod
  let columns ← columns
  return .index kind (name.or constraint) columns

def foreignKeyName : Walk (Option String) := do
  if ← seesKind .leftParen then return none else return some (← identifier)

def foreignKey (constraint : Option String) : Walk Clause := do
  let name ← foreignKeyName
  let columns ← columns
  let target ← reference
  return .foreignKey (constraint.or name) columns target

def primaryKey : Walk Clause := do
  skipMethod
  let columns ← columns
  return .primaryKey columns

def otherClause (constraint : Option String) : Walk Clause := do
  if ← eatKeywords ["FOREIGN", "KEY"] then foreignKey constraint
  else if ← eatKeyword "CHECK" then return .check constraint (Token.sourceText (← group))
  else if constraint.isSome then giveUp
  else return .column (← column)

def clause : Walk Clause := do
  let constraint ← constraintName
  if ← eatKeywords ["PRIMARY", "KEY"] then primaryKey
  else
    match ← indexKind with
    | some kind => index kind constraint
    | none => otherClause constraint

theorem reads_constraintName (ts : List Token) :
    Reads constraintName ts (Clause.constraintName? ts) := by
  rw [Clause.constraintName?]
  refine (tests_eatKeyword _ ts).ite (fun rest h => ?_) fun h => ?_
  · rw [h]
    refine (reads_seesOneOf _ rest).andThen ?_
    dsimp only
    split_ifs
    · exact reads_pure none rest
    · exact (reads_identifier rest).map some
  · rw [h]
    exact reads_pure none ts

theorem reads_skipMethod (ts : List Token) :
    Reads skipMethod ts (some ((), Clause.skipMethod ts)) := by
  rw [Clause.skipMethod]
  refine (tests_eatKeyword _ ts).ite (fun rest h => ?_) fun h => ?_
  · rw [h]
    exact (reads_advance? rest).andThen (reads_pure () _)
  · rw [h]
    exact reads_pure () ts

theorem reads_indexWord (kind : IndexKind) (ts : List Token) :
    Reads (indexWord kind) ts (some (some kind, skipOneOf [["KEY"], ["INDEX"]] ts)) := by
  rw [skipOneOf_eq]
  exact (tests_eatOneOf _ ts).andThen (reads_pure _ _)

theorem reads_indexKind (ts : List Token) :
    Reads indexKind ts
      (some (match Clause.indexKind? ts with
        | some (kind, rest) => (some kind, rest)
        | none => (none, ts))) := by
  simp only [Clause.indexKind?, List.findSome?_cons, List.findSome?_nil]
  refine (tests_eatKeyword _ ts).ite (fun rest h => ?_) fun hunique => ?_
  · exact (reads_indexWord .unique rest).of_eq (by rw [h]; rfl)
  refine (tests_eatKeyword _ ts).ite (fun rest h => ?_) fun hfulltext => ?_
  · exact (reads_indexWord .fulltext rest).of_eq (by rw [hunique, h]; rfl)
  refine (tests_eatKeyword _ ts).ite (fun rest h => ?_) fun hspatial => ?_
  · exact (reads_indexWord .spatial rest).of_eq (by rw [hunique, hfulltext, h]; rfl)
  rw [hunique, hfulltext, hspatial]
  refine (reads_seesOneOf _ ts).andThen ?_
  simp only [List.any_cons, List.any_nil, Bool.or_false, Option.map_none]
  split_ifs
  · exact reads_indexWord .normal ts
  · exact reads_pure none ts

theorem reads_indexName (ts : List Token) : Reads indexName ts (Clause.indexName? ts) := by
  refine (reads_peek ts).andThen ?_
  rw [Clause.indexName?]
  cases ts with
  | nil => exact reads_pure none []
  | cons t ts =>
    by_cases hte : t.kind = .eof
    · simpa [take?, isDone, hte] using reads_pure none (t :: ts)
    · simp only [take?, isDone, hte, if_false, Option.map_some, Option.isNone_some, Bool.false_or,
        peekKind, peekKeyword, Bool.or_eq_true, beq_iff_eq]
      split_ifs
      · exact reads_pure none _
      · exact (reads_identifier _).map some

theorem reads_columns (ts : List Token) : Reads columns ts (Clause.columns? ts) := by
  have hgroup := reads_group ts
  rw [Clause.columns?, Option.bind_eq_bind]
  cases hg : group? ts with
  | none =>
    rw [hg] at hgroup
    exact hgroup.giveUp
  | some found =>
    rw [hg] at hgroup
    refine hgroup.andThen ((reads_columnList found.1.inside found.2).of_eq ?_)
    dsimp only [Option.bind_some]
    cases columnNames? found.1.inside <;> rfl

theorem yields_primaryKey (ts : List Token) :
    Yields primaryKey ts
      ((Clause.columns? (Clause.skipMethod ts)).map fun (columns, _) => .primaryKey columns) := by
  rw [Option.map_eq_bind]
  refine (reads_skipMethod ts).andThenYields ?_
  refine (reads_columns _).bindYields fun columns after _ => ?_
  exact (reads_pure _ after).yields

theorem yields_index (kind : IndexKind) (constraint : Option String) (ts : List Token) :
    Yields (index kind constraint) ts (Clause.index? kind constraint ts) := by
  refine (reads_indexName ts).bindYields fun name after _ => ?_
  refine (reads_skipMethod after).andThenYields ?_
  refine (reads_columns _).bindYields fun columns after _ => ?_
  exact (reads_pure _ after).yields

theorem reads_foreignKeyName (ts : List Token) :
    Reads foreignKeyName ts
      (if peekKind .leftParen ts then some (none, ts)
      else (name? ts).map fun (name, rest) => (some name, rest)) := by
  refine (reads_seesKind (by decide) ts).andThen ?_
  split_ifs
  · exact reads_pure none ts
  · exact (reads_identifier ts).map some

theorem yields_foreignKey (constraint : Option String) (ts : List Token) :
    Yields (foreignKey constraint) ts (Clause.foreignKey? constraint ts) := by
  have htarget (name : Option String) (rest : List Token) :
      Yields (do
        let columns ← columns
        let target ← reference
        return Clause.foreignKey (constraint.or name) columns target) rest
        ((Clause.columns? rest).bind fun columns => (reference? columns.2).bind fun target =>
          some (.foreignKey (constraint.or name) columns.1 target.1)) := by
    refine (reads_columns rest).bindYields fun columns after _ => ?_
    refine (reads_reference after).bindYields fun target after _ => ?_
    exact (reads_pure _ after).yields
  have hname := reads_foreignKeyName ts
  rw [Clause.foreignKey?]
  split_ifs at hname ⊢
  · exact hname.andThenYields (htarget none ts)
  · cases hn : name? ts with
    | none =>
      rw [hn] at hname
      exact hname.giveUp.yields
    | some found =>
      rw [hn] at hname
      exact hname.andThenYields (htarget (some found.1) found.2)

theorem yields_otherClause (constraint : Option String) (ts : List Token) :
    Yields (otherClause constraint) ts
      (if let some rest := keywords? ["FOREIGN", "KEY"] ts then
        .ofOption (Clause.foreignKey? constraint rest)
      else if let some rest := keyword? "CHECK" ts then
        .ofOption ((group? rest).map fun (g, _) => .check constraint (Token.sourceText g.inside))
      else if constraint.isSome then .broken none
      else .ofColumn (Column.read? ts) : Clause.Reading).clause? := by
  refine (tests_eatKeywords _ ts).iteYields (fun rest h => ?_) fun hforeign => ?_
  · rw [h]
    dsimp only
    rw [Clause.Reading.clause?_ofOption]
    exact yields_foreignKey constraint rest
  rw [hforeign]
  refine (tests_eatKeyword _ ts).iteYields (fun rest h => ?_) fun hcheck => ?_
  · rw [h]
    dsimp only
    rw [Clause.Reading.clause?_ofOption]
    have hcheck := ((reads_group rest).map fun inside =>
      Clause.check constraint (Token.sourceText inside)).yields
    cases hg : group? rest <;> simpa [hg] using hcheck
  rw [hcheck]
  dsimp only
  split_ifs
  · exact (reads_giveUp ts).yields
  · have hcolumn := (yields_column ts).map Clause.column
    rcases hread : Column.read? ts with _ | ⟨c, _ | _⟩ <;>
      simpa [hread, Clause.Reading.ofColumn, Clause.Reading.clause?] using hcolumn

theorem yields_clause (ts : List Token) : Yields clause ts (Clause.read ts).clause? := by
  have hname := reads_constraintName ts
  rw [Clause.read]
  cases hconstraint : Clause.constraintName? ts with
  | none =>
    rw [hconstraint] at hname
    exact (Reads.giveUp hname).yields
  | some found =>
    obtain ⟨constraint, rest⟩ := found
    rw [hconstraint] at hname
    refine hname.andThenYields ?_
    dsimp only
    refine (tests_eatKeywords _ rest).iteYields (fun after h => ?_) fun hprimary => ?_
    · rw [h]
      dsimp only
      rw [Clause.Reading.clause?_ofOption]
      exact yields_primaryKey after
    rw [hprimary]
    refine (reads_indexKind rest).andThenYields ?_
    dsimp only
    cases hkind : Clause.indexKind? rest with
    | some found =>
      dsimp only
      rw [Clause.Reading.clause?_ofOption]
      exact yields_index found.1 constraint found.2
    | none => exact yields_otherClause constraint rest

end Walk

end SqlTables
