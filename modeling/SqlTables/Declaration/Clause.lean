import SqlTables.Declaration.Column

/-! The clauses of a column list: keys, checks and columns, one to each item. -/

namespace SqlTables.Declaration

structure Item where
  tokens : List Token
  stop : Token
deriving Repr, DecidableEq

/-- The items of a list whose opening parenthesis was just passed, and the tokens after its closing
one. `depth` groups are open. A semicolon leaves the list unclosed. -/
def items? (depth : Nat) : List Token → Option (List Item × List Token)
  | [] => none
  | t :: rest =>
    if t.kind = .eof ∨ t.kind = .semicolon then none
    else if depth = 0 ∧ t.kind = .rightParen then some ([⟨[], t⟩], rest)
    else if depth = 0 ∧ t.kind = .comma then
      (items? depth rest).map fun (items, after) => (⟨[], t⟩ :: items, after)
    else
      let depth :=
        match t.kind with
        | .leftParen => depth + 1
        | .rightParen => depth - 1
        | _ => depth
      match items? depth rest with
      | some (item :: items, after) =>
        some ({ item with tokens := t :: item.tokens } :: items, after)
      | _ => none

inductive Clause where
  | primaryKey (columns : List String)
  | index (kind : IndexKind) (name : Option String) (columns : List String)
  | foreignKey (name : Option String) (columns : List String) (target : Reference)
  | check (name : Option String) (expression : String)
  | column (c : Column)
deriving Repr, DecidableEq

namespace Clause

/-- The name after `CONSTRAINT`, which may be left out before a constraint's keyword. Fails when
`CONSTRAINT` has neither after it. -/
def constraintName? (ts : List Token) : Option (Option String × List Token) :=
  match keyword? "CONSTRAINT" ts with
  | none => some (none, ts)
  | some rest =>
    if ["PRIMARY", "UNIQUE", "FOREIGN", "CHECK"].any (peekKeyword · rest) then some (none, rest)
    else (name? rest).map fun (name, rest) => (some name, rest)

def skipMethod (ts : List Token) : List Token :=
  match keyword? "USING" ts with
  | some rest => skipToken rest
  | none => ts

/-- The columns in parentheses. What follows them is of no account. -/
def columns? (ts : List Token) : Option (List String × List Token) := do
  let (g, rest) ← group? ts
  let columns ← columnNames? g.inside
  return (columns, rest)

def indexKind? (ts : List Token) : Option (IndexKind × List Token) :=
  let kinds := [("UNIQUE", IndexKind.unique), ("FULLTEXT", .fulltext), ("SPATIAL", .spatial)]
  match kinds.findSome? fun (w, kind) => (keyword? w ts).map (kind, ·) with
  | some (kind, rest) => some (kind, skipOneOf [["KEY"], ["INDEX"]] rest)
  | none =>
    if peekKeyword "KEY" ts || peekKeyword "INDEX" ts then
      some (.normal, skipOneOf [["KEY"], ["INDEX"]] ts)
    else none

def indexName? (ts : List Token) : Option (Option String × List Token) :=
  if isDone ts || peekKind .leftParen ts || peekKeyword "USING" ts then some (none, ts)
  else (name? ts).map fun (name, rest) => (some name, rest)

def index? (kind : IndexKind) (constraint : Option String) (ts : List Token) : Option Clause := do
  let (name, rest) ← indexName? ts
  let (columns, _) ← columns? (skipMethod rest)
  return .index kind (name.or constraint) columns

def foreignKey? (constraint : Option String) (ts : List Token) : Option Clause := do
  let (name, rest) ←
    if peekKind .leftParen ts then some (none, ts)
    else (name? ts).map fun (name, rest) => (some name, rest)
  let (columns, rest) ← columns? rest
  let (target, _) ← reference? rest
  return .foreignKey (constraint.or name) columns target

/-- What could be read of an item: a clause, or at most a part of a column. -/
inductive Reading where
  | clause (c : Clause)
  | broken (column : Option Column)
deriving Repr, DecidableEq

def Reading.ofOption : Option Clause → Reading
  | some c => .clause c
  | none => .broken none

def Reading.ofColumn : Option (Column × Bool) → Reading
  | some (c, true) => .clause (.column c)
  | some (c, false) => .broken (some c)
  | none => .broken none

/-- An item is recognised by its first keywords. A column takes no constraint name before it. -/
def read (ts : List Token) : Reading :=
  match constraintName? ts with
  | none => .broken none
  | some (constraint, rest) =>
    if let some rest := keywords? ["PRIMARY", "KEY"] rest then
      .ofOption ((columns? (skipMethod rest)).map fun (columns, _) => .primaryKey columns)
    else if let some (kind, rest) := indexKind? rest then .ofOption (index? kind constraint rest)
    else if let some rest := keywords? ["FOREIGN", "KEY"] rest then
      .ofOption (foreignKey? constraint rest)
    else if let some rest := keyword? "CHECK" rest then
      .ofOption ((group? rest).map fun (g, _) => .check constraint (Token.sourceText g.inside))
    else if constraint.isSome then .broken none
    else .ofColumn (Column.read? rest)

def Reading.clause? : Reading → Option Clause
  | .clause c => some c
  | .broken _ => none

theorem Reading.clause?_ofOption (c : Option Clause) : (ofOption c).clause? = c := by
  cases c <;> rfl

def Reading.events : Reading → List Event
  | .clause (.column c) | .broken (some c) => c.events
  | _ => []

end Clause

end SqlTables.Declaration
