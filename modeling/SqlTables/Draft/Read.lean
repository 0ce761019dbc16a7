import SqlTables.Declaration.Clause
import SqlTables.Declaration.Setting
import SqlTables.Report

/-! Drafts of tables: what a definition says, before the columns named by primary key clauses are
looked up and double keys are folded. -/

namespace SqlTables

open Declaration

/-- A table with the columns that its primary key clauses name, in order. -/
structure Draft where
  table : Table
  primaryKey : List String := []
deriving Repr, DecidableEq

namespace Draft

/-- The tokens after the first `CREATE [TEMPORARY | TEMP] TABLE`. -/
def afterCreateTable? : List Token → Option (List Token)
  | [] => none
  | t :: rest =>
    if t.kind = .eof then none
    else if t.isKeyword "CREATE" then
      match keyword? "TABLE" (skipOneOf [["TEMPORARY"], ["TEMP"]] rest) with
      | some rest => some rest
      | none => afterCreateTable? rest
    else afterCreateTable? rest

def header? (ts : List Token) : Option (String × Token × List Token) := do
  let rest ← afterCreateTable? ts
  let (name, rest) ← qualifiedName? (skipOneOf [["IF", "NOT", "EXISTS"]] rest)
  match rest with
  | [] => none
  | t :: rest => if t.kind = .leftParen then some (name, t, rest) else none

structure Definition where
  name : String
  items : List Item
  rest : List Token
deriving Repr, DecidableEq

def Definition.read (ts : List Token) : Except ParseError Definition :=
  match header? ts with
  | none => .error .missingHeader
  | some (name, opening, rest) =>
    match items? 0 rest with
    | none => .error (.unterminatedColumnList opening.start.line opening.start.column)
    | some (items, rest) => .ok ⟨name, items, rest⟩

/-- An item that is no clause, reported at its first token, or where it should have been. -/
def unreadable (i : Item) : ParseError :=
  let place := (i.tokens.headD i.stop).start
  .unreadableItem (Token.sourceText i.tokens) place.line place.column

def clauses : List Item → Except ParseError (List Clause)
  | [] => .ok []
  | i :: rest =>
    match (Clause.read i.tokens).clause? with
    | none => .error (unreadable i)
    | some c => (clauses rest).map (c :: ·)

def defaultIndexName (kind : IndexKind) (columns : List String) : String :=
  (if kind = .unique then "uk" else "idx") ++ "_" ++ "_".intercalate columns

def defaultForeignKeyName (table : String) (columns : List String) : String :=
  "fk_" ++ table ++ "_" ++ "_".intercalate columns

def add (d : Draft) (c : Clause) : Draft :=
  let t := d.table
  match c with
  | .primaryKey columns => { d with primaryKey := d.primaryKey ++ columns }
  | .index kind name columns =>
    { d with table := t.withIndex ⟨name.getD (defaultIndexName kind columns), kind, columns⟩ }
  | .foreignKey name columns r =>
    let name := name.getD (defaultForeignKeyName t.name columns)
    let key : ForeignKey := ⟨name, columns, r.table, r.fields, r.onDelete, r.onUpdate⟩
    { d with table := { t with foreignKeys := t.foreignKeys ++ [key] } }
  | .check name expression =>
    { d with table := { t with checks := t.checks ++ [⟨name, expression⟩] } }
  | .column c =>
    { d with
      table := {
        t with
        fields := t.fields ++ [c.field]
        foreignKeys := t.foreignKeys ++ c.foreignKeys t.name
        checks := t.checks ++ c.checks } }

end Draft

namespace Declaration.Clause

def column? : Clause → Option Column
  | .column c => some c
  | _ => none

def primaryKey? : Clause → Option (List String)
  | .primaryKey columns => some columns
  | _ => none

def addedIndex? : Clause → Option Index
  | .index kind name columns =>
    some ⟨name.getD (Draft.defaultIndexName kind columns), kind, columns⟩
  | _ => none

def foreignKeys (table : String) : Clause → List ForeignKey
  | .foreignKey name columns r =>
    [⟨name.getD (Draft.defaultForeignKeyName table columns), columns, r.table, r.fields,
      r.onDelete, r.onUpdate⟩]
  | .column c => c.foreignKeys table
  | _ => []

def checks : Clause → List Check
  | .check name expression => [⟨name, expression⟩]
  | .column c => c.checks
  | _ => []

theorem column?_eq_some_iff {c : Clause} {column : Column} :
    c.column? = some column ↔ c = .column column := by
  cases c <;> simp [column?]

theorem primaryKey?_eq_some_iff {c : Clause} {columns : List String} :
    c.primaryKey? = some columns ↔ c = .primaryKey columns := by
  cases c <;> simp [primaryKey?]

theorem addedIndex?_eq_some_iff {c : Clause} {i : Index} : c.addedIndex? = some i ↔
    ∃ kind name columns, c = .index kind name columns ∧
      i = ⟨name.getD (Draft.defaultIndexName kind columns), kind, columns⟩ := by
  cases c with
  | index kind name columns =>
    constructor
    · exact fun h => ⟨kind, name, columns, rfl, (Option.some.inj h).symm⟩
    · rintro ⟨_, _, _, ⟨⟩, rfl⟩
      rfl
  | _ => simp [addedIndex?]

end Declaration.Clause

namespace Draft

theorem foldl_add (d : Draft) (cs : List Clause) :
    cs.foldl add d =
      { table := {
          d.table with
          fields := d.table.fields ++ (cs.filterMap Clause.column?).map (·.field)
          indexes := d.table.indexes ++ cs.filterMap Clause.addedIndex?
          foreignKeys := d.table.foreignKeys ++ cs.flatMap (Clause.foreignKeys d.table.name)
          checks := d.table.checks ++ cs.flatMap Clause.checks }
        primaryKey := d.primaryKey ++ (cs.filterMap Clause.primaryKey?).flatten } := by
  induction cs generalizing d with
  | nil => simp
  | cons c cs ih =>
    rw [List.foldl_cons, ih]
    cases c <;>
      simp [add, Clause.column?, Clause.primaryKey?, Clause.addedIndex?, Clause.foreignKeys,
        Clause.checks, List.filterMap_cons, Table.withIndex]

def ofClauses (name : String) (cs : List Clause) (settings : List Setting) : Draft :=
  let d := cs.foldl add { table := { name := name } }
  { d with table := Setting.applyAll d.table settings }

/-- Whether a draft has what its clauses come to, each once and in order. -/
structure Sums (d : Draft) (name : String) (cs : List Clause) : Prop where
  fields : d.table.fields = (cs.filterMap Clause.column?).map (·.field)
  indexes : d.table.indexes = cs.filterMap Clause.addedIndex?
  primaryKey : d.primaryKey = (cs.filterMap Clause.primaryKey?).flatten
  foreignKeys : d.table.foreignKeys = cs.flatMap (Clause.foreignKeys name)
  checks : d.table.checks = cs.flatMap Clause.checks

theorem sums_ofClauses (name : String) (cs : List Clause) (settings : List Setting) :
    (ofClauses name cs settings).Sums name cs := by
  have hadded := foldl_add { table := { name := name } } cs
  exact
    { fields := congrArg (·.table.fields) hadded
      indexes := congrArg (·.table.indexes) hadded
      primaryKey := congrArg (·.primaryKey) hadded
      foreignKeys := congrArg (·.table.foreignKeys) hadded
      checks := congrArg (·.table.checks) hadded }

def read (ts : List Token) : Except ParseError Draft :=
  match Definition.read ts with
  | .error e => .error e
  | .ok d =>
    match clauses d.items with
    | .error e => .error e
    | .ok cs => .ok (ofClauses d.name cs (Setting.readAll d.rest))

def itemEvents : List Item → List Event
  | [] => []
  | i :: rest =>
    match Clause.read i.tokens with
    | .clause c => (Clause.Reading.clause c).events ++ itemEvents rest
    | broken => broken.events

def events (ts : List Token) : List Event :=
  match Definition.read ts with
  | .error _ => []
  | .ok d => itemEvents d.items

end Draft

end SqlTables
