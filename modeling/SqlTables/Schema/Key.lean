/-! Keys and constraints of a table: indexes, references to other tables, and checks. -/

namespace SqlTables

inductive IndexKind where
  | normal | unique | fulltext | spatial
deriving Repr, DecidableEq, Inhabited

namespace IndexKind

def name : IndexKind → String
  | .normal => "NORMAL"
  | .unique => "UNIQUE"
  | .fulltext => "FULLTEXT"
  | .spatial => "SPATIAL"

def ofName? : String → Option IndexKind
  | "NORMAL" => some .normal
  | "UNIQUE" => some .unique
  | "FULLTEXT" => some .fulltext
  | "SPATIAL" => some .spatial
  | _ => none

theorem ofName?_name (k : IndexKind) : ofName? k.name = some k := by cases k <;> rfl

end IndexKind

structure Index where
  name : String
  kind : IndexKind
  fields : List String
deriving Repr, DecidableEq, Inhabited

def Index.isUniqueOn (i : Index) (column : String) : Bool :=
  i.kind == .unique && i.fields == [column]

structure ForeignKey where
  name : String
  fields : List String
  referencedTable : String
  referencedFields : List String
  onDelete : Option String := none
  onUpdate : Option String := none
deriving Repr, DecidableEq, Inhabited

structure Check where
  name : Option String := none
  expression : String
deriving Repr, DecidableEq, Inhabited

end SqlTables
