import SqlTables.Text.Basic

/-! The databases that scripts are written for, and how each quotes names and strings. -/

namespace SqlTables

inductive Dialect where
  | mysql | postgresql | sqlite
deriving Repr, DecidableEq, Inhabited

namespace Dialect

def name : Dialect → String
  | .mysql => "mysql"
  | .postgresql => "postgresql"
  | .sqlite => "sqlite"

def title : Dialect → String
  | .mysql => "MySQL"
  | .postgresql => "PostgreSQL"
  | .sqlite => "SQLite"

def names : List (String × Dialect) := [
  ("mysql", .mysql), ("postgresql", .postgresql), ("postgres", .postgresql), ("pg", .postgresql),
  ("sqlite", .sqlite)]

def ofExactName? (name : String) : Option Dialect := names.lookup name

/-- The dialect of a name in any letter case, blanks around it aside. -/
def ofName? (name : String) : Option Dialect :=
  ofExactName? (String.ofList ((Text.trim name.toList).map Char.toLower))

def unknownMessage (name : String) : String :=
  "Unknown dialect '" ++ name ++ "', expected mysql, postgresql or sqlite"

def double (c : Char) (cs : List Char) : List Char :=
  cs.flatMap fun d => if d = c then [d, d] else [d]

def enclose (quote : Char) (cs : List Char) : String :=
  String.ofList (quote :: double quote cs ++ [quote])

def quoteName (d : Dialect) (name : String) : String :=
  match d with
  | .mysql => enclose '\x60' name.toList
  | .postgresql => enclose '\x22' name.toList
  | .sqlite => name

/-- MySQL reads backslashes as escapes, so there they are doubled before the quotes. -/
def quoteString (d : Dialect) (value : String) : String :=
  match d with
  | .mysql => enclose '\x27' (double '\\' value.toList)
  | _ => enclose '\x27' value.toList

def nameList (d : Dialect) (names : List String) : String :=
  "(" ++ ", ".intercalate (names.map d.quoteName) ++ ")"

end Dialect

end SqlTables
