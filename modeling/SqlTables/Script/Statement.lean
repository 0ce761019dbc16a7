import SqlTables.Schema.Key

/-! Statements of a script, as trees. Types, defaults and expressions are already in the dialect's
words; names and comments are plain text. -/

namespace SqlTables.Script

inductive ColumnOption where
  | autoIncrement
  | primaryKeyAutoIncrement
  | onUpdate (expression : String)
  | comment (text : String)
deriving Repr, DecidableEq

structure ColumnDefinition where
  name : String
  type : String
  nullable : Bool
  default : Option String := none
  options : List ColumnOption := []
deriving Repr, DecidableEq

inductive Constraint where
  | primaryKey (columns : List String)
  | key (kind : IndexKind) (name : String) (columns : List String)
  | unique (name : Option String) (columns : List String)
  | foreignKey (k : ForeignKey)
  | check (c : Check)
deriving Repr, DecidableEq

inductive TableOption where
  | engine (name : String)
  | autoIncrement (start : UInt64)
  | charset (name : String)
  | collate (name : String)
  | rowFormat (name : String)
  | tableSpace (name : String)
  | comment (text : String)
deriving Repr, DecidableEq

structure CreateTable where
  table : String
  ifNotExists : Bool
  columns : List ColumnDefinition
  constraints : List Constraint
  options : List TableOption
deriving Repr, DecidableEq

structure CreateIndex where
  name : String
  table : String
  columns : List String
  ifNotExists : Bool
  method : Option String
deriving Repr, DecidableEq

inductive Operation where
  | addColumn (c : ColumnDefinition)
  | modifyColumn (c : ColumnDefinition)
  | dropColumn (column : String)
  | setType (column type : String)
  | setNotNull (column : String) (notNull : Bool)
  /-- Without a value the default is dropped. -/
  | setDefault (column : String) (value : Option String)
deriving Repr, DecidableEq

inductive Statement where
  | note (text : String)
  | dropTable (table : String) (ifExists : Bool)
  | createTable (t : CreateTable)
  | createIndex (i : CreateIndex)
  | commentOnTable (table text : String)
  | commentOnColumn (table column text : String)
  | alterTable (table : String) (operations : List Operation)
  | setNames (charset collation : String)
  | setVariable (name value : String)
deriving Repr, DecidableEq

end SqlTables.Script
