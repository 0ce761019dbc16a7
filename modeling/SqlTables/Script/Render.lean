import SqlTables.Dialect.Basic
import SqlTables.Script.Statement

/-! The text of a script. Every name and string in it is quoted by the dialect. -/

namespace SqlTables.Script

def given {α : Type} (write : α → String) : Option α → String
  | none => ""
  | some a => write a

def ColumnOption.render (d : Dialect) : ColumnOption → String
  | .autoIncrement => "AUTO_INCREMENT"
  | .primaryKeyAutoIncrement => "PRIMARY KEY AUTOINCREMENT"
  | .onUpdate expression => "ON UPDATE " ++ expression
  | .comment text => "COMMENT " ++ d.quoteString text

def ColumnDefinition.render (d : Dialect) (c : ColumnDefinition) : String :=
  d.quoteName c.name ++ " " ++ c.type
    ++ (if c.nullable then "" else " NOT NULL")
    ++ given (" DEFAULT " ++ ·) c.default
    ++ String.join (c.options.map fun o => " " ++ o.render d)

def keyWords : IndexKind → String
  | .normal => "KEY "
  | .unique => "UNIQUE KEY "
  | .fulltext => "FULLTEXT KEY "
  | .spatial => "SPATIAL KEY "

def constraintName (d : Dialect) : Option String → String :=
  given fun name => "CONSTRAINT " ++ d.quoteName name ++ " "

def Constraint.render (d : Dialect) : Constraint → String
  | .primaryKey columns => "PRIMARY KEY " ++ d.nameList columns
  | .key kind name columns => keyWords kind ++ d.quoteName name ++ " " ++ d.nameList columns
  | .unique name columns => constraintName d name ++ "UNIQUE " ++ d.nameList columns
  | .foreignKey k =>
    constraintName d (some k.name) ++ "FOREIGN KEY " ++ d.nameList k.fields
      ++ " REFERENCES " ++ d.quoteName k.referencedTable
      -- without columns the primary key is meant
      ++ (if k.referencedFields.isEmpty then "" else " " ++ d.nameList k.referencedFields)
      ++ given (" ON DELETE " ++ ·) k.onDelete
      ++ given (" ON UPDATE " ++ ·) k.onUpdate
  | .check c => constraintName d c.name ++ "CHECK (" ++ c.expression ++ ")"

def TableOption.render (d : Dialect) : TableOption → String
  | .engine name => "ENGINE = " ++ name
  | .autoIncrement start => "AUTO_INCREMENT = " ++ toString start.toNat
  | .charset name => "DEFAULT CHARSET = " ++ name
  | .collate name => "COLLATE = " ++ name
  | .rowFormat name => "ROW_FORMAT = " ++ name
  | .tableSpace name => "TABLESPACE " ++ name
  | .comment text => "COMMENT = " ++ d.quoteString text

def CreateTable.render (d : Dialect) (t : CreateTable) : String :=
  let lines := t.columns.map (·.render d) ++ t.constraints.map (·.render d)
  "CREATE TABLE " ++ (if t.ifNotExists then "IF NOT EXISTS " else "") ++ d.quoteName t.table ++ " ("
    ++ ",".intercalate (lines.map ("\n\t" ++ ·))
    ++ "\n)" ++ String.join (t.options.map fun o => " " ++ o.render d) ++ ";"

def CreateIndex.render (d : Dialect) (i : CreateIndex) : String :=
  "CREATE INDEX " ++ (if i.ifNotExists then "IF NOT EXISTS " else "") ++ d.quoteName i.name
    ++ " ON " ++ d.quoteName i.table ++ " " ++ given (fun m => "USING " ++ m ++ " ") i.method
    ++ d.nameList i.columns ++ ";"

def Operation.render (d : Dialect) : Operation → String
  | .addColumn c => "ADD COLUMN " ++ c.render d
  | .modifyColumn c => "MODIFY COLUMN " ++ c.render d
  | .dropColumn column => "DROP COLUMN " ++ d.quoteName column
  | .setType column type => "ALTER COLUMN " ++ d.quoteName column ++ " TYPE " ++ type
  | .setNotNull column notNull =>
    "ALTER COLUMN " ++ d.quoteName column ++ (if notNull then " SET NOT NULL" else " DROP NOT NULL")
  | .setDefault column (some value) =>
    "ALTER COLUMN " ++ d.quoteName column ++ " SET DEFAULT " ++ value
  | .setDefault column none => "ALTER COLUMN " ++ d.quoteName column ++ " DROP DEFAULT"

def alterTable (d : Dialect) (table : String) (operations : List Operation) : String :=
  "\n".intercalate <| operations.map fun o =>
    "ALTER TABLE " ++ d.quoteName table ++ " " ++ o.render d ++ ";"

def Statement.render (d : Dialect) : Statement → String
  | .note text => "-- " ++ text
  | .dropTable table ifExists =>
    "DROP TABLE " ++ (if ifExists then "IF EXISTS " else "") ++ d.quoteName table ++ ";"
  | .createTable t => t.render d
  | .createIndex i => i.render d
  | .commentOnTable table text =>
    "COMMENT ON TABLE " ++ d.quoteName table ++ " IS " ++ d.quoteString text ++ ";"
  | .commentOnColumn table column text =>
    "COMMENT ON COLUMN " ++ d.quoteName table ++ "." ++ d.quoteName column ++ " IS "
      ++ d.quoteString text ++ ";"
  | .alterTable table operations => Script.alterTable d table operations
  | .setNames charset collation => "SET NAMES " ++ charset ++ " COLLATE " ++ collation ++ ";"
  | .setVariable name value => "SET " ++ name ++ " = " ++ value ++ ";"

def render (d : Dialect) (statements : List Statement) : String :=
  "\n".intercalate (statements.map (·.render d))

end SqlTables.Script
