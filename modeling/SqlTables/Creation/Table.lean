import SqlTables.Creation.Column
import SqlTables.Creation.Keys

/-! The statements that create a table. -/

namespace SqlTables.Creation

open Script (Constraint TableOption Statement)

def primaryKey (o : Options) (t : Table) : List Constraint :=
  if t.primaryKeyFields.isEmpty || inlinesPrimaryKey o t then []
  else [.primaryKey (t.primaryKeyFields.map (·.name))]

def constraints (o : Options) (t : Table) : List Constraint :=
  primaryKey o t ++ (keyPlan o t).constraints ++ t.foreignKeys.map .foreignKey
    ++ t.checks.map .check

/-- What MySQL states after the column list. The table's own values go before the options'. -/
def tableOptions (o : Options) (t : Table) : List TableOption :=
  if o.dialect ≠ .mysql then []
  else
    [.engine ((t.engine.or o.engine).getD "InnoDB")]
      ++ (if o.includeAutoIncrement then t.autoIncrementStart.toList.map .autoIncrement else [])
      ++ (if o.includeCharset then
          [.charset (t.charset.getD o.charset), .collate (t.collation.getD o.collation)]
        else [])
      ++ t.rowFormat.toList.map .rowFormat
      ++ t.tableSpace.toList.map .tableSpace
      ++ (if o.includeComments then t.comment.toList.map .comment else [])

def commentStatements (o : Options) (t : Table) : List Statement :=
  if o.dialect = .postgresql ∧ o.includeComments then
    t.comment.toList.map (.commentOnTable t.name) ++
      t.fields.flatMap fun f => f.comment.toList.map (.commentOnColumn t.name f.name)
  else []

def rule : Statement := .note "----------------------------"

def heading (o : Options) (t : Table) : List Statement :=
  if o.includeComments then [rule, .note (t.name ++ " 表结构"), rule] else []

def createTable (o : Options) (t : Table) : Script.CreateTable where
  table := t.name
  ifNotExists := o.includeIfNotExists
  columns := t.fields.map (columnDefinition o t)
  constraints := constraints o t
  options := tableOptions o t

def statements (o : Options) (t : Table) : List Statement :=
  heading o t
    ++ (if o.includeDropTable then [.dropTable t.name true] else [])
    ++ [.createTable (createTable o t)]
    ++ (keyPlan o t).indexes.map .createIndex
    ++ commentStatements o t

def events (o : Options) (t : Table) : List Event :=
  keyEvents o t ++ t.fields.flatMap (columnEvents t)

end SqlTables.Creation
