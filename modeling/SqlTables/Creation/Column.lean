import SqlTables.Dialect.DefaultText
import SqlTables.Dialect.PhysicalType
import SqlTables.Options
import SqlTables.Report
import SqlTables.Schema.Table
import SqlTables.Script.Statement

/-! Column definitions. A column counts by itself only in the primary key, and only if the options
include that. -/

namespace SqlTables.Creation

def effectiveField (o : Options) (f : Field) : Field :=
  { f with autoIncrement := f.autoIncrement && f.inPrimaryKey && o.includeAutoIncrement }

/-- Whether the primary key is declared with its column, as SQLite needs it to count an integer
column. -/
def inlinesPrimaryKey (o : Options) (t : Table) : Bool :=
  o.dialect == .sqlite && o.includeAutoIncrement &&
    t.solePrimaryKey?.any fun f => f.autoIncrement && f.type.isInteger

def columnOptions (o : Options) (t : Table) (f : Field) : List Script.ColumnOption :=
  match o.dialect with
  | .mysql =>
    (if f.autoIncrement then [.autoIncrement] else []) ++ f.onUpdate.toList.map .onUpdate
      ++ (if o.includeComments then f.comment.toList.map .comment else [])
  | .postgresql => []
  | .sqlite => if f.autoIncrement && inlinesPrimaryKey o t then [.primaryKeyAutoIncrement] else []

def columnDefinition (o : Options) (t : Table) (f : Field) : Script.ColumnDefinition :=
  let f := effectiveField o f
  { name := f.name
    type := o.dialect.physicalType o.nativeJson f
    nullable := f.nullable
    default := f.default.map (o.dialect.defaultText f.type)
    options := columnOptions o t f }

def columnEvents (t : Table) (f : Field) : List Event :=
  if f.autoIncrement && !f.inPrimaryKey then
    [⟨.warn, "Ignoring auto-increment on '" ++ t.name ++ "." ++ f.name ++
      "', which is not a primary key column"⟩]
  else []

end SqlTables.Creation
