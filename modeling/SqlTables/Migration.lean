import SqlTables.Creation.Column
import SqlTables.Script.Render

/-! Migrations: the statements that turn the columns of one table into those of another. Columns are
matched by name; new and changed ones come first, dropped ones last. -/

namespace SqlTables.Migration

open Creation (columnDefinition columnEvents)
open Script (ColumnDefinition Operation Statement)

/-- PostgreSQL changes type, nullability and default one by one. -/
def stepwise (before after : ColumnDefinition) : List Operation :=
  (if before.type ≠ after.type then [.setType after.name after.type] else [])
    ++ (if before.nullable ≠ after.nullable then [.setNotNull after.name (!after.nullable)] else [])
    ++ (if before.default ≠ after.default then [.setDefault after.name after.default] else [])

/-- The operations for a column that is in both tables and differs. SQLite has none. -/
def changeOperations (o : Options) (old new : Table) (before after : Field) : List Operation :=
  match o.dialect with
  | .mysql => [.modifyColumn (columnDefinition o new after)]
  | .postgresql => stepwise (columnDefinition o old before) (columnDefinition o new after)
  | .sqlite => []

def changeStatements (o : Options) (new : Table) (before after : Field) : List Statement :=
  match o.dialect with
  | .mysql => []
  | .postgresql =>
    if o.includeComments && before.comment ≠ after.comment then
      [.commentOnColumn new.name after.name (after.comment.getD "")]
    else []
  | .sqlite =>
    [.note ("SQLite cannot modify column '" ++ after.name ++ "' in place, rebuild table '" ++
      new.name ++ "' to apply the change")]

/-- A column of the new table beside the one it replaces, if that differs. -/
inductive Step where
  | add (f : Field)
  | change (before after : Field)
  | drop (column : String)
deriving Repr, DecidableEq

def fieldStep? (old : Table) (f : Field) : Option Step :=
  match old.field? f.name with
  | none => some (.add f)
  | some before => if before = f then none else some (.change before f)

def steps (old new : Table) : List Step :=
  new.fields.filterMap (fieldStep? old) ++
    (old.fields.filter fun f => !new.hasField f.name).map fun f => .drop f.name

def Step.operations (o : Options) (old new : Table) : Step → List Operation
  | .add f => [.addColumn (columnDefinition o new f)]
  | .change before after => changeOperations o old new before after
  | .drop column => [.dropColumn column]

def Step.statements (o : Options) (new : Table) : Step → List Statement
  | .change before after => changeStatements o new before after
  | _ => []

def operations (o : Options) (old new : Table) : List Operation :=
  (steps old new).flatMap (·.operations o old new)

def statements (o : Options) (old new : Table) : List Statement :=
  let operations := operations o old new
  (if operations.isEmpty then [] else [.alterTable new.name operations])
    ++ (steps old new).flatMap (·.statements o new)

def script (o : Options) (old new : Table) : String :=
  Script.render o.dialect (statements o old new)

def Step.events (o : Options) (old new : Table) : Step → List Event
  | .add f => columnEvents new f
  | .change before after =>
    match o.dialect with
    | .mysql => columnEvents new after
    | .postgresql => columnEvents old before ++ columnEvents new after
    | .sqlite => []
  | .drop _ => []

def events (o : Options) (old new : Table) : List Event :=
  (steps old new).flatMap (·.events o old new)

end SqlTables.Migration
