import SqlTables.Creation.Table
import SqlTables.Script.Render

/-! Scripts that create one table or many. No script is written for a table that breaks a rule. -/

namespace SqlTables.Creation

open Script (Statement)

def tableScript (o : Options) (t : Table) : String := Script.render o.dialect (statements o t)

def single (o : Options) (t : Table) : Except SchemaError String :=
  match t.validate with
  | .error e => .error e
  | .ok () => .ok (tableScript o t)

def header (o : Options) (count : Nat) : List Statement :=
  [rule, .note ("Target: " ++ o.dialect.title ++ " " ++ o.version),
    .note ("Tables: " ++ toString count)]
    ++ o.generatedAt.toList.map (fun time => .note ("Generated at: " ++ time))
    ++ [rule]

def foreignKeyChecks (enabled : Bool) : Statement :=
  .setVariable "FOREIGN_KEY_CHECKS" (if enabled then "1" else "0")

/-- Statements before all tables. MySQL leaves foreign keys unchecked until the end. -/
def prologue (o : Options) : List Statement :=
  (if o.includeCharset then [.setNames o.charset o.collation] else []) ++ [foreignKeyChecks false]

def sections (o : Options) (ts : List Table) : List String :=
  let render := Script.render o.dialect
  if o.dialect = .mysql then
    [render (header o ts.length), render (prologue o)] ++ ts.map (tableScript o)
      ++ [render [foreignKeyChecks true]]
  else render (header o ts.length) :: ts.map (tableScript o)

def batchFault? (ts : List Table) : Option SchemaError := ts.findSome? Table.fault?

def batch (o : Options) (ts : List Table) : Except SchemaError String :=
  match batchFault? ts with
  | some e => .error e
  | none => .ok ("\n\n".intercalate (sections o ts))

def refusal (t : Table) (e : SchemaError) : String :=
  "Cannot generate SQL for table '" ++ t.name ++ "': " ++ e.message

def batchRefusal (e : SchemaError) : String := "Cannot generate SQL batch: " ++ e.message

def singleEvents (o : Options) (t : Table) : List Event :=
  if t.fault?.isSome then [] else events o t

def batchEvents (o : Options) (ts : List Table) : List Event :=
  if (batchFault? ts).isSome then []
  else
    ts.flatMap fun t =>
      ⟨.debug, "Generating " ++ o.dialect.title ++ " DDL for table '" ++ t.name ++ "'"⟩
        :: events o t

end SqlTables.Creation
