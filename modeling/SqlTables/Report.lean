import SqlTables.Schema.Table
import SqlTables.Token.Scan

/-! What is said of an input: why it could not be read, with places relative to the text that was
handed in, and on the side what was skipped, weakened or counted. -/

namespace SqlTables

inductive ParseError where
  | scan (e : ScanError)
  | missingHeader
  | unterminatedColumnList (line column : Nat)
  | unreadableItem (fragment : String) (line column : Nat)
  | schema (e : SchemaError)
  | noTables
deriving Repr, DecidableEq

def ParseError.message : ParseError → String
  | .scan e => e.message
  | .missingHeader => "No `CREATE TABLE <name> (` header found"
  | .unterminatedColumnList line column =>
    "Column list opened at line " ++ toString line ++ ", column " ++ toString column ++
      " is never closed"
  | .unreadableItem fragment line column =>
    "Cannot parse column list item '" ++ fragment ++ "' at line " ++ toString line ++ ", column " ++
      toString column
  | .schema e => e.message
  | .noTables => "No valid table definitions found"

inductive Level where
  | debug | info | warn
deriving Repr, DecidableEq

def Level.name : Level → String
  | .debug => "DEBUG"
  | .info => "INFO"
  | .warn => "WARN"

structure Event where
  level : Level
  message : String
deriving Repr, DecidableEq

end SqlTables
