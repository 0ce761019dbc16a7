import SqlTables.Dialect.Basic
import SqlTables.Json.Decode
import SqlTables.Json.Reader
import SqlTables.Text.Basic

/-! Options of a script: for which database and server, and what it includes. As JSON every option
may be left out. -/

namespace SqlTables

structure Options where
  dialect : Dialect := .mysql
  version : String := "8.0"
  includeDropTable : Bool := true
  includeIfNotExists : Bool := true
  includeComments : Bool := true
  includeAutoIncrement : Bool := true
  includeCharset : Bool := true
  charset : String := "utf8mb4"
  collation : String := "utf8mb4_unicode_ci"
  engine : Option String := none
  generatedAt : Option String := none
deriving Repr, DecidableEq, Inhabited

namespace Options

def leadingNumber? (cs : List Char) : Option UInt32 := Text.uint32? (cs.takeWhile Char.isDigit)

/-- Major and minor number of the version, if it begins with one, perhaps after a `v`. -/
def versionNumber? (o : Options) : Option (UInt32 × UInt32) :=
  let cs := (Text.trim o.version.toList).dropWhile fun c => c = 'v' || c = 'V'
  (leadingNumber? (cs.takeWhile (· ≠ '.'))).map fun major =>
    (major, (leadingNumber? ((cs.dropWhile (· ≠ '.')).drop 1)).getD 0)

/-- Whether the server has a JSON type, as MySQL does from 5.7. A version unknown counts as new. -/
def nativeJson (o : Options) : Bool :=
  match o.versionNumber? with
  | none => true
  | some (major, minor) => 5 < major || major == 5 && 7 ≤ minor

open Json (record? optionalMember string? bool?)

def keys : List String := [
  "dialect", "version", "includeDropTable", "includeIfNotExists", "includeComments",
  "includeAutoIncrement", "includeCharset", "charset", "collation", "engine", "generatedAt"]

def ofJson? (v : Json) : Option Options := do
  let ms ← record? keys v
  return {
    dialect := ← ms.withDefault "dialect" .mysql fun v =>
      (Json.constant? v).bind Dialect.ofExactName?
    version := ← ms.withDefault "version" "8.0" string?
    includeDropTable := ← ms.withDefault "includeDropTable" true bool?
    includeIfNotExists := ← ms.withDefault "includeIfNotExists" true bool?
    includeComments := ← ms.withDefault "includeComments" true bool?
    includeAutoIncrement := ← ms.withDefault "includeAutoIncrement" true bool?
    includeCharset := ← ms.withDefault "includeCharset" true bool?
    charset := ← ms.withDefault "charset" "utf8mb4" string?
    collation := ← ms.withDefault "collation" "utf8mb4_unicode_ci" string?
    engine := ← ms.optional "engine" string?
    generatedAt := ← ms.optional "generatedAt" string? }

def toJson (o : Options) : Json := .obj <|
  [("dialect", .str o.dialect.name), ("version", .str o.version),
    ("includeDropTable", .bool o.includeDropTable),
    ("includeIfNotExists", .bool o.includeIfNotExists),
    ("includeComments", .bool o.includeComments),
    ("includeAutoIncrement", .bool o.includeAutoIncrement),
    ("includeCharset", .bool o.includeCharset), ("charset", .str o.charset),
    ("collation", .str o.collation)]
    ++ optionalMember "engine" .str o.engine
    ++ optionalMember "generatedAt" .str o.generatedAt

def parse? (text : String) : Option Options := (Json.parse? text).bind ofJson?

end Options

end SqlTables
