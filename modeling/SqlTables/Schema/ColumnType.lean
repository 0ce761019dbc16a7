import SqlTables.Text.Basic
import SqlTables.Text.UpperCase

/-! Column types, free of any one database. A type is found by any of its usual spellings, in any
letter case and spacing; a name that is not known stands for itself. -/

namespace SqlTables

inductive ColumnType where
  | tinyInt | smallInt | mediumInt | int | bigInt
  | float | double | decimal | numeric
  | boolean | bit
  | char | varChar
  | tinyText | text | mediumText | longText
  | binary | varBinary | tinyBlob | blob | mediumBlob | longBlob
  | date | time | dateTime | timestamp | year
  | json | enum | set
  | custom (name : String)
deriving Repr, DecidableEq, Inhabited

namespace ColumnType

def name : ColumnType → String
  | .tinyInt => "TINYINT"
  | .smallInt => "SMALLINT"
  | .mediumInt => "MEDIUMINT"
  | .int => "INT"
  | .bigInt => "BIGINT"
  | .float => "FLOAT"
  | .double => "DOUBLE"
  | .decimal => "DECIMAL"
  | .numeric => "NUMERIC"
  | .boolean => "BOOLEAN"
  | .bit => "BIT"
  | .char => "CHAR"
  | .varChar => "VARCHAR"
  | .tinyText => "TINYTEXT"
  | .text => "TEXT"
  | .mediumText => "MEDIUMTEXT"
  | .longText => "LONGTEXT"
  | .binary => "BINARY"
  | .varBinary => "VARBINARY"
  | .tinyBlob => "TINYBLOB"
  | .blob => "BLOB"
  | .mediumBlob => "MEDIUMBLOB"
  | .longBlob => "LONGBLOB"
  | .date => "DATE"
  | .time => "TIME"
  | .dateTime => "DATETIME"
  | .timestamp => "TIMESTAMP"
  | .year => "YEAR"
  | .json => "JSON"
  | .enum => "ENUM"
  | .set => "SET"
  | .custom name => name

/-- Every spelling that is understood, in upper case with single spaces. -/
def spellings : List (String × ColumnType) := [
  ("TINYINT", .tinyInt), ("SMALLINT", .smallInt), ("INT2", .smallInt), ("MEDIUMINT", .mediumInt),
  ("INT", .int), ("INTEGER", .int), ("INT4", .int), ("BIGINT", .bigInt), ("INT8", .bigInt),
  ("FLOAT", .float), ("FLOAT4", .float), ("REAL", .float), ("DOUBLE", .double),
  ("DOUBLE PRECISION", .double), ("FLOAT8", .double), ("DECIMAL", .decimal), ("DEC", .decimal),
  ("FIXED", .decimal), ("NUMERIC", .numeric), ("BOOLEAN", .boolean), ("BOOL", .boolean),
  ("BIT", .bit), ("CHAR", .char), ("CHARACTER", .char), ("BPCHAR", .char), ("VARCHAR", .varChar),
  ("CHARACTER VARYING", .varChar), ("TINYTEXT", .tinyText), ("TEXT", .text),
  ("MEDIUMTEXT", .mediumText), ("LONGTEXT", .longText), ("BINARY", .binary),
  ("VARBINARY", .varBinary), ("TINYBLOB", .tinyBlob), ("BLOB", .blob), ("BYTEA", .blob),
  ("MEDIUMBLOB", .mediumBlob), ("LONGBLOB", .longBlob), ("DATE", .date), ("TIME", .time),
  ("TIME WITHOUT TIME ZONE", .time), ("TIME WITH TIME ZONE", .time), ("TIMETZ", .time),
  ("DATETIME", .dateTime), ("TIMESTAMP", .timestamp), ("TIMESTAMP WITHOUT TIME ZONE", .timestamp),
  ("TIMESTAMP WITH TIME ZONE", .timestamp), ("TIMESTAMPTZ", .timestamp), ("YEAR", .year),
  ("JSON", .json), ("JSONB", .json), ("ENUM", .enum), ("SET", .set)]

/-- Upper case, with one space between words and none around them. -/
def normalize (name : String) : String :=
  Text.upperCase (String.ofList (List.intercalate [' '] (Text.words name.toList)))

def ofName (name : String) : ColumnType :=
  let name := normalize name
  (spellings.lookup name).getD (.custom name)

def isCustom : ColumnType → Bool
  | .custom _ => true
  | _ => false

def isInteger : ColumnType → Bool
  | .tinyInt | .smallInt | .mediumInt | .int | .bigInt => true
  | _ => false

def isDecimal : ColumnType → Bool
  | .decimal | .numeric => true
  | _ => false

def isFloating : ColumnType → Bool
  | .float | .double => true
  | _ => false

def isNumeric (t : ColumnType) : Bool := t.isInteger || t.isDecimal || t.isFloating || t == .bit

def isCharacter : ColumnType → Bool
  | .char | .varChar => true
  | _ => false

def isText : ColumnType → Bool
  | .tinyText | .text | .mediumText | .longText => true
  | _ => false

def isBinary : ColumnType → Bool
  | .binary | .varBinary | .tinyBlob | .blob | .mediumBlob | .longBlob => true
  | _ => false

def isTemporal : ColumnType → Bool
  | .date | .time | .dateTime | .timestamp => true
  | _ => false

def acceptsSign (t : ColumnType) : Bool := t.isInteger || t.isDecimal || t.isFloating

end ColumnType

end SqlTables
