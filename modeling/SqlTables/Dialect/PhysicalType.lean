import SqlTables.Dialect.Basic
import SqlTables.Schema.Field

/-! The type that a database gives a column. MySQL keeps the type's name and parameters, PostgreSQL
counts by serial types, and SQLite knows few types and drops the parameters. -/

namespace SqlTables.Dialect

def sized (name : String) (n : UInt32) : String := name ++ "(" ++ toString n.toNat ++ ")"

def withLength (name : String) : Option UInt32 → String
  | some n => sized name n
  | none => name

def varCharOf (f : Field) : String := sized "VARCHAR" (f.length.getD 255)

def withSizes (name : String) : Option UInt32 → Option UInt32 → String
  | some n, some s => name ++ "(" ++ toString n.toNat ++ "," ++ toString s.toNat ++ ")"
  | some n, none => sized name n
  | none, _ => name

def withParameters (name : String) (f : Field) : String :=
  withSizes name (if f.type.isDecimal then f.effectivePrecision else f.length) f.scale

/-- The members of an `ENUM` or `SET`, quoted. Backslashes stay single. -/
def memberList (members : List String) : String :=
  "(" ++ ",".intercalate (members.map fun v => enclose '\x27' v.toList) ++ ")"

/-- The name and parameters. Without a native JSON type, JSON is text. -/
def mysqlBaseType (nativeJson : Bool) (f : Field) : String :=
  match f.type with
  | .varChar => varCharOf f
  | .json => if nativeJson then withParameters "JSON" f else "LONGTEXT"
  | .enum => "ENUM" ++ memberList f.members
  | .set => "SET" ++ memberList f.members
  | type => withParameters type.name f

def mysqlType (nativeJson : Bool) (f : Field) : String :=
  mysqlBaseType nativeJson f
    ++ (if f.type.acceptsSign && f.unsigned then " UNSIGNED" else "")
    ++ (if f.type.acceptsSign && f.zerofill then " ZEROFILL" else "")

def postgresqlType (f : Field) : String :=
  match f.type with
  | .tinyInt | .smallInt => if f.autoIncrement then "SMALLSERIAL" else "SMALLINT"
  | .mediumInt | .int => if f.autoIncrement then "SERIAL" else "INTEGER"
  | .bigInt => if f.autoIncrement then "BIGSERIAL" else "BIGINT"
  | .float => "REAL"
  | .double => "DOUBLE PRECISION"
  | .decimal | .numeric =>
    match f.effectivePrecision with
    | none => withSizes f.type.name (some 10) (some 2)
    | some p => withSizes f.type.name (some p) f.scale
  | .boolean => "BOOLEAN"
  | .bit => withLength "BIT" f.length
  | .char => withLength "CHAR" f.length
  | .varChar => varCharOf f
  | .tinyText | .text | .mediumText | .longText => "TEXT"
  | .binary | .varBinary | .tinyBlob | .blob | .mediumBlob | .longBlob => "BYTEA"
  | .date => "DATE"
  | .time => "TIME"
  | .dateTime | .timestamp => "TIMESTAMP"
  | .year => "INTEGER"
  | .json => "JSONB"
  | .enum | .set => "TEXT"
  | .custom name => withParameters name f

def sqliteType (f : Field) : String :=
  match f.type with
  | .tinyInt | .smallInt | .mediumInt | .int | .bigInt | .boolean | .bit | .year => "INTEGER"
  | .float | .double | .decimal | .numeric => "REAL"
  | .char | .varChar | .tinyText | .text | .mediumText | .longText | .json | .enum | .set => "TEXT"
  | .binary | .varBinary | .tinyBlob | .blob | .mediumBlob | .longBlob => "BLOB"
  | .date => "DATE"
  | .time => "TIME"
  | .dateTime => "DATETIME"
  | .timestamp => "TIMESTAMP"
  | .custom name => name

def physicalType (d : Dialect) (nativeJson : Bool) (f : Field) : String :=
  match d with
  | .mysql => mysqlType nativeJson f
  | .postgresql => postgresqlType f
  | .sqlite => sqliteType f

end SqlTables.Dialect
