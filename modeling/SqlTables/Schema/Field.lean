import SqlTables.Schema.ColumnType

/-! A column of a table. -/

namespace SqlTables

structure Field where
  name : String
  type : ColumnType
  length : Option UInt32 := none
  precision : Option UInt32 := none
  scale : Option UInt32 := none
  nullable : Bool := true
  /-- The default as written, without the quotes around a literal. -/
  default : Option String := none
  comment : Option String := none
  inPrimaryKey : Bool := false
  autoIncrement : Bool := false
  unique : Bool := false
  indexed : Bool := false
  unsigned : Bool := false
  zerofill : Bool := false
  members : List String := []
  onUpdate : Option String := none
deriving Repr, DecidableEq, Inhabited

namespace Field

def withLength (f : Field) (n : UInt32) : Field := { f with length := some n }

def withPrecision (f : Field) (precision : UInt32) (scale : Option UInt32) : Field :=
  { f with precision := some precision, scale := scale }

def notNull (f : Field) : Field := { f with nullable := false }

def asPrimaryKey (f : Field) : Field := { f with inPrimaryKey := true }

def asAutoIncrement (f : Field) : Field := { f with autoIncrement := true }

def asUnique (f : Field) : Field := { f with unique := true }

def asUnsigned (f : Field) : Field := { f with unsigned := true }

def withDefault (f : Field) (value : String) : Field := { f with default := some value }

def withComment (f : Field) (text : String) : Field := { f with comment := some text }

/-- The digits of a fixed-point number; a bare length counts as them. -/
def effectivePrecision (f : Field) : Option UInt32 := f.precision.or f.length

end Field

end SqlTables
