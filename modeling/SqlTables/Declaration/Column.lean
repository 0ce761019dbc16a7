import SqlTables.Declaration.Attribute
import SqlTables.Schema.Key
import SqlTables.Text.Basic

/-! A column declaration: its name, its type with parameters, and its attributes. -/

namespace SqlTables.Declaration

inductive TypeParameter where
  | size (n : UInt32)
  | member (value : String)
  | oversized (text : String)
  | unknown
deriving Repr, DecidableEq

namespace TypeParameter

def read (part : List Token) : TypeParameter :=
  match part with
  | [] => .unknown
  | t :: _ =>
    match t.kind with
    | .number text =>
      match Text.uint32? text.toList with
      | some n => .size n
      | none => .oversized text
    | .string value => .member value
    | _ => .unknown

def size? : TypeParameter → Option UInt32
  | .size n => some n
  | _ => none

def member? : TypeParameter → Option String
  | .member value => some value
  | _ => none

def event? (column : String) : TypeParameter → Option Event
  | .oversized text =>
    some ⟨.debug, "Ignoring type parameter '" ++ text ++ "' of column '" ++ column ++ "'"⟩
  | .unknown => some ⟨.debug, "Ignoring type parameter of column '" ++ column ++ "'"⟩
  | _ => none

end TypeParameter

structure DeclaredType where
  type : ColumnType
  serial : Bool
  parameters : List TypeParameter
deriving Repr, DecidableEq

namespace DeclaredType

def longNames : List (String × String × String) := [
  ("DOUBLE", "PRECISION", "DOUBLE PRECISION"),
  ("CHARACTER", "VARYING", "CHARACTER VARYING"),
  ("CHAR", "VARYING", "CHARACTER VARYING")]

def name? (ts : List Token) : Option (String × List Token) := do
  let (t, rest) ← take? ts
  match t.kind with
  | .word text =>
    let name := Text.upperCase text
    let long := longNames.findSome? fun (first, second, both) =>
      if name = first then (keyword? second rest).map (both, ·) else none
    return long.getD (name, rest)
  | _ => none

def readParameters (ts : List Token) : List TypeParameter × List Token :=
  match group? ts with
  | some (g, rest) => ((splitCommas 0 g.inside).map TypeParameter.read, rest)
  | none => ([], ts)

def skipZone (name : String) (ts : List Token) : List Token :=
  if name = "TIME" ∨ name = "TIMESTAMP" then
    skipOneOf [["WITH", "TIME", "ZONE"], ["WITHOUT", "TIME", "ZONE"]] ts
  else ts

def serialType? : String → Option ColumnType
  | "SERIAL" | "SERIAL4" => some .int
  | "BIGSERIAL" | "SERIAL8" => some .bigInt
  | "SMALLSERIAL" | "SERIAL2" => some .smallInt
  | _ => none

def read? (ts : List Token) : Option (DeclaredType × List Token) := do
  let (name, rest) ← name? ts
  let (parameters, rest) := readParameters rest
  let rest := skipZone name rest
  match serialType? name with
  | some type => return (⟨type, true, parameters⟩, rest)
  | none => return (⟨.ofName name, false, parameters⟩, rest)

end DeclaredType

structure Column where
  name : String
  type : DeclaredType
  attributes : List Attribute
deriving Repr, DecidableEq

namespace Column

/-- The column before its attributes. A first size is the precision of a fixed-point type and the
length of any other, a second one is the scale. -/
def bareField (c : Column) : Field :=
  let sizes := c.type.parameters.filterMap TypeParameter.size?
  let decimal := c.type.type.isDecimal
  { name := c.name
    type := c.type.type
    autoIncrement := c.type.serial
    length := if decimal then none else sizes[0]?
    precision := if decimal then sizes[0]? else none
    scale := sizes[1]?
    members := c.type.parameters.filterMap TypeParameter.member? }

def field (c : Column) : Field := c.attributes.foldl Attribute.apply c.bareField

def foreignKeys (table : String) (c : Column) : List ForeignKey :=
  (c.attributes.filterMap Attribute.reference?).map fun r =>
    ⟨"fk_" ++ table ++ "_" ++ c.name, [c.name], r.table, r.fields, r.onDelete, r.onUpdate⟩

def checks (c : Column) : List Check :=
  (c.attributes.filterMap Attribute.check?).map fun expression => ⟨none, expression⟩

def events (c : Column) : List Event :=
  c.type.parameters.filterMap (TypeParameter.event? c.name) ++
    c.attributes.filterMap (Attribute.event? c.name)

/-- The column as far as it can be read, and whether that is all of it. -/
def read? (ts : List Token) : Option (Column × Bool) := do
  let (name, rest) ← Declaration.name? ts
  let (type, rest) ← DeclaredType.read? rest
  let (attributes, complete) := Attribute.readAll rest
  return (⟨name, type, attributes⟩, complete)

end Column

end SqlTables.Declaration
