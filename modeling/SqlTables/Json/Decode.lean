import SqlTables.Json.Value

/-! Reading records out of JSON objects, or out of arrays of their members. Unknown keys are passed
over, a known key stands at most once, and null counts as absent for optional members only. -/

namespace SqlTables.Json

abbrev Members := List (String × Json)

def string? : Json → Option String
  | .str s => some s
  | _ => none

def bool? : Json → Option Bool
  | .bool b => some b
  | _ => none

def uint32? : Json → Option UInt32
  | .int n => if 0 ≤ n ∧ n < UInt32.size then some (UInt32.ofNat n.toNat) else none
  | _ => none

def uint64? : Json → Option UInt64
  | .int n => if 0 ≤ n ∧ n < UInt64.size then some (UInt64.ofNat n.toNat) else none
  | _ => none

def list? {α : Type} (read : Json → Option α) : Json → Option (List α)
  | .arr items => items.mapM read
  | _ => none

/-- The name of a constant: a string, or an object whose only member has that key and is null. -/
def constant? : Json → Option String
  | .str s => some s
  | .obj [(s, .null)] => some s
  | _ => none

/-- The members of an object in which each of the known keys stands at most once. An array gives the
known keys their values in order, and may end before the last. -/
def record? (known : List String) : Json → Option Members
  | .obj ms => if known.all fun k => ms.countP (·.1 = k) ≤ 1 then some ms else none
  | .arr items => if items.length ≤ known.length then some (known.zip items) else none
  | _ => none

namespace Members

def required {α : Type} (ms : Members) (key : String) (read : Json → Option α) : Option α :=
  (ms.lookup key).bind read

def withDefault {α : Type} (ms : Members) (key : String) (default : α) (read : Json → Option α) :
    Option α :=
  match ms.lookup key with
  | none => some default
  | some v => read v

def optional {α : Type} (ms : Members) (key : String) (read : Json → Option α) :
    Option (Option α) :=
  match ms.lookup key with
  | none => some none
  | some .null => some none
  | some v => (read v).map some

end Members

def optionalMember {α : Type} (key : String) (write : α → Json) : Option α → Members
  | none => []
  | some a => [(key, write a)]

def listMember {α : Type} (key : String) (write : α → Json) : List α → Members
  | [] => []
  | as => [(key, .arr (as.map write))]

def strings (names : List String) : Json := .arr (names.map .str)

end SqlTables.Json
