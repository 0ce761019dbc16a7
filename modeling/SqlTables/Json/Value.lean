/-! JSON values. Integers stand apart from numbers written with a fraction or an exponent, and the
members of an object keep their order. -/

namespace SqlTables

inductive Json where
  | null
  | bool (b : Bool)
  | int (n : Int)
  | real (mantissa exponent : Int)
  | str (s : String)
  | arr (items : List Json)
  | obj (members : List (String × Json))
deriving Inhabited

namespace Json

mutual

def depth : Json → Nat
  | .arr items => depthItems items + 1
  | .obj members => depthMembers members + 1
  | _ => 0

def depthItems : List Json → Nat
  | [] => 0
  | v :: rest => max v.depth (depthItems rest)

def depthMembers : List (String × Json) → Nat
  | [] => 0
  | (_, v) :: rest => max v.depth (depthMembers rest)

end

/-- Numbers of this size and above do not round to a finite double: the midpoint of the largest
double and the next power of two. -/
def doubleLimit : Nat := Nat.pow 2 1024 - Nat.pow 2 970

/-- Whether `mantissa * 10 ^ exponent` rounds to a finite double. A power of ten that is larger than
the mantissa is as good as any larger one. -/
def isFiniteDouble (mantissa exponent : Int) : Bool :=
  let size := mantissa.natAbs
  if size = 0 then true
  else if exponent < 0 then
    size < doubleLimit * Nat.pow 10 (min exponent.natAbs (size.log2 + 1))
  else exponent ≤ 308 && size * Nat.pow 10 exponent.natAbs < doubleLimit

mutual

def allFinite : Json → Bool
  | .int n => isFiniteDouble n 0
  | .real m e => isFiniteDouble m e
  | .arr items => allFiniteItems items
  | .obj members => allFiniteMembers members
  | _ => true

def allFiniteItems : List Json → Bool
  | [] => true
  | v :: rest => v.allFinite && allFiniteItems rest

def allFiniteMembers : List (String × Json) → Bool
  | [] => true
  | (_, v) :: rest => v.allFinite && allFiniteMembers rest

end

end Json

end SqlTables
