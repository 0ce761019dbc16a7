import SqlTables.Json.Value
import SqlTables.Text.Basic

/-! Reading JSON text by the strict grammar: blanks are space, tab and line ends, a string holds no
raw control character, and nothing but blanks follows the value. -/

namespace SqlTables.Json.Reader

def skipBlanks (cs : List Char) : List Char :=
  cs.dropWhile fun c => c = ' ' || c = '\t' || c = '\n' || c = '\r'

def hexValue? (c : Char) : Option Nat :=
  if c.isDigit then some (c.toNat - 48)
  else if 'a' ≤ c && c ≤ 'f' then some (c.toNat - 87)
  else if 'A' ≤ c && c ≤ 'F' then some (c.toNat - 55)
  else none

def hex4? : List Char → Option (Nat × List Char)
  | a :: b :: c :: d :: rest => do
    let a ← hexValue? a
    let b ← hexValue? b
    let c ← hexValue? c
    let d ← hexValue? d
    some (((a * 16 + b) * 16 + c) * 16 + d, rest)
  | _ => none

/-- The character of a `\u` escape whose digits begin the text. A high surrogate needs a low one in
the escape after it. -/
def unicodeEscape? (cs : List Char) : Option (Char × List Char) := do
  let (hi, rest) ← hex4? cs
  if hi < 0xd800 || 0xdfff < hi then some (Char.ofNat hi, rest)
  else if 0xdbff < hi then none
  else
    match rest with
    | '\\' :: 'u' :: rest => do
      let (lo, rest) ← hex4? rest
      if lo < 0xdc00 || 0xdfff < lo then none
      else some (Char.ofNat (0x10000 + (hi - 0xd800) * 0x400 + (lo - 0xdc00)), rest)
    | _ => none

def escape? : List Char → Option (Char × List Char)
  | '\x22' :: rest => some ('\x22', rest)
  | '\\' :: rest => some ('\\', rest)
  | '/' :: rest => some ('/', rest)
  | 'b' :: rest => some ('\x08', rest)
  | 'f' :: rest => some ('\x0c', rest)
  | 'n' :: rest => some ('\n', rest)
  | 'r' :: rest => some ('\r', rest)
  | 't' :: rest => some ('\t', rest)
  | 'u' :: rest => unicodeEscape? rest
  | _ => none

/-- The content of a string and the text after its closing quote. Each round reads one character or
one escape, so the length of the text is fuel enough. -/
def stringBody : Nat → List Char → Option (List Char × List Char)
  | 0, _ => none
  | fuel + 1, cs =>
    match cs with
    | [] => none
    | '\x22' :: rest => some ([], rest)
    | '\\' :: rest => do
      let (c, rest) ← escape? rest
      let (body, rest) ← stringBody fuel rest
      some (c :: body, rest)
    | c :: rest => do
      if c.toNat < 32 then none
      else
        let (body, rest) ← stringBody fuel rest
        some (c :: body, rest)

def quoted (cs : List Char) : Option (String × List Char) :=
  (stringBody (cs.length + 1) cs).map fun (body, rest) => (String.ofList body, rest)

def fraction? : List Char → Option (List Char × List Char)
  | '.' :: rest => Text.digits? rest
  | cs => some ([], cs)

def exponentDigits? (cs : List Char) : Option (Nat × List Char) :=
  (Text.digits? cs).map fun (ds, rest) => (Text.digitsValue ds, rest)

def exponent? : List Char → Option (Option Int × List Char)
  | c :: rest =>
    if c = 'e' || c = 'E' then
      match rest with
      | '-' :: rest => (exponentDigits? rest).map fun (n, rest) => (some (-(n : Int)), rest)
      | '+' :: rest => (exponentDigits? rest).map fun (n, rest) => (some (n : Int), rest)
      | rest => (exponentDigits? rest).map fun (n, rest) => (some (n : Int), rest)
    else some (none, c :: rest)
  | [] => some (none, [])

def magnitude? (cs : List Char) : Option (List Char × List Char) :=
  match cs with
  | '0' :: rest => if (rest.head?.map Char.isDigit).getD false then none else some (['0'], rest)
  | cs => Text.digits? cs

/-- A whole number has neither a fraction nor an exponent, and minus zero is none. -/
def number? (cs : List Char) : Option (Json × List Char) := do
  let (negative, rest) := match cs with
    | '-' :: rest => (true, rest)
    | rest => (false, rest)
  let (whole, rest) ← magnitude? rest
  let (part, rest) ← fraction? rest
  let (power, rest) ← exponent? rest
  let size : Int := Text.digitsValue (whole ++ part)
  let signed := if negative then -size else size
  if part.isEmpty && power.isNone && !(negative && size = 0) then some (.int signed, rest)
  else some (.real signed (power.getD 0 - part.length), rest)

def keyword? (word : List Char) (v : Json) (cs : List Char) : Option (Json × List Char) :=
  if word.isPrefixOf cs then some (v, cs.drop word.length) else none

mutual

/-- A value at the head of the text and what follows it. A value takes at least one character and
passes its fuel on at most twice for each, so twice the length is fuel enough. -/
def value : Nat → List Char → Option (Json × List Char)
  | 0, _ => none
  | fuel + 1, cs =>
    match skipBlanks cs with
    | [] => none
    | '\x22' :: rest => (quoted rest).map fun (s, rest) => (.str s, rest)
    | '[' :: rest =>
      match skipBlanks rest with
      | ']' :: rest => some (.arr [], rest)
      | rest => (items fuel rest).map fun (vs, rest) => (.arr vs, rest)
    | '\x7b' :: rest =>
      match skipBlanks rest with
      | '\x7d' :: rest => some (.obj [], rest)
      | rest => (members fuel rest).map fun (ms, rest) => (.obj ms, rest)
    | 'n' :: rest => keyword? ['u', 'l', 'l'] .null rest
    | 't' :: rest => keyword? ['r', 'u', 'e'] (.bool true) rest
    | 'f' :: rest => keyword? ['a', 'l', 's', 'e'] (.bool false) rest
    | cs => number? cs

def items : Nat → List Char → Option (List Json × List Char)
  | 0, _ => none
  | fuel + 1, cs => do
    let (v, rest) ← value fuel cs
    match skipBlanks rest with
    | ',' :: rest =>
      let (vs, rest) ← items fuel rest
      some (v :: vs, rest)
    | ']' :: rest => some ([v], rest)
    | _ => none

def members : Nat → List Char → Option (List (String × Json) × List Char)
  | 0, _ => none
  | fuel + 1, cs =>
    match skipBlanks cs with
    | '\x22' :: rest => do
      let (key, rest) ← quoted rest
      match skipBlanks rest with
      | ':' :: rest =>
        let (v, rest) ← value fuel rest
        match skipBlanks rest with
        | ',' :: rest =>
          let (ms, rest) ← members fuel rest
          some ((key, v) :: ms, rest)
        | '\x7d' :: rest => some ([(key, v)], rest)
        | _ => none
      | _ => none
    | _ => none

end

end SqlTables.Json.Reader

namespace SqlTables.Json

def parse? (text : String) : Option Json :=
  let cs := text.toList
  match Reader.value (2 * cs.length + 2) cs with
  | some (v, rest) => if (Reader.skipBlanks rest).isEmpty then some v else none
  | none => none

end SqlTables.Json
