import SqlTables.Json.Value

/-! Writing JSON: on one line, or laid out with an indent of two spaces. Only the quote, the
backslash and control characters are escaped. -/

namespace SqlTables.Json

def hexDigit (n : Nat) : Char := if n < 10 then Char.ofNat (48 + n) else Char.ofNat (87 + n)

def escapeChar (c : Char) : List Char :=
  if c = '\x22' then ['\\', '\x22']
  else if c = '\\' then ['\\', '\\']
  else if c = '\n' then ['\\', 'n']
  else if c = '\r' then ['\\', 'r']
  else if c = '\t' then ['\\', 't']
  else if c = '\x08' then ['\\', 'b']
  else if c = '\x0c' then ['\\', 'f']
  else if c.toNat < 32 then ['\\', 'u', '0', '0', hexDigit (c.toNat / 16), hexDigit (c.toNat % 16)]
  else [c]

def quote (s : String) : String :=
  String.ofList ('\x22' :: s.toList.flatMap escapeChar ++ ['\x22'])

def scalar : Json → String
  | .null => "null"
  | .bool true => "true"
  | .bool false => "false"
  | .int n => toString n
  | .real m e => toString m ++ "e" ++ toString e
  | .str s => quote s
  | .arr _ => "[]"
  | .obj _ => "\x7b\x7d"

mutual

def compact : Json → String
  | .arr items => "[" ++ ",".intercalate (compactItems items) ++ "]"
  | .obj members => "\x7b" ++ ",".intercalate (compactMembers members) ++ "\x7d"
  | v => v.scalar

def compactItems : List Json → List String
  | [] => []
  | v :: rest => v.compact :: compactItems rest

def compactMembers : List (String × Json) → List String
  | [] => []
  | (k, v) :: rest => (quote k ++ ":" ++ v.compact) :: compactMembers rest

end

def indent (depth : Nat) : String := String.ofList ('\n' :: List.replicate (2 * depth) ' ')

def block (opening closing : String) (depth : Nat) (entries : List String) : String :=
  opening ++ ",".intercalate (entries.map (indent (depth + 1) ++ ·)) ++ indent depth ++ closing

mutual

def prettyAt (depth : Nat) : Json → String
  | .arr (v :: rest) => block "[" "]" depth (v.prettyAt (depth + 1) :: prettyItems (depth + 1) rest)
  | .obj ((k, v) :: rest) =>
    block "\x7b" "\x7d" depth
      ((quote k ++ ": " ++ v.prettyAt (depth + 1)) :: prettyMembers (depth + 1) rest)
  | v => v.scalar

def prettyItems (depth : Nat) : List Json → List String
  | [] => []
  | v :: rest => v.prettyAt depth :: prettyItems depth rest

def prettyMembers (depth : Nat) : List (String × Json) → List String
  | [] => []
  | (k, v) :: rest => (quote k ++ ": " ++ v.prettyAt depth) :: prettyMembers depth rest

end

def pretty (v : Json) : String := v.prettyAt 0

end SqlTables.Json
