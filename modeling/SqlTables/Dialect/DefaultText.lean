import SqlTables.Dialect.Basic
import SqlTables.Schema.Field

/-! The text after `DEFAULT`. A default that is an expression, or a number or truth value on a
column of that kind, goes as it is; anything else becomes a string. -/

namespace SqlTables.Dialect

def skipSign : List Char → List Char
  | '+' :: rest => rest
  | '-' :: rest => rest
  | cs => cs

def isExponent : List Char → Bool
  | [] => true
  | c :: rest =>
    let digits := skipSign rest
    (c = 'e' || c = 'E') && !digits.isEmpty && digits.all Char.isDigit

def isNumber (cs : List Char) : Bool :=
  let cs := skipSign cs
  let whole := cs.takeWhile Char.isDigit
  match cs.dropWhile Char.isDigit with
  | '.' :: rest =>
    !(whole.isEmpty && (rest.takeWhile Char.isDigit).isEmpty) &&
      isExponent (rest.dropWhile Char.isDigit)
  | rest => !whole.isEmpty && isExponent rest

def isNameStart (c : Char) : Bool := c.isAlpha || c = '_'

def isNameChar (c : Char) : Bool := c.isAlphanum || c = '_'

def temporalKeywords : List String := [
  "CURRENT_TIMESTAMP", "CURRENT_DATE", "CURRENT_TIME", "LOCALTIME", "LOCALTIMESTAMP"]

def isAnyKeyword (words : List String) (cs : List Char) : Bool :=
  words.any fun w => Text.foldCase cs == w.toList

def isCall (cs : List Char) : Bool :=
  let name := cs.takeWhile (· ≠ '(')
  name.length < cs.length && cs.getLast? == some ')' && name.head?.any isNameStart &&
    name.all fun c => isNameChar c || c = '.'

def isExpression (cs : List Char) : Bool := isAnyKeyword temporalKeywords cs || isCall cs

def quotesPaired : List Char → Bool
  | [] => true
  | [c] => c ≠ '\x27'
  | c :: d :: rest =>
    if c = '\x27' then d = '\x27' && quotesPaired rest else quotesPaired (d :: rest)

def isLiteralPrefix (mark : List Char) : Bool :=
  isAnyKeyword ["B", "X", "N", "E"] mark ||
    mark.length > 1 && mark.head? == some '_' && mark.all isNameChar

def prefixedParts? (cs : List Char) : Option (List Char × List Char) :=
  let mark := cs.takeWhile (· ≠ '\x27')
  match cs.dropWhile (· ≠ '\x27') with
  | _ :: tail =>
    let body := tail.dropLast
    if isLiteralPrefix mark && tail.getLast? == some '\x27' && quotesPaired body then
      some (mark, body)
    else none
  | [] => none

/-- The value of binary digits, perhaps after a plus sign, if 64 bits hold it. -/
def binaryValue? (cs : List Char) : Option Nat :=
  let digits := match cs with
    | '+' :: rest => rest
    | cs => cs
  if !digits.isEmpty && digits.all (fun c => c = '0' || c = '1') then
    let n := digits.foldl (fun n c => 2 * n + (if c = '1' then 1 else 0)) 0
    if n < UInt64.size then some n else none
  else none

/-- A prefixed literal as the dialect writes it. Only MySQL names character sets, SQLite has no bit
strings, and PostgreSQL marks bytes inside the string. -/
def prefixedLiteral? (d : Dialect) (cs : List Char) : Option (List Char) := do
  let (mark, body) ← prefixedParts? cs
  match d with
  | .mysql => some cs
  | .postgresql =>
    if mark.head? = some '_' then some ('\x27' :: body ++ ['\x27'])
    else if isAnyKeyword ["X"] mark then some ('\x27' :: '\\' :: 'x' :: body ++ ['\x27'])
    else some cs
  | .sqlite =>
    if mark.head? = some '_' then some ('\x27' :: body ++ ['\x27'])
    else if isAnyKeyword ["B"] mark then (binaryValue? body).map fun n => (toString n).toList
    else some cs

/-- Whether defaults of the type are strings whatever they look like. -/
def hasStringDefaults (t : ColumnType) : Bool :=
  t.isCharacter || t.isText || t.isBinary || t == .enum || t == .set || t == .json

def isVerbatim (t : ColumnType) (cs : List Char) : Bool :=
  isExpression cs ||
    if t == .boolean then isAnyKeyword ["TRUE", "FALSE", "0", "1"] cs
    else (t.isCustom || t.isNumeric) && isNumber cs

def isParenthesised (cs : List Char) : Bool := cs.head? == some '(' && cs.getLast? == some ')'

def defaultText (d : Dialect) (t : ColumnType) (value : String) : String :=
  let cs := Text.trim value.toList
  if isAnyKeyword ["NULL"] cs || isParenthesised cs then String.ofList cs
  else
    match prefixedLiteral? d cs with
    | some text => String.ofList text
    | none =>
      if !hasStringDefaults t && isVerbatim t cs then String.ofList cs else d.quoteString value

end SqlTables.Dialect
