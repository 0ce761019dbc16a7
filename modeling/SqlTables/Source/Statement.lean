import SqlTables.Source.Region
import SqlTables.Text.Basic
import SqlTables.Text.Category
import SqlTables.Text.Position

/-! The statements of a script without comments. A semicolon ends a statement when it stands outside
every literal and a blank or the end of the text follows. Table definitions are kept, everything
else is passed over. -/

namespace SqlTables.Source

/-- Whether a semicolon of code may end a statement before what follows. -/
def endsBefore : List (Char × Region) → Bool
  | [] => true
  | (c, _) :: _ => Text.isBlank c

/-- Consecutive pieces of the text, each but the last up to and with its terminator. -/
def segmentsOf : List (Char × Region) → List (List Char)
  | [] => []
  | (c, region) :: rest =>
    if c = ';' ∧ region = .code ∧ endsBefore rest then [c] :: segmentsOf rest
    else
      match segmentsOf rest with
      | [] => [[c]]
      | segment :: segments => (c :: segment) :: segments

def segments (text : List Char) : List (List Char) := segmentsOf (mark false text)

def isWordChar (c : Char) : Bool := Text.isAlphanumeric c || c = '_'

/-- Whether the text opens with `CREATE TABLE`, perhaps with `TEMPORARY` or `TEMP` between. -/
def isTableDefinition (text : List Char) : Bool :=
  let opening := Text.foldCase (text.takeWhile isWordChar)
  let others := Text.runsOf isWordChar (text.dropWhile isWordChar)
  opening == "CREATE".toList &&
    match others.map Text.foldCase with
    | w :: v :: _ =>
      w == "TABLE".toList ||
        (w == "TEMPORARY".toList || w == "TEMP".toList) && v == "TABLE".toList
    | [w] => w == "TABLE".toList
    | [] => false

structure Statement where
  text : List Char
  terminatorAdded : Bool
deriving Repr, DecidableEq

inductive Piece where
  | definition (s : Statement)
  | other (text : List Char)
deriving Repr, DecidableEq

def Statement.close (text : List Char) : Statement :=
  if text.getLast? = some ';' then ⟨text, false⟩ else ⟨text ++ [';'], true⟩

def Piece.ofSegment? (segment : List Char) : Option Piece :=
  let text := Text.trim segment
  if text = [] ∨ text = [';'] then none
  else if isTableDefinition text then some (.definition (.close text))
  else some (.other text)

def pieces (text : List Char) : List Piece := (segments text).filterMap Piece.ofSegment?

def Piece.statement? : Piece → Option Statement
  | .definition s => some s
  | .other _ => none

def statements (text : List Char) : List Statement := (pieces text).filterMap Piece.statement?

/-- The first line, cut after sixty characters. -/
def preview (text : List Char) : List Char :=
  let line := (Text.lines text).headD []
  if line.length > 60 then line.take 60 ++ ['.', '.', '.'] else line

end SqlTables.Source
