/-! Places and lines of a text. Line and column count characters from one, the offset counts UTF-8
bytes. A line ends at a line feed, a carriage return before the feed belongs to the ending, and a
final line end opens no further line. -/

namespace SqlTables.Text

structure Position where
  line : Nat
  column : Nat
  offset : Nat
deriving Repr, DecidableEq

namespace Position

def start : Position := ⟨1, 1, 0⟩

def step (p : Position) (c : Char) : Position :=
  if c = '\n' then ⟨p.line + 1, 1, p.offset + c.utf8Size⟩
  else ⟨p.line, p.column + 1, p.offset + c.utf8Size⟩

def advance (p : Position) (cs : List Char) : Position := cs.foldl step p

end Position

def dropFinalReturn : List Char → List Char
  | [] => []
  | ['\r'] => []
  | c :: rest => c :: dropFinalReturn rest

/-- The pieces between line feeds, each marked with whether a feed ended it. -/
def feedPieces : List Char → List (List Char × Bool)
  | [] => [([], false)]
  | c :: rest =>
    if c = '\n' then ([], true) :: feedPieces rest
    else
      match feedPieces rest with
      | (piece, ended) :: pieces => (c :: piece, ended) :: pieces
      | [] => [([c], false)]

def lines (cs : List Char) : List (List Char) :=
  (feedPieces cs).filterMap fun (piece, ended) =>
    if ended then some (dropFinalReturn piece) else if piece.isEmpty then none else some piece

end SqlTables.Text
