import SqlTables.Source.Literal

/-! Regions of a source text: every character is code, part of a quoted literal, or part of a
comment. Comments are `-- …` and `# …` to the end of the line, and `/* … */`. Blanking writes a
space for each comment character and keeps line feeds, so places in the text stay where they are. -/

namespace SqlTables.Source

inductive Region where
  | code | quoted | comment
deriving Repr, DecidableEq

inductive Mode where
  | code
  | literal (quote : Char)
  | lineComment
  | blockComment
deriving Repr, DecidableEq

/-- The region of a character, what follows it, and whether the next character goes with it. -/
structure Marking where
  region : Region
  mode : Mode
  takesNext : Bool
deriving Repr, DecidableEq

/-- In every literal but a backtick one, a backslash takes the next character along. -/
def literalMarking (quote c : Char) (next : Option Char) : Marking :=
  match literalStep (quote ≠ '\x60') quote c next with
  | .single => ⟨.quoted, .literal quote, false⟩
  | .pair => ⟨.quoted, .literal quote, true⟩
  | .close => ⟨.quoted, .code, false⟩

/-- With `comments` off, comment markers are code. -/
def marking (comments : Bool) (mode : Mode) (c : Char) (next : Option Char) : Marking :=
  match mode with
  | .code =>
    if isQuote c then ⟨.quoted, .literal c, false⟩
    else if comments && c = '-' && next = some '-' then ⟨.comment, .lineComment, true⟩
    else if comments && c = '#' then ⟨.comment, .lineComment, false⟩
    else if comments && c = '/' && next = some '*' then ⟨.comment, .blockComment, true⟩
    else ⟨.code, .code, false⟩
  | .literal quote => literalMarking quote c next
  | .lineComment => if c = '\n' then ⟨.code, .code, false⟩ else ⟨.comment, .lineComment, false⟩
  | .blockComment =>
    if c = '*' && next = some '/' then ⟨.comment, .code, true⟩
    else ⟨.comment, .blockComment, false⟩

def markFrom (comments : Bool) : Mode → List Char → List (Char × Region)
  | _, [] => []
  | mode, [c] => [(c, (marking comments mode c none).region)]
  | mode, c :: d :: rest =>
    let m := marking comments mode c (some d)
    if m.takesNext then (c, m.region) :: (d, m.region) :: markFrom comments m.mode rest
    else (c, m.region) :: markFrom comments m.mode (d :: rest)

def mark (comments : Bool) (text : List Char) : List (Char × Region) := markFrom comments .code text

def blankChar (c : Char) (region : Region) : Char := if region = .comment ∧ c ≠ '\n' then ' ' else c

def blank (text : List Char) : List Char :=
  (mark true text).map fun (c, region) => blankChar c region

def withoutComments (text : String) : String := String.ofList (blank text.toList)

end SqlTables.Source
