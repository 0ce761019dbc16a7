import SqlTables.Draft.Settle
import SqlTables.Source.Statement

/-! Reading table definitions. A text gives the first table it defines; a script gives one result
for each definition in it, and a bad one does not stop the others. -/

namespace SqlTables.Table

def parseStatement (text : String) : Except ParseError Table :=
  match Token.tokenize text with
  | .error e => .error (.scan e)
  | .ok ts =>
    match Draft.read ts with
    | .error e => .error e
    | .ok d => d.settle.mapError .schema

def parse (text : String) : Except ParseError Table := parseStatement (Source.withoutComments text)

def parseScript (text : String) : List (Except ParseError Table) :=
  (Source.statements (Source.blank text.toList)).map fun s => parseStatement (String.ofList s.text)

/-- The tables among the results. That a script defines none is an error, that all of them are bad
is not. -/
def successes (results : List (Except ParseError Table)) : Except ParseError (List Table) :=
  if results.isEmpty then .error .noTables else .ok (results.filterMap Except.toOption)

def statementEvents (text : String) : List Event :=
  match Token.tokenize text with
  | .error _ => []
  | .ok ts => Draft.events ts

def parseEvents (text : String) : List Event := statementEvents (Source.withoutComments text)

def discardEvent (text : List Char) : Event :=
  ⟨.debug, "Discarding non CREATE TABLE statement: " ++ String.ofList (Source.preview text)⟩

def definitionEvents (n : Nat) (text : String) : List Event :=
  statementEvents text ++
    match parseStatement text with
    | .ok _ => []
    | .error e =>
      [⟨.warn, "Statement " ++ toString n ++ " could not be parsed: " ++ e.message⟩]

def pieceEvents (n : Nat) : List Source.Piece → List Event
  | [] => []
  | .definition s :: rest => definitionEvents n (String.ofList s.text) ++ pieceEvents (n + 1) rest
  | .other text :: rest => discardEvent text :: pieceEvents n rest

def discardEvents (text : List Char) : List Event :=
  (Source.pieces text).filterMap fun
    | .definition _ => none
    | .other text => some (discardEvent text)

def scriptEvents (text : String) : List Event :=
  let results := parseScript text
  let parsed := results.countP fun r => r.toOption.isSome
  pieceEvents 1 (Source.pieces (Source.blank text.toList)) ++
    [⟨.info, "Parsed " ++ toString parsed ++ " of " ++ toString results.length ++
      " CREATE TABLE statements"⟩]

end SqlTables.Table
