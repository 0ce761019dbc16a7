import SqlTables.Text.Basic
import SqlTables.Text.Position

/-! Tokens of a definition. Keywords are plain words at this level. -/

namespace SqlTables

inductive TokenKind where
  | word (text : String)
  | quotedName (name : String)
  | string (value : String)
  | number (text : String)
  | leftParen | rightParen | comma | semicolon | equals | dot | doubleColon
  | symbol (text : String)
  | eof
deriving Repr, DecidableEq

def TokenKind.display : TokenKind → String
  | .word text => text
  | .quotedName name => "\"" ++ name ++ "\""
  | .string value => "'" ++ value ++ "'"
  | .number text => text
  | .leftParen => "("
  | .rightParen => ")"
  | .comma => ","
  | .semicolon => ";"
  | .equals => "="
  | .dot => "."
  | .doubleColon => "::"
  | .symbol text => text
  | .eof => "EOF"

/-- A token with the blanks before it and the place of its first character. -/
structure Token where
  gap : String
  kind : TokenKind
  lexeme : String
  start : Text.Position
deriving Repr, DecidableEq

namespace Token

def stop (t : Token) : Nat := t.start.offset + t.lexeme.utf8ByteSize

def isKeyword (t : Token) (keyword : String) : Bool :=
  match t.kind with
  | .word text => Text.sameKeyword text keyword
  | _ => false

def name? (t : Token) : Option String :=
  match t.kind with
  | .word name | .quotedName name => some name
  | _ => none

def value? (t : Token) : Option String :=
  match t.kind with
  | .word v | .quotedName v | .string v | .number v => some v
  | _ => none

def sourceText : List Token → String
  | [] => ""
  | t :: rest => rest.foldl (fun text u => text ++ u.gap ++ u.lexeme) t.lexeme

end Token

end SqlTables
