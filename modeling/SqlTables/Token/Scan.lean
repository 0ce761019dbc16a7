import SqlTables.Source.Literal
import SqlTables.Text.Basic
import SqlTables.Text.Category
import SqlTables.Text.Position
import SqlTables.Token.Basic

/-! Scanning text into tokens. Only space, tab and line ends stand between tokens, any other
character is a token if nothing longer begins with it, and the one failure is a quote that never
closes. -/

namespace SqlTables

inductive ScanError where
  | unterminatedLiteral (line column : Nat)
  | unexpected (message : String) (line column : Nat) (snippet : String)
deriving Repr, DecidableEq

namespace ScanError

def message : ScanError → String
  | .unterminatedLiteral line column =>
    "Unterminated quoted literal starting at line " ++ toString line ++ ", column " ++
      toString column
  | .unexpected text line column _ =>
    "Syntax error at line " ++ toString line ++ ", column " ++ toString column ++ ": " ++ text

def report : ScanError → String
  | .unexpected text line column snippet =>
    "Syntax error at line " ++ toString line ++ ", column " ++ toString column ++ ":\n" ++
      snippet ++ "\n" ++ String.ofList (List.replicate (column - 1) ' ') ++ "^\n" ++ text
  | e => e.message

end ScanError

namespace Scan

def isGap (c : Char) : Bool := c = ' ' || c = '\t' || c = '\r' || c = '\n'

def undouble (quote : Char) : List Char → List Char
  | [] => []
  | [c] => [c]
  | c :: d :: rest =>
    if c = quote ∧ d = quote then quote :: undouble quote rest else c :: undouble quote (d :: rest)

def escaped (c : Char) : Char :=
  match c with
  | 'n' => '\n'
  | 't' => '\t'
  | 'r' => '\r'
  | '0' => '\x00'
  | c => c

def unescape : List Char → List Char
  | [] => []
  | [c] => [c]
  | c :: d :: rest =>
    if c = '\x27' ∧ d = '\x27' then '\x27' :: unescape rest
    else if c = '\\' then escaped d :: unescape rest
    else c :: unescape (d :: rest)

structure Head where
  kind : TokenKind
  lexeme : List Char
  rest : List Char
deriving Repr, DecidableEq

/-- A literal after its opening quote. Strings know escapes and names do not. -/
def literal? (quote : Char) (cs : List Char) : Option Head :=
  (Source.closing? (quote = '\x27') quote cs).map fun (inside, rest) =>
    let kind :=
      if quote = '\x27' then .string (String.ofList (unescape inside))
      else .quotedName (String.ofList (undouble quote inside))
    ⟨kind, quote :: inside ++ [quote], rest⟩

def fraction? : List Char → Option (List Char × List Char)
  | '.' :: rest => (Text.digits? rest).map fun (ds, rest) => ('.' :: ds, rest)
  | _ => none

def exponent? : List Char → Option (List Char × List Char)
  | e :: s :: rest =>
    if e = 'e' ∨ e = 'E' then
      if s = '+' ∨ s = '-' then (Text.digits? rest).map fun (ds, rest) => (e :: s :: ds, rest)
      else (Text.digits? (s :: rest)).map fun (ds, rest) => (e :: ds, rest)
    else none
  | _ => none

def extend (part? : List Char → Option (List Char × List Char)) (found : List Char × List Char) :
    List Char × List Char :=
  match part? found.2 with
  | some (more, rest) => (found.1 ++ more, rest)
  | none => found

def magnitude? (cs : List Char) : Option (List Char × List Char) :=
  (Text.digits? cs).map fun found => extend exponent? (extend fraction? found)

def number? : List Char → Option (List Char × List Char)
  | '-' :: rest => (magnitude? rest).map fun (ds, rest) => ('-' :: ds, rest)
  | cs => magnitude? cs

def beginsWord (c : Char) : Bool := Text.isLetter c || c = '_' || c = '$'

def continuesWord (c : Char) : Bool := beginsWord c || Text.isNumber c

def punctuation (c : Char) : TokenKind :=
  match c with
  | '(' => .leftParen
  | ')' => .rightParen
  | ',' => .comma
  | ';' => .semicolon
  | '=' => .equals
  | '.' => .dot
  | c => .symbol (String.ofList [c])

def head? (c : Char) (rest : List Char) : Option Head :=
  if Source.isQuote c then literal? c rest
  else
    match number? (c :: rest) with
    | some (text, rest) => some ⟨.number (String.ofList text), text, rest⟩
    | none =>
      if beginsWord c then
        let text := c :: rest.takeWhile continuesWord
        some ⟨.word (String.ofList text), text, rest.dropWhile continuesWord⟩
      else if c = ':' ∧ rest.head? = some ':' then some ⟨.doubleColon, [':', ':'], rest.drop 1⟩
      else some ⟨punctuation c, [c], rest⟩

theorem eq_append_of_fraction? {cs ds rest : List Char} (h : fraction? cs = some (ds, rest)) :
    cs = ds ++ rest := by
  unfold fraction? at h
  split at h
  · obtain ⟨⟨ds, r⟩, hd, he⟩ := Option.map_eq_some_iff.1 h
    simp only [Prod.mk.injEq] at he
    obtain ⟨rfl, rfl⟩ := he
    simp [(Text.eq_append_of_digits? hd).1]
  · simp at h

theorem eq_append_of_exponent? {cs ds rest : List Char} (h : exponent? cs = some (ds, rest)) :
    cs = ds ++ rest := by
  unfold exponent? at h
  split at h
  · split at h
    · split at h
      all_goals
        obtain ⟨⟨ds, r⟩, hd, he⟩ := Option.map_eq_some_iff.1 h
        simp only [Prod.mk.injEq] at he
        obtain ⟨rfl, rfl⟩ := he
        simp [(Text.eq_append_of_digits? hd).1]
    · simp at h
  · simp at h

theorem append_extend {part? : List Char → Option (List Char × List Char)}
    (hp : ∀ {cs ds rest}, part? cs = some (ds, rest) → cs = ds ++ rest)
    (found : List Char × List Char) :
    (extend part? found).1 ++ (extend part? found).2 = found.1 ++ found.2 := by
  unfold extend
  split
  · rename_i h
    simp [hp h]
  · rfl

theorem extend_ne_nil (part? : List Char → Option (List Char × List Char))
    {found : List Char × List Char} (h : found.1 ≠ []) : (extend part? found).1 ≠ [] := by
  unfold extend
  split <;> simp [h]

theorem eq_append_of_magnitude? {cs text rest : List Char} (h : magnitude? cs = some (text, rest)) :
    cs = text ++ rest ∧ text ≠ [] := by
  obtain ⟨found, hd, he⟩ := Option.map_eq_some_iff.1 h
  have hds := Text.eq_append_of_digits? hd
  have happ := append_extend eq_append_of_exponent? (extend fraction? found)
  have hne := extend_ne_nil exponent? (extend_ne_nil fraction? hds.2)
  rw [append_extend eq_append_of_fraction?] at happ
  rw [he] at happ hne
  exact ⟨by rw [hds.1, happ], hne⟩

theorem eq_append_of_number? {cs text rest : List Char} (h : number? cs = some (text, rest)) :
    cs = text ++ rest ∧ text ≠ [] := by
  unfold number? at h
  split at h
  · obtain ⟨⟨ds, r⟩, hd, he⟩ := Option.map_eq_some_iff.1 h
    simp only [Prod.mk.injEq] at he
    obtain ⟨rfl, rfl⟩ := he
    simp [(eq_append_of_magnitude? hd).1]
  · exact eq_append_of_magnitude? h

theorem eq_append_of_literal? {quote : Char} {cs : List Char} {t : Head}
    (h : literal? quote cs = some t) : quote :: cs = t.lexeme ++ t.rest := by
  obtain ⟨⟨inside, rest⟩, hc, rfl⟩ := Option.map_eq_some_iff.1 h
  simp [Source.eq_append_of_closing? hc]

theorem eq_append_of_head? {c : Char} {cs : List Char} {t : Head} (h : head? c cs = some t) :
    c :: cs = t.lexeme ++ t.rest ∧ t.lexeme ≠ [] := by
  unfold head? at h
  split at h
  · refine ⟨eq_append_of_literal? h, ?_⟩
    obtain ⟨⟨inside, rest⟩, _, rfl⟩ := Option.map_eq_some_iff.1 h
    simp
  · split at h
    · rename_i hn
      simp only [Option.some.injEq] at h
      subst h
      exact eq_append_of_number? hn
    · split at h
      · simp only [Option.some.injEq] at h
        subst h
        simp [List.takeWhile_append_dropWhile]
      · split at h
        · rename_i hc
          simp only [Option.some.injEq] at h
          subst h
          obtain ⟨rfl, hr⟩ := hc
          cases cs <;> simp_all
        · simp only [Option.some.injEq] at h
          subst h
          simp

theorem length_lt_of_head? {c : Char} {cs : List Char} {t : Head} (h : head? c cs = some t) :
    t.rest.length < (c :: cs).length := by
  obtain ⟨he, hne⟩ := eq_append_of_head? h
  rw [he, List.length_append]
  have := List.length_pos_iff.2 hne
  omega

end Scan

structure Scan where
  tokens : List Token
  unterminated : Option Text.Position
  gap : String
deriving Repr, DecidableEq

namespace Scan

def scanFrom (place : Text.Position) (cs : List Char) : Scan :=
  let gap := cs.takeWhile isGap
  let start := place.advance gap
  match _hcs : cs.dropWhile isGap with
  | [] => ⟨[], none, String.ofList gap⟩
  | c :: rest =>
    match _ht : head? c rest with
    | none => ⟨[], some start, String.ofList gap⟩
    | some t =>
      let token : Token := ⟨String.ofList gap, t.kind, String.ofList t.lexeme, start⟩
      let others := scanFrom (start.advance t.lexeme) t.rest
      { others with tokens := token :: others.tokens }
termination_by cs.length
decreasing_by
  have h1 := length_lt_of_head? _ht
  have h2 := (List.dropWhile_sublist isGap (l := cs)).length_le
  rw [_hcs] at h2
  omega

def ofText (text : String) : Scan := scanFrom .start text.toList

end Scan

namespace Token

/-- The end of a text stands on its last line, one past the last character. -/
def endPosition (text : String) : Text.Position :=
  let lines := Text.lines text.toList
  ⟨max 1 lines.length, (lines.getLast?.map (·.length + 1)).getD 1, text.utf8ByteSize⟩

def tokenize (text : String) : Except ScanError (List Token) :=
  let scan := Scan.ofText text
  match scan.unterminated with
  | some p => .error (.unterminatedLiteral p.line p.column)
  | none => .ok (scan.tokens ++ [⟨scan.gap, .eof, "", endPosition text⟩])

end Token

end SqlTables
