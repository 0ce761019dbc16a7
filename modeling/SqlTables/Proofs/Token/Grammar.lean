import SqlTables.Proofs.Token.Head
import SqlTables.Proofs.Token.Peg

/-! The grammar of tokens, and that the scan follows it: the token at the head of a text is what the
first rule that reads anything reads there. The grammar as a whole reads every text. -/

namespace SqlTables

open Source (closing? literalStep isQuote)

/-- The kinds of tokens, and the text from a quote that is never closed, as they are tried. -/
inductive TokenRule where
  | backtickName | doubleQuotedName | string | unterminated | number | word | doubleColon
  | leftParen | rightParen | comma | semicolon | equals | dot | symbol
deriving Repr, DecidableEq

namespace TokenRule

open Peg (any char text opt many1 choices)

def inOrder : List TokenRule :=
  [.backtickName, .doubleQuotedName, .string, .unterminated, .number, .word, .doubleColon,
    .leftParen, .rightParen, .comma, .semicolon, .equals, .dot, .symbol]

def unit (escapes : Bool) (quote : Char) : Peg :=
  let other := Peg.seq (.not (char quote)) any
  .choice (text [quote, quote]) (if escapes then .choice (.seq (char '\\') any) other else other)

def quoted (escapes : Bool) (quote : Char) : Peg :=
  .seq (char quote) (.seq (.many (unit escapes quote)) (char quote))

def digits : Peg := many1 (.one Char.isDigit)

def fraction : Peg := .seq (char '.') digits

def exponent : Peg :=
  .seq (.one fun c => c = 'e' ∨ c = 'E') (.seq (opt (.one fun c => c = '+' ∨ c = '-')) digits)

def expression : TokenRule → Peg
  | .backtickName => quoted false '\x60'
  | .doubleQuotedName => quoted false '\x22'
  | .string => quoted true '\x27'
  | .unterminated => .seq (.one isQuote) (.many any)
  | .number => .seq (opt (char '-')) (.seq digits (.seq (opt fraction) (opt exponent)))
  | .word => .seq (.one Scan.beginsWord) (.many (.one Scan.continuesWord))
  | .doubleColon => text [':', ':']
  | .leftParen => char '('
  | .rightParen => char ')'
  | .comma => char ','
  | .semicolon => char ';'
  | .equals => char '='
  | .dot => char '.'
  | .symbol => any

def read? (r : TokenRule) (cs : List Char) : Option (List Char × List Char) :=
  r.expression.read? cs

def first? (cs : List Char) : Option (TokenRule × List Char × List Char) :=
  inOrder.findSome? fun r => (r.read? cs).map (r, ·)

def inside (lexeme : List Char) : List Char := lexeme.tail.dropLast

def kind? (lexeme : List Char) : TokenRule → Option TokenKind
  | .backtickName => some (.quotedName (String.ofList (Scan.undouble '\x60' (inside lexeme))))
  | .doubleQuotedName => some (.quotedName (String.ofList (Scan.undouble '\x22' (inside lexeme))))
  | .string => some (.string (String.ofList (Scan.unescape (inside lexeme))))
  | .unterminated => none
  | .number => some (.number (String.ofList lexeme))
  | .word => some (.word (String.ofList lexeme))
  | .doubleColon => some .doubleColon
  | .leftParen => some .leftParen
  | .rightParen => some .rightParen
  | .comma => some .comma
  | .semicolon => some .semicolon
  | .equals => some .equals
  | .dot => some .dot
  | .symbol => some (.symbol (String.ofList lexeme))

variable {escapes : Bool} {quote c : Char} {cs rest : List Char}

theorem read?_unit_cons (hq : escapes = true → quote ≠ '\\') (c : Char) (cs : List Char) :
    (unit escapes quote).read? (c :: cs) =
      match literalStep escapes quote c cs.head? with
      | .close => none
      | .single => some ([c], cs)
      | .pair => some (c :: cs.take 1, cs.drop 1) := by
  by_cases hb : escapes = true ∧ c = '\\'
  · obtain ⟨rfl, rfl⟩ := hb
    have hne := Ne.symm (hq rfl)
    cases cs <;> simp [unit, Peg.read?, literalStep, text, char, any, hne]
  · by_cases hc : c = quote
    · subst hc
      have hb' : (escapes && decide (c = '\\')) = false := by simpa using hb
      cases cs with
      | nil => cases escapes <;> simp_all [unit, Peg.read?, literalStep, text, char, any]
      | cons d cs =>
        by_cases hd : d = c
        · subst hd
          simp_all [unit, Peg.read?, literalStep, text, char, any]
        · cases escapes <;> simp_all [unit, Peg.read?, literalStep, text, char, any]
    · cases cs <;> cases escapes <;> simp_all [unit, Peg.read?, literalStep, text, char, any]

theorem read?_units (hq : escapes = true → quote ≠ '\\') (cs : List Char) :
    (Peg.seq (.many (unit escapes quote)) (char quote)).read? cs =
      (closing? escapes quote cs).map fun (inside, rest) => (inside ++ [quote], rest) := by
  have hclose {c : Char} (cs : List Char) (hs : literalStep escapes quote c cs.head? = .close) :
      (Peg.seq (.many (unit escapes quote)) (char quote)).read? (c :: cs) =
        some ([quote], cs) := by
    have hunit : (unit escapes quote).read? (c :: cs) = none := by rw [read?_unit_cons hq, hs]
    rw [Peg.read?_seq_many_of_none hunit, Peg.read?_char_cons,
      if_pos (Source.eq_of_literalStep_close hs), Source.eq_of_literalStep_close hs]
  fun_induction closing? escapes quote cs with
  | case1 =>
    have hunit : (unit escapes quote).read? [] = none := by cases escapes <;> rfl
    exact Peg.read?_seq_many_of_none hunit _
  | case2 c hs => exact hclose [] hs
  | case3 c hs =>
    -- a last character that closes nothing is read, and then the closing quote is missing
    have hunit : (unit escapes quote).read? ([c] ++ []) = some ([c], []) := by
      rw [List.append_nil, read?_unit_cons hq, List.head?_nil]
      cases hstep : literalStep escapes quote c none with
      | close => exact absurd hstep hs
      | single | pair => rfl
    have hnone : (unit escapes quote).read? [] = none := by cases escapes <;> rfl
    have hread := Peg.read?_seq_many_of_some hunit (by simp) (char quote)
    rw [Peg.read?_seq_many_of_none hnone] at hread
    exact hread
  | case4 c d rest hs => exact hclose (d :: rest) hs
  | case5 c d rest hs ih =>
    have hunit : (unit escapes quote).read? ([c, d] ++ rest) = some ([c, d], rest) := by
      rw [List.cons_append, read?_unit_cons hq, List.singleton_append, List.head?_cons, hs]
      rfl
    have hread := Peg.read?_seq_many_of_some hunit (by simp) (char quote)
    rw [ih, Option.map_map] at hread
    rw [Option.map_map]
    exact hread
  | case6 c d rest hs ih =>
    have hunit : (unit escapes quote).read? ([c] ++ d :: rest) = some ([c], d :: rest) := by
      rw [List.singleton_append, read?_unit_cons hq, List.head?_cons, hs]
    have hread := Peg.read?_seq_many_of_some hunit (by simp) (char quote)
    rw [ih, Option.map_map] at hread
    rw [Option.map_map]
    exact hread

theorem read?_quoted (hq : escapes = true → quote ≠ '\\') (c : Char) (cs : List Char) :
    (quoted escapes quote).read? (c :: cs) =
      if c = quote then
        (closing? escapes quote cs).map fun (inside, rest) => (quote :: inside ++ [quote], rest)
      else none := by
  rw [quoted, char, Peg.read?_seq_one_cons, ← char, read?_units hq, Option.map_map]
  by_cases hc : c = quote
  · subst hc
    simp [Function.comp_def]
  · simp [hc]

theorem read?_digits (cs : List Char) : digits.read? cs = Text.digits? cs :=
  Peg.read?_many1_one Char.isDigit cs

theorem read?_fraction (cs : List Char) : fraction.read? cs = Scan.fraction? cs := by
  cases cs with
  | nil => rfl
  | cons c cs =>
    rw [fraction, char, Peg.read?_seq_one_cons, read?_digits]
    by_cases hc : c = '.'
    · subst hc
      rfl
    · simp [Scan.fraction?, hc]

theorem read?_exponent (cs : List Char) : exponent.read? cs = Scan.exponent? cs := by
  cases cs with
  | nil => rfl
  | cons e cs =>
    rw [exponent, Peg.read?_seq_one_cons]
    by_cases he : e = 'e' ∨ e = 'E'
    · rw [if_pos (by simpa using he), Peg.read?_seq_of_some (Peg.read?_opt _ _), read?_digits]
      cases cs with
      | nil => rfl
      | cons s cs =>
        by_cases hs : s = '+' ∨ s = '-'
        · have hsign : (Peg.one fun c => c = '+' ∨ c = '-').read? (s :: cs) = some ([s], cs) := by
            simp [Peg.read?_one_cons, hs]
          rw [hsign, Scan.exponent?, if_pos he, if_pos hs, Option.map_map]
          rfl
        · have hsign : (Peg.one fun c => c = '+' ∨ c = '-').read? (s :: cs) = none := by
            simp [Peg.read?_one_cons, hs]
          rw [hsign, Scan.exponent?, if_pos he, if_neg hs, Option.map_map]
          rfl
    · rw [if_neg (by simpa using he)]
      cases cs <;> simp [Scan.exponent?, he]

theorem read?_magnitude (cs : List Char) :
    (Peg.seq digits (.seq (opt fraction) (opt exponent))).read? cs = Scan.magnitude? cs := by
  rw [Scan.magnitude?]
  cases hd : Text.digits? cs with
  | none => exact Peg.read?_seq_of_none ((read?_digits cs).trans hd) _
  | some found =>
    obtain ⟨ds, rest⟩ := found
    rw [Peg.read?_seq_of_some ((read?_digits cs).trans hd),
      Peg.read?_seq_of_some (Peg.read?_opt _ _), Peg.read?_opt, read?_fraction, read?_exponent]
    simp only [Option.map_some, Scan.extend]
    cases Scan.fraction? rest with
    | none => cases Scan.exponent? rest <;> simp
    | some fraction => cases Scan.exponent? fraction.2 <;> simp

theorem read?_number (cs : List Char) : number.read? cs = Scan.number? cs := by
  rw [read?, expression, Peg.read?_seq_of_some (Peg.read?_opt _ _), read?_magnitude]
  cases cs with
  | nil => rfl
  | cons c cs =>
    rw [Peg.read?_char_cons]
    by_cases hc : c = '-'
    · subst hc
      rfl
    · simp [hc, Scan.number?]

theorem read?_word (c : Char) (cs : List Char) :
    word.read? (c :: cs) =
      if Scan.beginsWord c then
        some (c :: cs.takeWhile Scan.continuesWord, cs.dropWhile Scan.continuesWord)
      else none := by
  rw [read?, expression, Peg.read?_seq_one_cons, Peg.read?_many_one, Option.map_some]

theorem read?_unterminated (c : Char) (cs : List Char) :
    unterminated.read? (c :: cs) = if isQuote c then some (c :: cs, []) else none := by
  rw [read?, expression, Peg.read?_seq_one_cons, any, Peg.read?_many_one]
  split_ifs <;> simp

theorem read?_doubleColon (c : Char) (cs : List Char) :
    doubleColon.read? (c :: cs) =
      if c = ':' ∧ cs.head? = some ':' then some ([':', ':'], cs.drop 1) else none := by
  cases cs with
  | nil => by_cases hc : c = ':' <;> simp [read?, expression, text, char, Peg.read?, hc]
  | cons d cs =>
    by_cases hc : c = ':' <;> by_cases hd : d = ':' <;>
      simp [read?, expression, text, char, Peg.read?, hc, hd]

def literals : List TokenRule := [.backtickName, .doubleQuotedName, .string]

theorem read?_backtickName (c : Char) (cs : List Char) :
    backtickName.read? (c :: cs) =
      if c = '\x60' then
        (closing? false '\x60' cs).map fun (i, rest) => ('\x60' :: i ++ ['\x60'], rest)
      else none :=
  read?_quoted (by simp) c cs

theorem read?_doubleQuotedName (c : Char) (cs : List Char) :
    doubleQuotedName.read? (c :: cs) =
      if c = '\x22' then
        (closing? false '\x22' cs).map fun (i, rest) => ('\x22' :: i ++ ['\x22'], rest)
      else none :=
  read?_quoted (by simp) c cs

theorem read?_string (c : Char) (cs : List Char) :
    string.read? (c :: cs) =
      if c = '\x27' then
        (closing? true '\x27' cs).map fun (i, rest) => ('\x27' :: i ++ ['\x27'], rest)
      else none :=
  read?_quoted (by simp) c cs

theorem inside_append (quote : Char) (cs : List Char) : inside (quote :: cs ++ [quote]) = cs := by
  simp [inside]

theorem first?_drop {n : Nat} (h : ∀ r ∈ inOrder.take n, r.read? cs = none) :
    first? cs = (inOrder.drop n).findSome? fun r => (r.read? cs).map (r, ·) := by
  have hnone : (inOrder.take n).findSome? (fun r => (r.read? cs).map (r, ·)) = none := by
    rw [List.findSome?_eq_none_iff]
    intro r hr
    rw [h r hr, Option.map_none]
  rw [first?, ← List.take_append_drop n inOrder, List.findSome?_append, hnone, Option.none_or,
    List.take_append_drop]

theorem first?_of_literal? (hc : isQuote c = true) {t : Scan.Head}
    (h : Scan.literal? c rest = some t) :
    ∃ r, first? (c :: rest) = some (r, t.lexeme, t.rest) ∧ r.kind? t.lexeme = some t.kind := by
  obtain ⟨⟨i, after⟩, hclose, rfl⟩ := Option.map_eq_some_iff.1 h
  rcases Source.isQuote_iff.1 hc with rfl | rfl | rfl
  · have hread : string.read? ('\x27' :: rest) = some ('\x27' :: i ++ ['\x27'], after) := by
      rw [read?_string, if_pos rfl, Option.map_eq_some_iff]
      exact ⟨_, hclose, rfl⟩
    refine ⟨.string, ?_, by rw [kind?, inside_append]; rfl⟩
    rw [@first?_drop _ 2 (by simp [inOrder, read?_backtickName, read?_doubleQuotedName])]
    simp [inOrder, hread]
  · have hread : doubleQuotedName.read? ('\x22' :: rest) =
        some ('\x22' :: i ++ ['\x22'], after) := by
      rw [read?_doubleQuotedName, if_pos rfl, Option.map_eq_some_iff]
      exact ⟨_, hclose, rfl⟩
    refine ⟨.doubleQuotedName, ?_, by rw [kind?, inside_append]; rfl⟩
    rw [@first?_drop _ 1 (by simp [inOrder, read?_backtickName])]
    simp [inOrder, hread]
  · have hread : backtickName.read? ('\x60' :: rest) = some ('\x60' :: i ++ ['\x60'], after) := by
      rw [read?_backtickName, if_pos rfl, Option.map_eq_some_iff]
      exact ⟨_, hclose, rfl⟩
    refine ⟨.backtickName, ?_, by rw [kind?, inside_append]; rfl⟩
    simp [first?, inOrder, hread]

theorem read?_of_not_quote (hc : isQuote c = false) (rest : List Char) :
    ∀ r ∈ inOrder.take 4, r.read? (c :: rest) = none := by
  have hne (quote : Char) (hq : isQuote quote = true) : c ≠ quote := by
    rintro rfl
    rw [hc] at hq
    exact absurd hq (by simp)
  simp [inOrder, read?_backtickName, read?_doubleQuotedName, read?_string, read?_unterminated, hc,
    hne '\x60' (by decide), hne '\x22' (by decide), hne '\x27' (by decide)]

theorem first?_of_mark (h : ∀ r ∈ inOrder.take 7, r.read? (c :: rest) = none) :
    ∃ r, first? (c :: rest) = some (r, [c], rest) ∧ r.kind? [c] = some (Scan.punctuation c) := by
  rw [first?_drop h]
  unfold Scan.punctuation
  split
  · exact ⟨.leftParen, rfl, rfl⟩
  · exact ⟨.rightParen, rfl, rfl⟩
  · exact ⟨.comma, rfl, rfl⟩
  · exact ⟨.semicolon, rfl, rfl⟩
  · exact ⟨.equals, rfl, rfl⟩
  · exact ⟨.dot, rfl, rfl⟩
  · rename_i h1 h2 h3 h4 h5 h6
    refine ⟨.symbol, ?_, rfl⟩
    have hmark {r : TokenRule} {d : Char} (hr : r.expression = char d) (hd : c ≠ d) :
        r.read? (c :: rest) = none := by
      rw [read?, hr, Peg.read?_char_cons, if_neg hd]
    simp [inOrder, hmark (r := .leftParen) rfl h1, hmark (r := .rightParen) rfl h2,
      hmark (r := .comma) rfl h3, hmark (r := .semicolon) rfl h4, hmark (r := .equals) rfl h5,
      hmark (r := .dot) rfl h6]
    rfl

theorem first?_of_not_quote (hc : isQuote c = false) {t : Scan.Head}
    (h : Scan.head? c rest = some t) :
    ∃ r, first? (c :: rest) = some (r, t.lexeme, t.rest) ∧ r.kind? t.lexeme = some t.kind := by
  have hquotes := read?_of_not_quote hc rest
  have hnumber := read?_number (c :: rest)
  have hword := read?_word c rest
  have hcast := read?_doubleColon c rest
  rw [Scan.head?, if_neg (by simp [hc])] at h
  split at h
  · rename_i text after hn
    simp only [Option.some.injEq] at h
    subst h
    refine ⟨.number, ?_, rfl⟩
    rw [first?_drop hquotes]
    simp [inOrder, hnumber, hn]
  · rename_i hn
    rw [hn] at hnumber
    split_ifs at h hword with hw hd
    · simp only [Option.some.injEq] at h
      subst h
      refine ⟨.word, ?_, rfl⟩
      rw [first?_drop hquotes]
      simp [inOrder, hnumber, hword]
    · simp only [Option.some.injEq] at h
      subst h
      rw [if_pos hd] at hcast
      refine ⟨.doubleColon, ?_, rfl⟩
      rw [first?_drop hquotes]
      simp [inOrder, hnumber, hword, hcast]
    · simp only [Option.some.injEq] at h
      subst h
      rw [if_neg hd] at hcast
      apply first?_of_mark
      have htake : inOrder.take 7 = inOrder.take 4 ++ [.number, .word, .doubleColon] := rfl
      rw [htake, List.forall_mem_append]
      exact ⟨hquotes, by simp [hnumber, hword, hcast]⟩

theorem first?_of_head? {t : Scan.Head} (h : Scan.head? c rest = some t) :
    ∃ r, first? (c :: rest) = some (r, t.lexeme, t.rest) ∧ r.kind? t.lexeme = some t.kind := by
  by_cases hc : isQuote c = true
  · rw [Scan.head?, if_pos hc] at h
    exact first?_of_literal? hc h
  · exact first?_of_not_quote (by simpa using hc) h

theorem read?_of_head?_eq_none (h : Scan.head? c rest = none) :
    isQuote c = true ∧ ∀ r ∈ literals, r.read? (c :: rest) = none := by
  have hc : isQuote c = true := by
    by_contra hc
    rw [Scan.head?, if_neg hc] at h
    split at h
    · simp at h
    · split_ifs at h
  refine ⟨hc, ?_⟩
  rw [Scan.head?, if_pos hc, Scan.literal?, Option.map_eq_none_iff] at h
  have hopen {escapes : Bool} {quote : Char} (he : escapes = decide (quote = '\x27')) :
      (if c = quote then
        (closing? escapes quote rest).map fun (i, rest) => (quote :: i ++ [quote], rest)
      else none) = none := by
    split_ifs with hq
    · rw [he, ← hq, h, Option.map_none]
    · rfl
  simp only [literals, List.forall_mem_cons, List.not_mem_nil, false_implies, implies_true,
    and_true, read?_backtickName, read?_doubleQuotedName, read?_string]
  exact ⟨hopen rfl, hopen rfl, hopen rfl⟩

theorem first?_of_head?_eq_none (h : Scan.head? c rest = none) :
    first? (c :: rest) = some (.unterminated, c :: rest, []) := by
  obtain ⟨hc, hopen⟩ := read?_of_head?_eq_none h
  have hread := read?_unterminated c rest
  rw [if_pos hc] at hread
  rw [@first?_drop _ 3 hopen]
  simp [inOrder, hread]

theorem first?_cons (c : Char) (rest : List Char) :
    ∃ r x after, first? (c :: rest) = some (r, x, after) ∧ x ≠ [] := by
  cases h : Scan.head? c rest with
  | none => exact ⟨_, _, _, first?_of_head?_eq_none h, by simp⟩
  | some t =>
    obtain ⟨r, hr, _⟩ := first?_of_head? h
    exact ⟨r, _, _, hr, (Scan.eq_append_of_head? h).2⟩

def token : Peg := choices (inOrder.map expression)

def gap : Peg := .many (.one Scan.isGap)

def program : Peg :=
  .seq gap (.seq (opt (.seq token (.many (.seq gap token)))) (.seq gap (.not any)))

theorem read?_gap (cs : List Char) :
    gap.read? cs = some (cs.takeWhile Scan.isGap, cs.dropWhile Scan.isGap) :=
  Peg.read?_many_one Scan.isGap cs

theorem read?_token_cons (c : Char) (cs : List Char) :
    ∃ x rest, token.read? (c :: cs) = some (x, rest) ∧ x ≠ [] := by
  obtain ⟨r, x, rest, hr, hx⟩ := first?_cons c cs
  refine ⟨x, rest, ?_, hx⟩
  rw [token, Peg.read?_choices]
  exact congrArg (Option.map Prod.snd) hr

theorem gap_of_read?_many {x : List Char}
    (h : (Peg.many (.seq gap token)).read? cs = some (x, rest)) : Scan.Gap rest := by
  rw [Scan.Gap, ← List.dropWhile_eq_nil_iff]
  by_contra hne
  obtain ⟨c, tail, hc⟩ := List.exists_cons_of_ne_nil hne
  obtain ⟨y, after, hy, hyne⟩ := read?_token_cons c tail
  have hread := Peg.read?_seq_of_some (read?_gap rest) token
  rw [hc, hy] at hread
  have hnil := Peg.eq_nil_of_read?_many h hread
  exact hyne (List.append_eq_nil_iff.1 hnil).2

theorem read?_end (h : Scan.Gap cs) : (Peg.seq gap (.not any)).read? cs = some (cs, []) := by
  have hgap := read?_gap cs
  rw [List.takeWhile_eq_self_iff.2 h, List.dropWhile_eq_nil_iff.2 h] at hgap
  rw [Peg.read?_seq_of_some hgap]
  simp [Peg.read?, any]

theorem read?_program (cs : List Char) : program.read? cs = some (cs, []) := by
  have hread : ∃ x, program.read? cs = some (x, []) := by
    rw [program, Peg.read?_seq_of_some (read?_gap cs)]
    cases cs.dropWhile Scan.isGap with
    | nil =>
      have hopt : (opt (Peg.seq token (.many (.seq gap token)))).read? [] = some ([], []) := by
        rw [Peg.read?_opt, Peg.read?_seq_of_none (rfl : token.read? [] = none), Option.getD_none]
      rw [Peg.read?_seq_of_some hopt, read?_end (by simp [Scan.Gap])]
      exact ⟨_, rfl⟩
    | cons c tail =>
      obtain ⟨y, rest, hy, _⟩ := read?_token_cons c tail
      obtain ⟨⟨z, after⟩, hm⟩ : ∃ found, (Peg.many (.seq gap token)).read? rest = some found :=
        ⟨_, rfl⟩
      have hopt : (opt (Peg.seq token (.many (.seq gap token)))).read? (c :: tail) =
          some (y ++ z, after) := by
        rw [Peg.read?_opt, Peg.read?_seq_of_some hy, hm, Option.map_some, Option.getD_some]
      rw [Peg.read?_seq_of_some hopt, read?_end (gap_of_read?_many hm)]
      exact ⟨_, rfl⟩
  obtain ⟨x, hx⟩ := hread
  have happ := Peg.eq_append_of_read? hx
  rw [List.append_nil] at happ
  rw [hx, happ]

end TokenRule

end SqlTables
