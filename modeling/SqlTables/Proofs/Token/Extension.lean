import SqlTables.Proofs.Token.Scanning
import SqlTables.Proofs.Source.Literals

/-! Tokens before more text. A token read from the end of a text stays the same token when a blank,
a comma, a parenthesis or a semicolon follows the text. -/

namespace SqlTables

namespace Scan

open Source (isQuote closing?)

def delimiters : List Char := [' ', '\t', '\r', '\n', ',', '(', ')', ';']

def Delimited (cs : List Char) : Prop := ∀ c, cs.head? = some c → c ∈ delimiters

@[simp] theorem delimited_nil : Delimited [] := by simp [Delimited]

@[simp] theorem delimited_cons {c : Char} {cs : List Char} :
    Delimited (c :: cs) ↔ c ∈ delimiters := by simp [Delimited]

theorem of_isGap {p : Char → Bool} (hp : [' ', '\t', '\r', '\n'].all p = true) {c : Char}
    (h : isGap c = true) : p c = true := by
  refine List.all_eq_true.1 hp c ?_
  simpa [isGap, or_assoc] using h

theorem mem_delimiters_of_isGap {c : Char} (h : isGap c = true) : c ∈ delimiters :=
  List.contains_iff_mem.1 (of_isGap (p := delimiters.contains) (by decide) h)

theorem isGap_eq_false_of_class {p : Char → Bool} (hp : delimiters.all (!p ·) = true) {c : Char}
    (h : p c = true) : isGap c = false := by
  by_contra hg
  rw [Bool.not_eq_false] at hg
  have hc := List.all_eq_true.1 hp c (mem_delimiters_of_isGap hg)
  simp [h] at hc

variable {after : List Char}

theorem Delimited.head?_ne (h : Delimited after) {c : Char} (hc : c ∉ delimiters) :
    after.head? ≠ some c :=
  fun hh => hc (h c hh)

theorem takeWhile_append (h : Delimited after) {p : Char → Bool}
    (hp : delimiters.all (!p ·) = true) (cs : List Char) :
    (cs ++ after).takeWhile p = cs.takeWhile p ∧
      (cs ++ after).dropWhile p = cs.dropWhile p ++ after := by
  induction cs with
  | nil =>
    cases after with
    | nil => simp
    | cons c after =>
      have hc : p c = false := by simpa using List.all_eq_true.1 hp c (delimited_cons.1 h)
      simp [hc]
  | cons c cs ih =>
    by_cases hc : p c = true
    · simp [hc, ih.1, ih.2]
    · simp [hc]

def extended (after : List Char) (found : List Char × List Char) : List Char × List Char :=
  (found.1, found.2 ++ after)

theorem digits?_append (h : Delimited after) (cs : List Char) :
    Text.digits? (cs ++ after) = (Text.digits? cs).map (extended after) := by
  obtain ⟨htake, hdrop⟩ := takeWhile_append h (p := Char.isDigit) (by decide) cs
  rw [Text.digits?, Text.digits?, htake, hdrop]
  split <;> rfl

theorem digits?_of_delimited (h : Delimited after) : Text.digits? after = none :=
  digits?_append h []

theorem fraction?_append (h : Delimited after) (cs : List Char) :
    fraction? (cs ++ after) = (fraction? cs).map (extended after) := by
  cases cs with
  | nil =>
    cases after with
    | nil => rfl
    | cons c after =>
      have hc : c ≠ '.' := by
        rintro rfl
        exact absurd (delimited_cons.1 h) (by decide)
      simp [fraction?, hc]
  | cons c cs =>
    by_cases hc : c = '.'
    · subst hc
      rw [List.cons_append, fraction?, fraction?, digits?_append h]
      cases Text.digits? cs <;> rfl
    · simp [fraction?, hc]

theorem exponent?_append (h : Delimited after) (cs : List Char) :
    exponent? (cs ++ after) = (exponent? cs).map (extended after) := by
  match cs with
  | [] =>
    match after with
    | [] | [_] => rfl
    | c :: d :: after =>
      have hc : ¬(c = 'e' ∨ c = 'E') := by
        rintro (rfl | rfl) <;> exact absurd (delimited_cons.1 h) (by decide)
      simp [exponent?, hc]
  | [e] =>
    -- with a sign or digits after it the letter would begin an exponent
    cases after with
    | nil => rfl
    | cons c after =>
      have hc : ¬(c = '+' ∨ c = '-') := by
        rintro (rfl | rfl) <;> exact absurd (delimited_cons.1 h) (by decide)
      simp [exponent?, hc, digits?_of_delimited h]
  | e :: s :: cs =>
    have hs := digits?_append h (s :: cs)
    rw [List.cons_append] at hs
    rw [List.cons_append, List.cons_append, exponent?, exponent?, digits?_append h, hs]
    split_ifs with he hsign
    · cases Text.digits? cs <;> rfl
    · cases Text.digits? (s :: cs) <;> rfl
    · rfl

theorem extend_append {part? : List Char → Option (List Char × List Char)}
    (hp : ∀ cs, part? (cs ++ after) = (part? cs).map (extended after))
    (found : List Char × List Char) :
    extend part? (extended after found) = extended after (extend part? found) := by
  rw [extend, extend, extended, hp]
  cases part? found.2 <;> rfl

theorem magnitude?_append (h : Delimited after) (cs : List Char) :
    magnitude? (cs ++ after) = (magnitude? cs).map (extended after) := by
  rw [magnitude?, magnitude?, digits?_append h]
  cases Text.digits? cs with
  | none => rfl
  | some found =>
    simp only [Option.map_some]
    rw [extend_append (fraction?_append h), extend_append (exponent?_append h)]

theorem number?_eq_magnitude? {cs : List Char} (h : cs.head? ≠ some '-') :
    number? cs = magnitude? cs := by
  unfold number?
  split
  · simp at h
  · rfl

theorem number?_append (h : Delimited after) (cs : List Char) :
    number? (cs ++ after) = (number? cs).map (extended after) := by
  cases cs with
  | nil =>
    rw [List.nil_append, number?_eq_magnitude? (h.head?_ne (by decide))]
    exact magnitude?_append h []
  | cons c cs =>
    by_cases hc : c = '-'
    · subst hc
      rw [List.cons_append, number?, number?, magnitude?_append h]
      cases magnitude? cs <;> rfl
    · rw [number?_eq_magnitude? (by simpa using hc), number?_eq_magnitude? (by simpa using hc),
        magnitude?_append h]

theorem closing?_append {escapes : Bool} {quote : Char} {cs inside rest : List Char}
    (hq : rest = [] → after.head? ≠ some quote)
    (h : closing? escapes quote cs = some (inside, rest)) :
    closing? escapes quote (cs ++ after) = some (inside, rest ++ after) := by
  fun_induction closing? escapes quote cs generalizing inside rest with
  | case1 => simp at h
  | case2 c hs =>
    simp only [Option.some.injEq, Prod.mk.injEq] at h
    obtain ⟨rfl, rfl⟩ := h
    cases after with
    | nil => simp [closing?, hs]
    | cons d after =>
      -- at the end of the text the quote closes, and so it does if no other quote follows
      have hstep : Source.literalStep escapes quote c (some d) = .close := by
        have hd := hq rfl
        rw [List.head?_cons] at hd
        unfold Source.literalStep at hs ⊢
        grind
      simp [closing?, hstep]
  | case3 => simp at h
  | case4 c d tail hs =>
    simp only [Option.some.injEq, Prod.mk.injEq] at h
    obtain ⟨rfl, rfl⟩ := h
    simp [closing?, hs]
  | case5 c d tail hs ih =>
    obtain ⟨⟨i, r⟩, hi, he⟩ := Option.map_eq_some_iff.1 h
    simp only [Prod.mk.injEq] at he
    obtain ⟨rfl, rfl⟩ := he
    simp [closing?, hs, ih hq hi]
  | case6 c d tail hs ih =>
    obtain ⟨⟨i, r⟩, hi, he⟩ := Option.map_eq_some_iff.1 h
    simp only [Prod.mk.injEq] at he
    obtain ⟨rfl, rfl⟩ := he
    have hi' := ih hq hi
    rw [List.cons_append] at hi'
    simp [closing?, hs, hi']

theorem literal?_append (h : Delimited after) {c : Char} (hc : isQuote c = true)
    {rest : List Char} {t : Head} (ht : literal? c rest = some t) :
    literal? c (rest ++ after) = some ⟨t.kind, t.lexeme, t.rest ++ after⟩ := by
  obtain ⟨⟨inside, tail⟩, hclose, rfl⟩ := Option.map_eq_some_iff.1 ht
  have hq : after.head? ≠ some c := by
    refine h.head?_ne ?_
    rcases Source.isQuote_iff.1 hc with rfl | rfl | rfl <;> decide
  rw [literal?, closing?_append (fun _ => hq) hclose]
  rfl

theorem head?_append (h : Delimited after) {c : Char} {rest : List Char} {t : Head}
    (ht : head? c rest = some t) :
    head? c (rest ++ after) = some ⟨t.kind, t.lexeme, t.rest ++ after⟩ := by
  unfold head? at ht ⊢
  by_cases hc : isQuote c = true
  · rw [if_pos hc] at ht ⊢
    exact literal?_append h hc ht
  · have hnumber := number?_append h (c :: rest)
    rw [List.cons_append] at hnumber
    rw [if_neg hc] at ht ⊢
    rw [hnumber]
    cases hn : number? (c :: rest) with
    | some found =>
      simp only [hn, Option.some.injEq] at ht
      subst ht
      rfl
    | none =>
      simp only [hn] at ht
      simp only [Option.map_none]
      obtain ⟨htake, hdrop⟩ := takeWhile_append h (p := continuesWord) (by decide) rest
      by_cases hb : beginsWord c = true
      · rw [if_pos hb, Option.some.injEq] at ht
        subst ht
        rw [if_pos hb, htake, hdrop]
      · rw [if_neg hb] at ht ⊢
        -- a cast takes two colons, and no delimiter is one
        have hcolon : (rest ++ after).head? = some ':' ↔ rest.head? = some ':' := by
          cases rest with
          | nil => simpa using h.head?_ne (by decide)
          | cons d rest => simp
        simp only [hcolon]
        split_ifs at ht ⊢ with hdouble
        · rw [Option.some.injEq] at ht
          subst ht
          obtain ⟨tail, rfl⟩ := List.head?_eq_some_iff.1 hdouble.2
          rfl
        · rw [Option.some.injEq] at ht
          subst ht
          rfl

end Scan

end SqlTables
