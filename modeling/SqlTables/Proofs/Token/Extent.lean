import SqlTables.Proofs.RoundTrip.Spelling

/-! How much of a text its tokens take. The tokens of a text and the blanks between them make up the
text, and no string can be written in fewer characters than MySQL's quoting takes. -/

namespace SqlTables

open Dialect (double enclose)
open Source (closing?)
open Text (Position)

namespace Token

def width (t : Token) : Nat := t.gap.length + t.lexeme.length

def extent : List Token → Nat
  | [] => 0
  | t :: ts => t.width + extent ts

@[simp] theorem extent_nil : extent [] = 0 := rfl

@[simp] theorem extent_cons (t : Token) (ts : List Token) :
    extent (t :: ts) = t.width + extent ts := rfl

@[simp] theorem extent_append (as bs : List Token) :
    extent (as ++ bs) = extent as + extent bs := by
  induction as with
  | nil => simp
  | cons t as ih => rw [List.cons_append, extent_cons, extent_cons, ih, Nat.add_assoc]

theorem width_token (p : Position) (w : Lexeme) : (w.token p).width = w.chars.length := by
  simp [width, Lexeme.token, Lexeme.chars, String.length_ofList]

theorem extent_tokensAt (p : Position) (ws : List Lexeme) :
    extent (Lexeme.tokensAt p ws) = (Lexeme.textOf ws).length := by
  induction ws generalizing p with
  | nil => rfl
  | cons w ws ih =>
    rw [Lexeme.tokensAt_cons, extent_cons, width_token, ih, Lexeme.textOf_cons, Lexeme.chars,
      ← List.length_append]

/-- Whether the text of a token has room for what the token says: a number is its own text, and a
quoted value takes more characters than it has. -/
structure Spelled (t : Token) : Prop where
  pos : 0 < t.lexeme.length
  number : ∀ s, t.kind = .number s → t.lexeme = s
  name : ∀ s, t.kind = .quotedName s → s.length < t.lexeme.length
  string : ∀ s, t.kind = .string s → (Dialect.mysql.quoteString s).length ≤ t.lexeme.length

end Token

variable {c : Char} {cs inside rest : List Char}

theorem length_double (quote : Char) (cs : List Char) :
    (double quote cs).length = cs.length + cs.count quote := by
  induction cs with
  | nil => rfl
  | cons c cs ih =>
    by_cases hc : c = quote
    · subst hc
      rw [double_cons_self, List.count_cons_self]
      simp only [List.length_cons, ih]
      omega
    · rw [double_cons_of_ne hc, List.count_cons_of_ne hc]
      simp only [List.length_cons, ih]
      omega

theorem length_enclose (quote : Char) (cs : List Char) :
    (enclose quote cs).length = cs.length + cs.count quote + 2 := by
  rw [enclose, String.length_ofList]
  simp [length_double]

theorem count_double {quote d : Char} (h : d ≠ quote) (cs : List Char) :
    (double quote cs).count d = cs.count d := by
  induction cs with
  | nil => rfl
  | cons c cs ih =>
    by_cases hc : c = quote
    · subst hc
      rw [double_cons_self, List.count_cons_of_ne h.symm, List.count_cons_of_ne h.symm,
        List.count_cons_of_ne h.symm, ih]
    · rw [double_cons_of_ne hc, List.count_cons, List.count_cons, ih]

theorem length_quoteString (s : String) : (Dialect.mysql.quoteString s).length =
    s.toList.length + s.toList.count '\\' + s.toList.count '\x27' + 2 := by
  rw [Dialect.quoteString, length_enclose, length_double, count_double (by decide)]

namespace Scan

theorem length_undouble_le (quote : Char) (cs : List Char) :
    (undouble quote cs).length ≤ cs.length := by
  fun_induction undouble quote cs with
  | case1 | case2 => simp
  | case3 c d rest h ih => simpa using Nat.le_succ_of_le ih
  | case4 c d rest h ih => simpa using ih

theorem length_unescape_le (h : closing? true '\x27' cs = some (inside, rest)) :
    (unescape inside).length + (unescape inside).count '\\' + (unescape inside).count '\x27' ≤
      inside.length := by
  have hcount (c : Char) : [c].count '\\' + [c].count '\x27' ≤ 1 := by
    by_cases hs : c = '\\'
    · subst hs
      decide
    · rw [List.count_cons_of_ne hs, List.count_nil, Nat.zero_add]
      exact List.count_le_length
  fun_induction closing? true '\x27' cs generalizing inside rest with
  | case1 | case3 => simp at h
  | case2 | case4 =>
    cases h
    exact Nat.le_refl _
  | case5 c d tail hs ih =>
    obtain ⟨⟨i, r⟩, hi, he⟩ := Option.map_eq_some_iff.1 h
    cases he
    have htail := ih hi
    -- a pair is a doubled quote or an escape, of which one character is left
    have hpair (e : Char) (he : unescape (c :: d :: i) = e :: unescape i) :
        (unescape (c :: d :: i)).length + (unescape (c :: d :: i)).count '\\' +
          (unescape (c :: d :: i)).count '\x27' ≤ (c :: d :: i).length := by
      have hone := hcount e
      rw [he, ← List.singleton_append, List.count_append, List.count_append]
      simp only [List.length_append, List.length_cons, List.length_nil]
      omega
    by_cases hc : c = '\x27' ∧ d = '\x27'
    · exact hpair '\x27' (by rw [unescape, if_pos hc])
    · have hslash : c = '\\' := by
        unfold Source.literalStep at hs
        grind
      exact hpair (escaped d) (by rw [unescape, if_neg hc, if_pos hslash])
  | case6 c d tail hs ih =>
    obtain ⟨⟨i, r⟩, hi, he⟩ := Option.map_eq_some_iff.1 h
    cases he
    have htail := ih hi
    have hc : c ≠ '\x27' ∧ c ≠ '\\' := by
      unfold Source.literalStep at hs
      grind
    rw [unescape_cons_of_ne hc.1 hc.2, List.count_cons_of_ne hc.2, List.count_cons_of_ne hc.1]
    simp only [List.length_cons]
    omega

theorem spelled_of_head? {t : Head} (h : head? c cs = some t) (gap : String) (p : Position) :
    Token.Spelled ⟨gap, t.kind, String.ofList t.lexeme, p⟩ := by
  have hpos : 0 < (String.ofList t.lexeme).length := by
    rw [String.length_ofList]
    exact List.length_pos_iff.2 (eq_append_of_head? h).2
  by_cases hc : Source.isQuote c = true
  · rw [head?, if_pos hc, literal?] at h
    obtain ⟨⟨inside, after⟩, hclose, rfl⟩ := Option.map_eq_some_iff.1 h
    by_cases hq : c = '\x27'
    · subst hq
      have hlength := length_unescape_le hclose
      refine ⟨hpos, by simp, by simp, fun s hs => ?_⟩
      obtain rfl : String.ofList (unescape inside) = s := by simpa using hs
      rw [length_quoteString, String.length_ofList, String.toList_ofList]
      simp only [List.length_append, List.length_cons, List.length_nil]
      omega
    · have hlength := length_undouble_le c inside
      refine ⟨hpos, by simp [hq], fun s hs => ?_, by simp [hq]⟩
      obtain rfl : String.ofList (undouble c inside) = s := by simpa [hq] using hs
      rw [String.length_ofList, String.length_ofList]
      simp only [List.length_append, List.length_cons, List.length_nil]
      omega
  · have hliteral := (head?_of_not_quote (by simpa using hc) h).1
    refine ⟨hpos, fun s hs => ?_, ?_, ?_⟩
    · rw [head?, if_neg hc] at h
      split at h
      · cases h
        exact TokenKind.number.inj hs
      · split_ifs at h
        · cases h
          cases hs
        · cases h
          cases hs
        · cases h
          dsimp only at hs
          unfold punctuation at hs
          split at hs <;> cases hs
    all_goals
      intro s hs
      rw [show t.kind = _ from hs] at hliteral
      cases hliteral

variable {p p' : Position} {ts : List Token}

theorem Scans.spelled (h : Scans p cs ts p' rest) : ∀ t ∈ ts, t.Spelled := by
  induction h with
  | done => simp
  | token _ _ ht _ ih => exact List.forall_mem_cons.2 ⟨spelled_of_head? ht _ _, ih⟩

theorem Scans.length_eq (h : Scans p cs ts p' rest) :
    cs.length = Token.extent ts + rest.length := by
  induction h with
  | done => simp
  | token _ _ ht _ ih =>
    have happ := congrArg List.length (eq_append_of_head? ht).1
    rw [List.length_append, ih] at happ
    rw [List.length_append, happ, Token.extent_cons, Token.width, String.length_ofList,
      String.length_ofList]
    omega

end Scan

end SqlTables
