import SqlTables.Proofs.TypeText.Reading
import SqlTables.Proofs.Token.Terminator

/-! Tokens up to a delimiter. They are read without what stands behind them, so they are the same
tokens before any other delimiter. Parentheses and commas are tokens by themselves. -/

namespace SqlTables

open Lexeme
open Scan (Gap Scans Delimited head? isGap)
open Source (closing? isQuote)
open Text (Position)

variable {cs rest after after' : List Char} {c : Char} {as bs ws : List Lexeme} {p p' : Position}
  {ts : List Token}

theorem Source.closing?_of_append {escapes : Bool} {quote : Char} {inside : List Char}
    (h : closing? escapes quote (cs ++ after) = some (inside, rest ++ after)) :
    closing? escapes quote cs = some (inside, rest) := by
  have hcs : cs = inside ++ quote :: rest := by
    have happ := eq_append_of_closing? h
    rwa [← List.cons_append, ← List.append_assoc, List.append_left_inj] at happ
  fun_induction closing? escapes quote cs generalizing inside with
  | case1 => simp at hcs
  | case2 c hstep =>
    obtain ⟨rfl, hrest⟩ | ⟨-, hrest⟩ := List.append_eq_singleton_iff.1 hcs.symm
    · rw [(List.cons.inj hrest).2]
    · cases hrest
  | case3 c hstep =>
    obtain ⟨rfl, -⟩ | ⟨-, hrest⟩ := List.append_eq_singleton_iff.1 hcs.symm
    swap
    · cases hrest
    cases after with
    | nil => simp [closing?, hstep] at h
    | cons d after =>
      -- the character closes the literal, and so it does at the end
      have hclose : literalStep escapes quote c (some d) = .close := by
        rw [List.singleton_append, closing?] at h
        cases hs : literalStep escapes quote c (some d) <;> simp [hs] at h ⊢
      unfold literalStep at hstep hclose
      grind
  | case4 c d tail hstep =>
    rw [List.cons_append, List.cons_append, closing?, hstep] at h
    simp only [Option.some.injEq, Prod.mk.injEq, ← List.cons_append, List.append_left_inj] at h
    rw [← h.1, h.2]
  | case5 c d tail hstep ih =>
    rw [List.cons_append, List.cons_append, closing?, hstep] at h
    obtain ⟨⟨i, r⟩, hi, he⟩ := Option.map_eq_some_iff.1 h
    simp only [Prod.mk.injEq] at he
    obtain ⟨rfl, rfl⟩ := he
    simp only [List.cons_append, List.cons.injEq, true_and] at hcs
    rw [ih hi hcs]
    rfl
  | case6 c d tail hstep ih =>
    rw [List.cons_append, List.cons_append, closing?, hstep] at h
    obtain ⟨⟨i, r⟩, hi, he⟩ := Option.map_eq_some_iff.1 h
    simp only [Prod.mk.injEq] at he
    obtain ⟨rfl, rfl⟩ := he
    simp only [List.cons_append, List.cons.injEq, true_and] at hcs
    rw [ih hi hcs]
    rfl

namespace Scan

theorem head?_of_append (ha : Delimited after) {kind : TokenKind} {lexeme : List Char}
    (h : head? c (cs ++ after) = some ⟨kind, lexeme, rest ++ after⟩) :
    head? c cs = some ⟨kind, lexeme, rest⟩ := by
  cases ht : head? c cs with
  | some t =>
    rw [head?_append ha ht, Option.some.injEq, Head.mk.injEq, List.append_left_inj] at h
    obtain ⟨rfl, rfl, rfl⟩ := h
    rfl
  | none =>
    -- nothing is read of an open literal only, and this one closes before the delimiter
    have hc : isQuote c = true := by
      by_contra hc
      exact head?_ne_none (Bool.eq_false_iff.2 hc) cs ht
    rw [head?, if_pos hc] at h ht
    obtain ⟨⟨inside, tail⟩, hclose, he⟩ := Option.map_eq_some_iff.1 h
    simp only [Head.mk.injEq] at he
    rw [he.2.2] at hclose
    simp [literal?, Source.closing?_of_append hclose] at ht

theorem Scans.exchange (h : Scans p cs ts p' after) (ha : Delimited after) :
    ∃ as, cs = as ++ after ∧
      ∀ after', Delimited after' → Scans p (as ++ after') ts p' after' := by
  induction h with
  | done p cs => exact ⟨[], rfl, fun after' _ => .done p after'⟩
  | @token p p' gap rest cs c t ts hgap hc ht hts ih =>
    obtain ⟨as, has, hscans⟩ := ih ha
    obtain ⟨happ, hne⟩ := eq_append_of_head? ht
    obtain ⟨d, lexeme, hlexeme⟩ := List.exists_cons_of_ne_nil hne
    rw [hlexeme, List.cons_append, List.cons.injEq, has] at happ
    obtain ⟨rfl, hrest⟩ := happ
    have hwhole : head? c (lexeme ++ as ++ cs) = some ⟨t.kind, t.lexeme, as ++ cs⟩ := by
      rw [List.append_assoc, ← hrest, ht, ← has]
    have hhead := head?_of_append ha hwhole
    refine ⟨gap ++ c :: (lexeme ++ as), by simp [hrest], fun after' ha' => ?_⟩
    rw [List.append_assoc, List.cons_append]
    exact .token (t := ⟨t.kind, t.lexeme, as ++ after'⟩) hgap hc (head?_append ha' hhead)
      (hscans after' ha')

end Scan

namespace Lexeme

/-- Whether lexemes are what is read of their text before another, wherever it stands. -/
def Reads (ws : List Lexeme) (after : List Char) : Prop :=
  ∀ p, ∃ p', Scans p (textOf ws ++ after) (tokensAt p ws) p' after

theorem Reads.nil (after : List Char) : Reads [] after := fun p => ⟨p, .done p after⟩

theorem reads_of_scans (h : Scans p cs ts p' after) : Reads (ts.map ofToken) after := by
  intro q
  rw [textOf_append_of_scans h]
  exact h.moved q

theorem Reads.append (ha : Reads as (textOf bs ++ after)) (hb : Reads bs after) :
    Reads (as ++ bs) after := by
  obtain ⟨q, hfirst⟩ := ha .start
  obtain ⟨q', hlast⟩ := hb q
  have hboth := reads_of_scans (hfirst.append hlast)
  rwa [List.map_append, map_ofToken_tokensAt, map_ofToken_tokensAt] at hboth

theorem Reads.split (h : Reads (as ++ bs) after) :
    Reads as (textOf bs ++ after) ∧ Reads bs after := by
  obtain ⟨p', hscans⟩ := h .start
  rw [tokensAt_append] at hscans
  obtain ⟨q, mid, hfirst, hlast⟩ := hscans.split
  have has := reads_of_scans hfirst
  have hbs := reads_of_scans hlast
  have hmid := textOf_append_of_scans hlast
  rw [map_ofToken_tokensAt] at has hbs hmid
  exact ⟨hmid ▸ has, hbs⟩

theorem Reads.exchange (h : Reads ws after) (ha : Delimited after) (ha' : Delimited after') :
    Reads ws after' := by
  intro p
  obtain ⟨p', hscans⟩ := h p
  obtain ⟨as, has, hall⟩ := hscans.exchange ha
  rw [List.append_left_inj] at has
  rw [has]
  exact ⟨p', hall after' ha'⟩

theorem reads_mark {gap : List Char} (hc : c ∈ ['(', ')', ',', ';']) (hg : Gap gap)
    (after : List Char) : Reads [mark gap c] after :=
  fun p => ⟨_, (written_mark (List.mem_append_left ['='] hc) hg after).scans p⟩

theorem Reads.eq_mark {w : Lexeme} (h : Reads [w] after) (hc : c ∈ ['(', ')', ',', ';'])
    (hk : w.kind = Scan.punctuation c) : Gap w.gap ∧ w = mark w.gap c := by
  obtain ⟨p', hscans⟩ := h .start
  generalize textOf [w] ++ after = text at hscans
  generalize htokens : tokensAt Position.start [w] = ts at hscans
  cases hscans with
  | done => cases htokens
  | @token _ _ gap rest _ d t _ hgap hd ht =>
    have hw := congrArg (List.map ofToken) htokens
    rw [map_ofToken_tokensAt, List.map_cons, List.cons.injEq] at hw
    have hlexeme := (Scan.eq_of_head?_punctuation hc ht (by rw [← hk, hw.1]; rfl)).2
    refine ⟨by simpa [hw.1, ofToken] using hgap, ?_⟩
    rw [mark, ← hk, hw.1]
    simp [ofToken, hlexeme]

end Lexeme

end SqlTables
