import SqlTables.Proofs.RoundTrip.Expression
import SqlTables.Proofs.Token.Extent

/-! Texts at other places. A text has the same lexemes wherever it stands, and a blank before it is
part of the first of them. -/

namespace SqlTables

open Lexeme
open Scan (Gap Scans head? isGap)
open Text (Position)
open Token (Spelled extent)

variable {ws es : List Lexeme} {t : Token} {ts : List Token} {p p' : Position}
  {cs gap : List Char}

namespace Lexeme

theorem length_tokensAt (p : Position) (ws : List Lexeme) :
    (tokensAt p ws).length = ws.length := by
  rw [← List.length_map ofToken, map_ofToken_tokensAt]

def spaced : List Lexeme → List Lexeme
  | [] => []
  | w :: ws => { w with gap := ' ' :: w.gap } :: ws

end Lexeme

namespace Scan

theorem scans_cons {c : Char} {tail rest : List Char} {t : Head} (hgap : Gap gap)
    (hc : isGap c = false) (ht : head? c tail = some t)
    (h : Scans (p.advance (gap ++ t.lexeme)) t.rest
      (tokensAt (p.advance (gap ++ t.lexeme)) ws) p' rest) :
    Scans p (gap ++ c :: tail) (tokensAt p (⟨gap, t.kind, t.lexeme⟩ :: ws)) p' rest :=
  .token hgap hc ht (Position.advance_append p gap t.lexeme ▸ h)

theorem Scans.moved {rest : List Char} (h : Scans p cs ts p' rest) (q : Position) :
    ∃ q', Scans q cs (tokensAt q (ts.map ofToken)) q' rest := by
  induction h generalizing q with
  | done => exact ⟨q, .done q _⟩
  | @token p p' gap tail rest c t us hgap hc ht hts ih =>
    obtain ⟨q', htail⟩ := ih (q.advance (gap ++ t.lexeme))
    refine ⟨q', ?_⟩
    simpa [ofToken] using scans_cons hgap hc ht htail

theorem Scans.space {rest : List Char} (h : Scans p cs ts p' rest) (hne : ts ≠ [])
    (q : Position) : ∃ q', Scans q (' ' :: cs) (tokensAt q (spaced (ts.map ofToken))) q' rest := by
  cases h with
  | done => exact absurd rfl hne
  | @token _ _ gap tail _ c t us hgap hc ht hts =>
    have hspace : Gap (' ' :: gap) := List.forall_mem_cons.2 ⟨rfl, hgap⟩
    obtain ⟨q', htail⟩ := hts.moved (q.advance (' ' :: gap ++ t.lexeme))
    refine ⟨q', ?_⟩
    simpa [ofToken, spaced] using scans_cons hspace hc ht htail

theorem Scans.exists_spaced {rest : List Char} (h : Scans p (' ' :: cs) ts p' rest)
    (hne : ts ≠ []) :
    ∃ es, ts.map ofToken = spaced es ∧ ∀ q, ∃ q', Scans q cs (tokensAt q es) q' rest := by
  generalize hs : ' ' :: cs = as at h
  cases h with
  | done => exact absurd rfl hne
  | @token _ _ gap tail _ c t us hgap hc ht hts =>
    cases gap with
    | nil =>
      rw [List.nil_append, List.cons.injEq] at hs
      rw [← hs.1] at hc
      cases hc
    | cons d gap =>
      rw [List.cons_append, List.cons.injEq] at hs
      obtain ⟨rfl, rfl⟩ := hs
      refine ⟨⟨gap, t.kind, t.lexeme⟩ :: us.map ofToken, by simp [ofToken, spaced], fun q => ?_⟩
      obtain ⟨q', htail⟩ := hts.moved (q.advance (gap ++ t.lexeme))
      exact ⟨q', scans_cons (List.forall_mem_cons.1 hgap).2 hc ht htail⟩

end Scan

theorem eq_tokensAt_of_scans {rest : List Char} (h : Scans p cs ts p' rest) :
    ts = tokensAt p (ts.map ofToken) := by
  induction h with
  | done => rfl
  | @token p p' gap tail rest c t us hgap hc ht hts ih =>
    rw [← Position.advance_append] at ih
    rw [List.map_cons, tokensAt_cons, List.cons.injEq]
    exact ⟨by simp [ofToken, token], by simpa [ofToken, chars] using ih⟩

theorem spelled_ofToken (h : Spelled t) (q : Position) : Spelled ((ofToken t).token q) := by
  have hlexeme : ((ofToken t).token q).lexeme = t.lexeme := String.ofList_toList
  have hkind : ((ofToken t).token q).kind = t.kind := rfl
  constructor
  · rw [hlexeme]
    exact h.pos
  · rw [hlexeme, hkind]
    exact h.number
  · rw [hlexeme, hkind]
    exact h.name
  · rw [hlexeme, hkind]
    exact h.string

theorem extent_eq_length_textOf (ts : List Token) :
    extent ts = (textOf (ts.map ofToken)).length := by
  induction ts with
  | nil => rfl
  | cons t ts ih =>
    rw [Token.extent_cons, ih, List.map_cons, textOf_cons, Token.width]
    simp [ofToken, String.length_toList, Nat.add_assoc]

theorem eq_nil_of_textOf (h : ∀ w ∈ ws, ∀ q, Spelled (w.token q))
    (ht : (textOf ws).length = 0) : ws = [] := by
  cases ws with
  | nil => rfl
  | cons w ws =>
    have hpos := (h w (by simp) .start).pos
    rw [token, String.length_ofList] at hpos
    rw [textOf_cons, List.length_append, List.length_append] at ht
    omega

theorem eq_tokensAt_of_append {xs rest : List Token} (h : tokensAt p ws = xs ++ rest) :
    xs = tokensAt p (xs.map ofToken) ∧ ws = xs.map ofToken ++ rest.map ofToken := by
  have hws := congrArg (List.map ofToken) h
  rw [map_ofToken_tokensAt, List.map_append] at hws
  rw [hws, tokensAt_append] at h
  exact ⟨(List.append_inj h (by simp [length_tokensAt])).1.symm, hws⟩

theorem textOf_spaced (hne : es ≠ []) : textOf (spaced es) = ' ' :: textOf es := by
  obtain ⟨w, ws, rfl⟩ := List.exists_cons_of_ne_nil hne
  rfl

end SqlTables
