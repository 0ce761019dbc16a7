import Mathlib.Data.List.Basic
import SqlTables.Proofs.Token.Extension
import SqlTables.Proofs.Token.Head

/-! Tokens before a semicolon. A text that ends with a semicolon of its own scans into the same
tokens whatever follows it, be it quotes or digits. -/

namespace SqlTables

namespace Scan

open Source (isQuote)
open Text (Position)

variable {c : Char} {rest as cs : List Char} {t : Head} {ts : List Token} {p p' : Position}

theorem head?_ne_none (hc : isQuote c = false) (rest : List Char) : head? c rest ≠ none := by
  rw [head?, if_neg (by simp [hc])]
  split
  · simp
  · split_ifs <;> simp

theorem head?_append_of_semicolon (ht : head? c rest = some t)
    (hlast : t.rest.getLast? = some ';') (after : List Char) :
    head? c (rest ++ after) = some ⟨t.kind, t.lexeme, t.rest ++ after⟩ := by
  cases hc : isQuote c with
  | true =>
    rw [head?, if_pos hc, literal?] at ht ⊢
    obtain ⟨⟨inside, tail⟩, hclose, rfl⟩ := Option.map_eq_some_iff.1 ht
    have hne : tail ≠ [] := by
      rintro rfl
      simp at hlast
    rw [closing?_append (fun h => absurd h hne) hclose]
    rfl
  | false =>
    -- the semicolon is taken off, and any text that begins with one ends the token
    obtain ⟨ys, hys⟩ := List.getLast?_eq_some_iff.1 hlast
    obtain ⟨happ, hlexeme⟩ := eq_append_of_head? ht
    obtain ⟨d, ds, hds⟩ := List.exists_cons_of_ne_nil hlexeme
    rw [hys, hds, List.cons_append, List.cons.injEq] at happ
    obtain ⟨u, hu⟩ := Option.ne_none_iff_exists'.1 (head?_ne_none hc (ds ++ ys))
    have hrest : rest = ds ++ ys ++ [';'] := by rw [happ.2, List.append_assoc]
    have hends (zs : List Char) : Delimited (';' :: zs) := delimited_cons.2 (by decide)
    have hshort := head?_append (hends []) hu
    have hlong := head?_append (hends after) hu
    rw [← hrest, ht, Option.some.injEq] at hshort
    rw [hrest, hshort]
    simpa using hlong

theorem head?_semicolon (rest : List Char) : head? ';' rest = some ⟨.semicolon, [';'], rest⟩ := by
  have hc : isQuote ';' = false := by decide
  have hn : number? (';' :: rest) = none := by
    rw [number?_eq_magnitude? (by simp)]
    rfl
  have hb : beginsWord ';' = false := by decide
  rw [head?, if_neg (by simp [hc]), hn]
  simp only [hb]
  rfl

theorem eq_of_head?_punctuation {d : Char} (hd : d ∈ ['(', ')', ',', ';'])
    (ht : head? c rest = some t) (hk : t.kind = punctuation d) : c = d ∧ t.lexeme = [d] := by
  have hkind : punctuation d = .leftParen ∧ d = '(' ∨ punctuation d = .rightParen ∧ d = ')' ∨
      punctuation d = .comma ∧ d = ',' ∨ punctuation d = .semicolon ∧ d = ';' := by
    simp only [List.mem_cons, List.not_mem_nil, or_false] at hd
    rcases hd with rfl | rfl | rfl | rfl <;> simp [punctuation]
  rw [← hk] at hkind
  unfold head? at ht
  split at ht
  · obtain ⟨⟨inside, tail⟩, -, rfl⟩ := Option.map_eq_some_iff.1 ht
    dsimp only at hkind
    split_ifs at hkind <;> simp at hkind
  split at ht
  · cases ht
    simp at hkind
  split_ifs at ht
  · cases ht
    simp at hkind
  · cases ht
    simp at hkind
  · cases ht
    have hc : c = d := by
      unfold punctuation at hkind
      split at hkind <;> simp at hkind <;> exact hkind.symm
    exact ⟨hc, by rw [hc]⟩

theorem Scans.suffix (h : Scans p as ts p' cs) : cs <:+ as := by
  induction h with
  | done => exact List.suffix_rfl
  | token _ _ ht _ ih =>
    rw [(eq_append_of_head? ht).1]
    exact (ih.trans (List.suffix_append _ _)).trans (List.suffix_append _ _)

theorem Scans.eq_nil_of_gap (h : Scans p as ts p' cs) (hgap : Gap cs)
    (hlast : as.getLast? = some ';') : cs = [] := by
  by_contra hne
  obtain ⟨before, rfl⟩ := h.suffix
  rw [List.getLast?_append_of_ne_nil _ hne] at hlast
  exact absurd (hgap _ (List.mem_of_getLast? hlast)) (by decide)

theorem Scans.append_after (h : Scans p as ts p' cs) (hcs : cs = [])
    (hlast : as.getLast? = some ';') (hk : ∀ t, ts.getLast? = some t → t.kind = .semicolon)
    (after : List Char) : Scans p (as ++ after) ts p' after := by
  induction h with
  | done p as => simp [hcs] at hlast
  | @token p p' gap rest cs c t ts hgap hc ht hts ih =>
    obtain ⟨happ, hlexeme⟩ := eq_append_of_head? ht
    rw [List.append_assoc, List.cons_append]
    rw [happ, ← List.append_assoc] at hlast
    cases ts with
    | nil =>
      obtain ⟨hrest, rfl⟩ := hts.eq_of_nil
      obtain ⟨rfl, hsemicolon⟩ := eq_of_head?_punctuation (d := ';') (by decide) ht (hk _ rfl)
      rw [hsemicolon, hrest, hcs, List.cons_append, List.cons.injEq] at happ
      have hhead : head? ';' (rest ++ after) = some ⟨t.kind, t.lexeme, after⟩ := by
        have hkind : t.kind = .semicolon := hk _ rfl
        rw [happ.2, head?_semicolon, hkind, hsemicolon]
        rfl
      exact .token (t := ⟨t.kind, t.lexeme, after⟩) hgap hc hhead (.done _ after)
    | cons u us =>
      rw [List.getLast?_append_of_ne_nil _ hts.ne_nil] at hlast
      exact .token (t := ⟨t.kind, t.lexeme, t.rest ++ after⟩) hgap hc
        (head?_append_of_semicolon ht hlast after)
        (ih hcs hlast (fun t ht => hk t (by simpa using ht)))

end Scan

end SqlTables
