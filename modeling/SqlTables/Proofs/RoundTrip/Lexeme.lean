import SqlTables.Dialect.Basic
import SqlTables.Proofs.Source.Uncommented
import SqlTables.Proofs.Token.Extension

/-! Texts written as tokens. A written text is scanned into the tokens it was made of when each of
them, as it stands before the rest, is read as itself, and no comment begins in it. -/

namespace SqlTables

open Scan (Gap Scans Delimited delimiters isGap head? beginsWord continuesWord number?)
open Source (Uncommented isQuote closing?)
open Text (Position)

/-- A token to be written, with the blanks before it. -/
structure Lexeme where
  gap : List Char
  kind : TokenKind
  text : List Char
deriving Repr, DecidableEq

namespace Lexeme

def chars (w : Lexeme) : List Char := w.gap ++ w.text

def token (p : Position) (w : Lexeme) : Token :=
  ⟨String.ofList w.gap, w.kind, String.ofList w.text, p.advance w.gap⟩

def textOf (ws : List Lexeme) : List Char := ws.flatMap chars

def tokensAt : Position → List Lexeme → List Token
  | _, [] => []
  | p, w :: ws => w.token p :: tokensAt (p.advance w.chars) ws

@[simp] theorem textOf_nil : textOf [] = [] := rfl

@[simp] theorem textOf_cons (w : Lexeme) (ws : List Lexeme) :
    textOf (w :: ws) = w.gap ++ w.text ++ textOf ws := rfl

@[simp] theorem textOf_append (as bs : List Lexeme) :
    textOf (as ++ bs) = textOf as ++ textOf bs := List.flatMap_append

theorem textOf_flatMap {α : Type} (f : α → List Lexeme) (xs : List α) :
    textOf (xs.flatMap f) = xs.flatMap fun x => textOf (f x) := List.flatMap_assoc

@[simp] theorem tokensAt_nil (p : Position) : tokensAt p [] = [] := rfl

@[simp] theorem tokensAt_cons (p : Position) (w : Lexeme) (ws : List Lexeme) :
    tokensAt p (w :: ws) = w.token p :: tokensAt (p.advance w.chars) ws := rfl

theorem tokensAt_append (p : Position) (as bs : List Lexeme) :
    tokensAt p (as ++ bs) = tokensAt p as ++ tokensAt (p.advance (textOf as)) bs := by
  induction as generalizing p with
  | nil => rfl
  | cons w as ih =>
    rw [List.cons_append, tokensAt, ih, tokensAt, textOf_cons, Position.advance_append]
    rfl

theorem exists_of_mem_tokensAt {t : Token} {p : Position} {ws : List Lexeme}
    (h : t ∈ tokensAt p ws) : ∃ w ∈ ws, ∃ q, t = w.token q := by
  induction ws generalizing p with
  | nil => simp at h
  | cons w ws ih =>
    rcases List.mem_cons.1 h with rfl | h
    · exact ⟨w, by simp, p, rfl⟩
    · obtain ⟨u, hu, q, rfl⟩ := ih h
      exact ⟨u, List.mem_cons_of_mem _ hu, q, rfl⟩

structure ReadBefore (w : Lexeme) (after : List Char) : Prop where
  gap : Gap w.gap
  head : ∃ c rest, w.text = c :: rest ∧ isGap c = false ∧
    head? c (rest ++ after) = some ⟨w.kind, w.text, after⟩

end Lexeme

open Lexeme

/-- Whether lexemes are read as themselves before a text, one after the other, and hold no
comment. -/
structure Written (ws : List Lexeme) (after : List Char) : Prop where
  readBefore : ∀ as w bs, ws = as ++ w :: bs → w.ReadBefore (textOf bs ++ after)
  uncommented : Uncommented (textOf ws) after

variable {as bs ws : List Lexeme} {w : Lexeme} {after : List Char}

theorem Written.nil (after : List Char) : Written [] after :=
  ⟨by simp, .nil after⟩

theorem Written.append (ha : Written as (textOf bs ++ after)) (hb : Written bs after) :
    Written (as ++ bs) after := by
  refine ⟨fun xs w ys h => ?_, textOf_append as bs ▸ ha.uncommented.append hb.uncommented⟩
  -- the lexeme is among the second lexemes or, but for an empty rest, among the first
  rcases List.append_eq_append_iff.1 h with ⟨zs, rfl, hs⟩ | ⟨zs, rfl, hs⟩
  · exact hb.readBefore zs w ys hs
  · cases zs with
    | nil => exact hb.readBefore [] w ys hs.symm
    | cons z zs =>
      rw [List.cons_append, List.cons.injEq] at hs
      obtain ⟨rfl, rfl⟩ := hs
      have hz := ha.readBefore xs w zs rfl
      rwa [← List.append_assoc, ← textOf_append] at hz

theorem Written.singleton (h : w.ReadBefore after) (hu : Uncommented w.chars after) :
    Written [w] after := by
  refine ⟨fun xs v ys hs => ?_, by simpa [chars] using hu⟩
  match xs with
  | [] =>
    simp only [List.nil_append, List.cons.injEq] at hs
    obtain ⟨rfl, rfl⟩ := hs
    exact h
  | _ :: _ => simp at hs

theorem Written.scans (h : Written ws after) (p : Position) :
    Scans p (textOf ws ++ after) (tokensAt p ws) (p.advance (textOf ws)) after := by
  have hr := h.readBefore
  clear h
  induction ws generalizing p with
  | nil => exact .done p after
  | cons w ws ih =>
    obtain ⟨hgap, c, rest, htext, hc, hhead⟩ := hr [] w ws rfl
    have hrest := ih (p.advance w.chars) fun as v bs hs => hr (w :: as) v bs (by rw [hs]; rfl)
    have hscan := Scans.token (p := p) hgap hc hhead (by
      rw [← Position.advance_append]
      exact hrest)
    have hs : w.gap ++ c :: (rest ++ (textOf ws ++ after)) = textOf (w :: ws) ++ after := by
      simp [htext]
    rw [hs] at hscan
    have hp : (p.advance w.chars).advance (textOf ws) = p.advance (textOf (w :: ws)) := by
      rw [textOf_cons, Position.advance_append]
      rfl
    rw [← hp]
    exact hscan

def Tight (ws : List Lexeme) : Prop := ∀ after, Delimited after → Written ws after

structure Sealed (ws : List Lexeme) : Prop where
  tight : Tight ws
  delimited : ∀ after, Delimited after → Delimited (textOf ws ++ after)

theorem Sealed.nil : Sealed [] := ⟨fun after _ => .nil after, fun _ h => h⟩

theorem Tight.append (ha : Tight as) (hb : Sealed bs) : Tight (as ++ bs) := fun after h =>
  (ha _ (hb.delimited after h)).append (hb.tight after h)

theorem Sealed.append (ha : Sealed as) (hb : Sealed bs) : Sealed (as ++ bs) := by
  refine ⟨ha.tight.append hb, fun after h => ?_⟩
  rw [textOf_append, List.append_assoc]
  exact ha.delimited _ (hb.delimited after h)

theorem Sealed.flatMap {α : Type} {f : α → List Lexeme} {xs : List α}
    (h : ∀ x ∈ xs, Sealed (f x)) : Sealed (xs.flatMap f) := by
  induction xs with
  | nil => exact .nil
  | cons x xs ih =>
    rw [List.forall_mem_cons] at h
    rw [List.flatMap_cons]
    exact h.1.append (ih h.2)

theorem Tight.sealed (h : Tight (w :: ws)) (hg : w.gap ≠ []) : Sealed (w :: ws) := by
  refine ⟨h, fun after _ => ?_⟩
  -- the blank before the first lexeme is a delimiter
  obtain ⟨c, gap, hc⟩ := List.exists_cons_of_ne_nil hg
  have hgap := ((h [] (by simp)).readBefore [] w ws rfl).gap c (by simp [hc])
  rw [textOf_cons, hc]
  exact Scan.delimited_cons.2 (Scan.mem_delimiters_of_isGap hgap)

end SqlTables
