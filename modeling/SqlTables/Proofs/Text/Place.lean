import Mathlib.Data.List.Forall2
import Mathlib.Data.List.Induction
import SqlTables.Proofs.Token.Scanning

/-! Lines and columns. The place reached by going over a text is its number of lines and the length
of the last, and that is where the next character is found again. -/

namespace SqlTables.Text

/-- The character at a line and a column, both counted from one; lines end at line feeds. -/
def charAt? (text : List Char) (line column : Nat) : Option Char :=
  (text.splitOn '\n')[line - 1]?.bind (·[column - 1]?)

def lineCount (text : List Char) : Nat := (text.splitOn '\n').length

def lastLine (text : List Char) : List Char := (text.splitOn '\n').getLastD []

variable {c : Char} {cs : List Char}

theorem splitOn_newline_cons (cs : List Char) :
    ('\n' :: cs).splitOn '\n' = [] :: cs.splitOn '\n' := by
  rw [List.splitOn_cons_eq_if_modifyHead, if_pos (by simp)]

theorem splitOn_cons_of_ne (h : c ≠ '\n') (cs : List Char) :
    (c :: cs).splitOn '\n' = (cs.splitOn '\n').modifyHead (c :: ·) := by
  rw [List.splitOn_cons_eq_if_modifyHead, if_neg (by simpa using h)]

theorem splitOn_append (before cs : List Char) :
    (before ++ cs).splitOn '\n' = (before.splitOn '\n').dropLast ++
      (cs.splitOn '\n').modifyHead (lastLine before ++ ·) := by
  unfold lastLine
  induction before with
  | nil =>
    obtain ⟨line, lines, h⟩ := List.exists_cons_of_ne_nil (List.splitOn_ne_nil '\n' cs)
    simp [h]
  | cons d before ih =>
    obtain ⟨line, lines, h⟩ := List.exists_cons_of_ne_nil (List.splitOn_ne_nil '\n' before)
    rw [h] at ih
    by_cases hd : d = '\n'
    · subst hd
      rw [List.cons_append, splitOn_newline_cons, splitOn_newline_cons, ih, h]
      rfl
    · rw [List.cons_append, splitOn_cons_of_ne hd, splitOn_cons_of_ne hd, ih, h]
      cases lines with
      | nil =>
        obtain ⟨line', lines', h'⟩ := List.exists_cons_of_ne_nil (List.splitOn_ne_nil '\n' cs)
        simp [h']
      | cons line' lines => rfl

theorem splitOn_eq (text : List Char) :
    text.splitOn '\n' = (text.splitOn '\n').dropLast ++ [lastLine text] := by
  have h := splitOn_append text []
  rwa [List.append_nil, List.splitOn_nil, List.modifyHead_cons, List.append_nil] at h

theorem lineCount_eq (text : List Char) :
    lineCount text = (text.splitOn '\n').dropLast.length + 1 := by
  rw [lineCount, splitOn_eq, List.length_append]
  simp

theorem charAt?_append (h : c ≠ '\n') (before after : List Char) :
    charAt? (before ++ c :: after) (lineCount before) ((lastLine before).length + 1) = some c := by
  obtain ⟨line, lines, hl⟩ := List.exists_cons_of_ne_nil (List.splitOn_ne_nil '\n' after)
  rw [charAt?, splitOn_append, splitOn_cons_of_ne h, hl, lineCount_eq]
  simp

theorem Position.start_advance (cs : List Char) :
    Position.start.advance cs = ⟨lineCount cs, (lastLine cs).length + 1, bytes cs⟩ := by
  induction cs using List.reverseRecOn with
  | nil => rfl
  | append_singleton cs c ih =>
    have hsplit := splitOn_append cs [c]
    rw [Position.advance_append, ih, Text.bytes_append, lineCount_eq]
    by_cases hc : c = '\n'
    · subst hc
      rw [splitOn_newline_cons] at hsplit
      simp [Position.advance, Position.step, lineCount, lastLine, hsplit]
    · rw [splitOn_cons_of_ne hc] at hsplit
      simp [Position.advance, Position.step, lineCount, lastLine, hsplit, hc, Nat.add_assoc]

variable {R : Char → Char → Prop}

theorem forall₂_splitOn (hR : ∀ a b, R a b → (a = '\n' ↔ b = '\n')) {as bs : List Char}
    (h : List.Forall₂ R as bs) :
    List.Forall₂ (List.Forall₂ R) (as.splitOn '\n') (bs.splitOn '\n') := by
  induction h with
  | nil => exact .cons .nil .nil
  | cons hab _ ih =>
    rename_i a b as bs _
    by_cases ha : a = '\n'
    · obtain rfl := (hR a b hab).1 ha
      rw [ha, splitOn_newline_cons, splitOn_newline_cons]
      exact .cons .nil ih
    · have hb : b ≠ '\n' := fun hb => ha ((hR a b hab).2 hb)
      rw [splitOn_cons_of_ne ha, splitOn_cons_of_ne hb]
      obtain ⟨line, lines, hl⟩ := List.exists_cons_of_ne_nil (List.splitOn_ne_nil '\n' as)
      rw [hl] at ih ⊢
      obtain ⟨line', lines', hline, hlines, hl'⟩ := List.forall₂_cons_left_iff.1 ih
      rw [hl']
      exact .cons (.cons hab hline) hlines

theorem getElem?_of_forall₂ {α β : Type} {R : α → β → Prop} {as : List α} {bs : List β}
    (h : List.Forall₂ R as bs) {i : Nat} {b : β} (hb : bs[i]? = some b) :
    ∃ a, as[i]? = some a ∧ R a b := by
  induction h generalizing i with
  | nil => simp at hb
  | cons hab _ ih =>
    cases i with
    | zero =>
      cases hb
      exact ⟨_, rfl, hab⟩
    | succ i => exact ih hb

theorem charAt?_of_forall₂ (hR : ∀ a b, R a b → (a = '\n' ↔ b = '\n')) {as bs : List Char}
    (h : List.Forall₂ R as bs) {line column : Nat} {b : Char}
    (hb : charAt? bs line column = some b) : ∃ a, charAt? as line column = some a ∧ R a b := by
  obtain ⟨lineB, hlineB, hb⟩ := Option.bind_eq_some_iff.1 hb
  obtain ⟨lineA, hlineA, hlines⟩ := getElem?_of_forall₂ (forall₂_splitOn hR h) hlineB
  obtain ⟨a, ha, hab⟩ := getElem?_of_forall₂ hlines hb
  exact ⟨a, Option.bind_eq_some_iff.2 ⟨lineA, hlineA, ha⟩, hab⟩

end SqlTables.Text
