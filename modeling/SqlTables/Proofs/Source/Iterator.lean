import SqlTables.Proofs.Source.Segmentation
import SqlTables.Proofs.Token.Lossless

/-! Statements one at a time. A cursor keeps the offset at which the last segment ended and looks
for the next statement from there on. It is never inside a character, gets on with each segment, and
in the end has found the statements of the text. -/

namespace SqlTables

open Text (bytes bytes_cons)

namespace Text

variable {n : Nat} {cs as bs : List Char}

/-- A text cut at an offset in bytes, which must not be inside a character or past the end. -/
def cutAt? : Nat → List Char → Option (List Char × List Char)
  | 0, cs => some ([], cs)
  | _ + 1, [] => none
  | n + 1, c :: cs =>
    if c.utf8Size ≤ n + 1 then
      (cutAt? (n + 1 - c.utf8Size) cs).map fun (before, after) => (c :: before, after)
    else none

theorem cutAt?_bytes (as bs : List Char) : cutAt? (bytes as) (as ++ bs) = some (as, bs) := by
  induction as with
  | nil => exact cutAt?.eq_1 bs
  | cons c as ih =>
    have hpos := c.utf8Size_pos
    obtain ⟨n, hn⟩ := Nat.exists_eq_succ_of_ne_zero (n := bytes (c :: as)) (by
      rw [bytes_cons]
      omega)
    have hrest : n + 1 - c.utf8Size = bytes as := by
      rw [bytes_cons] at hn
      omega
    rw [hn, List.cons_append, cutAt?, if_pos (by rw [bytes_cons] at hn; omega), hrest, ih]
    rfl

theorem eq_of_cutAt? (h : cutAt? n cs = some (as, bs)) : cs = as ++ bs ∧ bytes as = n := by
  fun_induction cutAt? n cs generalizing as with
  | case1 cs =>
    cases h
    exact ⟨rfl, rfl⟩
  | case2 => cases h
  | case3 n c cs hle ih =>
    obtain ⟨⟨before, after⟩, hcut, he⟩ := Option.map_eq_some_iff.1 h
    cases he
    obtain ⟨rfl, hbytes⟩ := ih hcut
    exact ⟨rfl, by rw [bytes_cons, hbytes]; omega⟩
  | case4 => cases h

end Text

namespace Source

open Text (cutAt?)

structure Cursor where
  text : List Char
  offset : Nat

variable {s text rest : List Char}

namespace Cursor

variable {c after : Cursor}

def segment? (c : Cursor) : Option (List Char × Cursor) := do
  let (_, rest) ← cutAt? c.offset c.text
  let size := terminatorEnd .code rest
  let (segment, _) ← cutAt? size rest
  return (segment, { c with offset := c.offset + size })

def left (c : Cursor) : Nat := bytes c.text - c.offset

def At (c : Cursor) (rest : List Char) : Prop :=
  ∃ before, c.text = before ++ rest ∧ c.offset = bytes before

theorem At.left_eq (h : c.At rest) : c.left = bytes rest := by
  obtain ⟨before, htext, hoffset⟩ := h
  rw [left, htext, hoffset, Text.bytes_append]
  omega

theorem At.segment? (h : c.At text) (hfirst : FirstSegment .code text s rest) :
    ∃ after, c.segment? = some (s, after) ∧ after.At rest := by
  obtain ⟨before, htext, hoffset⟩ := h
  refine ⟨{ c with offset := c.offset + terminatorEnd .code text }, ?_, before ++ s, ?_, ?_⟩
  · rw [Cursor.segment?, htext, hoffset, Text.cutAt?_bytes]
    have hcut := Text.cutAt?_bytes s rest
    rw [hfirst.size, ← hfirst.split] at hcut
    simp [hcut]
  · rw [htext, hfirst.split, List.append_assoc]
  · rw [Text.bytes_append, hfirst.size, hoffset]

theorem at_of_segment? (h : c.segment? = some (s, after)) : ∃ rest, c.At rest := by
  obtain ⟨⟨before, rest⟩, hcut, -⟩ := Option.bind_eq_some_iff.1 h
  obtain ⟨htext, hoffset⟩ := Text.eq_of_cutAt? hcut
  exact ⟨rest, before, htext, hoffset.symm⟩

theorem left_of_segment? (hc : c.offset < bytes c.text) (h : c.segment? = some (s, after)) :
    after.left < c.left := by
  obtain ⟨text, hat⟩ := at_of_segment? h
  have hne : text ≠ [] := by
    rintro rfl
    have hleft := hat.left_eq
    rw [left, Text.bytes_nil] at hleft
    omega
  obtain ⟨s, rest, hfirst⟩ := exists_firstSegment .code hne
  obtain ⟨after', hsegment, hafter⟩ := hat.segment? hfirst
  rw [hsegment, Option.some.injEq, Prod.mk.injEq] at h
  rw [← h.2, hafter.left_eq, hat.left_eq, hfirst.split, Text.bytes_append]
  have hpos := Text.bytes_pos hfirst.nonempty
  omega

/-- The next statement and the cursor after it, or none at the end. There is no result where an
offset is inside a character. -/
def next? (c : Cursor) : Option (Option Statement × Cursor) :=
  if _hc : c.offset < bytes c.text then
    match _h : c.segment? with
    | none => none
    | some (segment, after) =>
      match (Piece.ofSegment? segment).bind Piece.statement? with
      | some s => some (some s, after)
      | none => after.next?
  else some (none, c)
termination_by c.left
decreasing_by exact left_of_segment? _hc _h

theorem left_of_next? {s : Statement} (h : c.next? = some (some s, after)) :
    after.left < c.left := by
  fun_induction next? c with
  | case1 => cases h
  | case2 c hc segment rest hsegment t ht =>
    cases h
    exact left_of_segment? hc hsegment
  | case3 c hc segment rest hsegment ht ih => exact (ih h).trans (left_of_segment? hc hsegment)
  | case4 => cases h

def statements? (c : Cursor) : Option (List Statement) :=
  match _h : c.next? with
  | none => none
  | some (none, _) => some []
  | some (some s, after) => after.statements?.map (s :: ·)
termination_by c.left
decreasing_by exact left_of_next? _h

end Cursor

theorem statements_of_firstSegment (h : FirstSegment .code text s rest) : statements text =
    ((Piece.ofSegment? s).bind Piece.statement?).toList ++ statements rest := by
  rw [statements, pieces, segments, mark, h.others, List.filterMap_cons]
  cases hpiece : Piece.ofSegment? s with
  | none => rfl
  | some piece =>
    rw [List.filterMap_cons, Option.bind_some]
    cases piece.statement? <;> rfl

namespace Cursor

variable {c : Cursor}

theorem At.exists_firstSegment (h : c.At text) (hc : c.offset < bytes c.text) :
    ∃ s rest, FirstSegment .code text s rest := by
  refine Source.exists_firstSegment .code ?_
  rintro rfl
  have hleft := h.left_eq
  rw [left, Text.bytes_nil] at hleft
  omega

theorem At.next? (h : c.At text) : ∃ found after rest, c.next? = some (found, after) ∧
    after.At rest ∧ statements text = found.toList ++ statements rest ∧
      (found = none → rest = []) := by
  fun_induction Cursor.next? c generalizing text with
  | case1 c hc hnone =>
    obtain ⟨s, rest, hfirst⟩ := h.exists_firstSegment hc
    obtain ⟨after, hsegment, -⟩ := h.segment? hfirst
    rw [hnone] at hsegment
    cases hsegment
  | case2 c hc segment after hsegment s hs =>
    obtain ⟨t, rest, hfirst⟩ := h.exists_firstSegment hc
    obtain ⟨after', ht, hafter⟩ := h.segment? hfirst
    rw [hsegment] at ht
    cases ht
    refine ⟨some s, after, rest, rfl, hafter, ?_, by simp⟩
    rw [statements_of_firstSegment hfirst, hs]
  | case3 c hc segment after hsegment hs ih =>
    obtain ⟨t, rest, hfirst⟩ := h.exists_firstSegment hc
    obtain ⟨after', ht, hafter⟩ := h.segment? hfirst
    rw [hsegment] at ht
    cases ht
    rw [statements_of_firstSegment hfirst, hs]
    exact ih hafter
  | case4 c hc =>
    have hleft := h.left_eq
    obtain rfl : text = [] := by
      by_contra hne
      have hpos := Text.bytes_pos hne
      rw [left] at hleft
      omega
    exact ⟨none, c, [], rfl, h, rfl, fun _ => rfl⟩

theorem At.statements? (h : c.At text) : c.statements? = some (statements text) := by
  fun_induction Cursor.statements? c generalizing text with
  | case1 c hnone =>
    obtain ⟨found, after, rest, hnext, -⟩ := h.next?
    rw [hnone] at hnext
    cases hnext
  | case2 c after hnext =>
    obtain ⟨found, after', rest, hnext', -, hstatements, hend⟩ := h.next?
    rw [hnext] at hnext'
    cases hnext'
    rw [hstatements, hend rfl]
    rfl
  | case3 c s after hnext ih =>
    obtain ⟨found, after', rest, hnext', hafter, hstatements, -⟩ := h.next?
    rw [hnext] at hnext'
    cases hnext'
    rw [ih hafter, hstatements]
    rfl

end Cursor

theorem statements_eq (text : List Char) : statements text =
    (((segments text).map Text.trim).filter fun s =>
      s ≠ [] ∧ s ≠ [';'] ∧ isTableDefinition s = true).map .close := by
  rw [statements, pieces]
  induction segments text with
  | nil => rfl
  | cons s ss ih =>
    rw [List.filterMap_cons, List.map_cons, Piece.ofSegment?]
    by_cases hblank : Text.trim s = [] ∨ Text.trim s = [';']
    · have hskip : ¬(Text.trim s ≠ [] ∧ Text.trim s ≠ [';'] ∧
          isTableDefinition (Text.trim s) = true) := fun h => hblank.elim h.1 h.2.1
      rw [List.filter_cons_of_neg (by simpa using hskip), ← ih]
      simp [hblank]
    · rw [not_or] at hblank
      by_cases htable : isTableDefinition (Text.trim s) = true
      · rw [List.filter_cons_of_pos (by simp [hblank, htable]), List.map_cons, ← ih]
        simp [hblank, htable, Piece.statement?]
      · rw [List.filter_cons_of_neg (by simp [htable]), ← ih]
        simp [hblank, htable, Piece.statement?, List.filterMap_cons]

/-- Every text is taken apart into segments in one way only. The statements of the text are those
segments that hold a definition, trimmed and closed, and a cursor finds just these, one after the
other. -/
theorem existsUnique_segmentation (text : List Char) : (∃! ss, Segmentation text ss) ∧
    ∃ ss, Segmentation text ss ∧
      statements text = ((ss.map Text.trim).filter fun s =>
        s ≠ [] ∧ s ≠ [';'] ∧ isTableDefinition s = true).map .close ∧
      (⟨text, 0⟩ : Cursor).statements? = some (statements text) := by
  have hsegments := segmentation_segments text
  have hat : (⟨text, 0⟩ : Cursor).At text := ⟨[], rfl, rfl⟩
  exact ⟨⟨segments text, hsegments, fun _ h => h.unique hsegments⟩, segments text, hsegments,
    statements_eq text, hat.statements?⟩

end Source

end SqlTables
