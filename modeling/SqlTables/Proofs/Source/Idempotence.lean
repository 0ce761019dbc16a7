import SqlTables.Proofs.Source.Literals

/-! Blanking a second time changes nothing. The blanked text is scanned in step with the text: where
the text was in a comment the blanked one is in code, and every literal opens and closes where it
did. -/

namespace SqlTables.Source

variable {comments : Bool} {mode : Mode} {c : Char} {cs : List Char}

def literalEdges (comments : Bool) (text : List Char) : List Nat :=
  boundsFrom (fun _ => 1) comments .code 0 text

/-- What a text keeps when its comments are blanked: no comment is left or comes up, with or without
an eye to comments, and code and literals are where they were. -/
structure Cleared (text blanked : List Char) : Prop where
  uncommented : ∀ comments, ∀ m ∈ mark comments blanked, m.2 ≠ .comment
  code : ∀ comments (i : Nat) c, (mark true text)[i]? = some (c, .code) →
    (mark comments blanked)[i]? = some (c, .code)
  quoted : ∀ comments (i : Nat) c, (mark comments blanked)[i]? = some (c, .quoted) ↔
    (mark true text)[i]? = some (c, .quoted)
  edges : ∀ comments, literalEdges comments blanked = literalEdges true text

theorem boundsFrom_code_of_blank {width : Char → Nat} (hc : c = ' ' ∨ c = '\n') (i : Nat)
    (cs : List Char) :
    boundsFrom width comments .code i (c :: cs) =
      boundsFrom width comments .code (i + width c) cs := by
  have hm (next : Option Char) : marking comments .code c next = ⟨.code, .code, false⟩ :=
    marking_code_of_blank hc
  rw [boundsFrom_cons (by rw [hm]), hm]
  rfl

theorem edge_visible (mode : Mode) (c : Char) (next : Option Char) (i j : Nat) :
    edge mode.visible (marking true mode c next).mode.visible i j =
      edge mode (marking true mode c next).mode i j := by
  cases mode with
  | literal quote =>
    simp only [marking, literalMarking]
    split <;> rfl
  | code | lineComment | blockComment =>
    simp only [marking]
    split_ifs <;> rfl

theorem mode_marking_visible (hq : mode.Quoting) (c : Char) :
    (marking comments mode.visible (blankChar c (marking true mode c none).region) none).mode =
      (marking true mode c none).mode.visible := by
  cases hm : (marking true mode c none).takesNext with
  | false => rw [marking_visible hq (.inl rfl) hm]
  | true =>
    rcases marking_of_takesNext hm with ⟨quote, rfl, hl⟩ | ⟨hr, hv, hv'⟩
    · rw [hl true, blankChar_of_ne_comment (by simp)]
      exact congrArg Marking.mode (hl comments)
    · rw [hr, hv', hv, marking_code_of_blank (blankChar_comment c)]

theorem head?_blankFrom (mode : Mode) (cs : List Char) :
    (blankFrom mode cs).head? = cs.head? ∨ (blankFrom mode cs).head? = some ' ' := by
  have hhead := head?_visibleFrom mode cs
  rwa [visibleFrom, List.map_map] at hhead

/-- The blanked text and the text are in step: a character that stands alone does so in both, and of
two that go together both stay or both become blanks. -/
theorem boundsFrom_blankFrom (hq : mode.Quoting) (i : Nat) (cs : List Char) :
    boundsFrom (fun _ => 1) comments mode.visible i (blankFrom mode cs) =
      boundsFrom (fun _ => 1) true mode i cs := by
  fun_induction boundsFrom (fun _ => 1) true mode i cs with
  | case1 => rfl
  | case2 mode i c =>
    rw [blankFrom, markFrom, List.map_singleton, boundsFrom, mode_marking_visible hq, edge_visible]
  | case3 mode i c d rest m hm stop ih =>
    rw [blankFrom_cons_cons hm, ← ih (marking_quoting hq)]
    rcases marking_of_takesNext hm with ⟨quote, rfl, hl⟩ | ⟨hr, hv, hv'⟩
    · have hmq : m = ⟨.quoted, .literal quote, true⟩ := hl true
      have hv : (Mode.literal quote).visible = .literal quote := rfl
      rw [hl true, blankChar_of_ne_comment (by simp), blankChar_of_ne_comment (by simp), hmq, hv,
        boundsFrom_cons_cons (by rw [hl]), hl]
    · have hedge := edge_visible mode c (some d) i (i + 2)
      rw [hv, hv'] at hedge
      rw [hr, hv', boundsFrom_code_of_blank (blankChar_comment c),
        boundsFrom_code_of_blank (blankChar_comment d), ← hedge, hv]
      rfl
  | case4 mode i c d rest m hm stop ih =>
    have hm' : (marking true mode c (d :: rest).head?).takesNext = false := by simpa using hm
    have hblank : blankFrom mode (c :: d :: rest) =
        blankChar c m.region :: blankFrom m.mode (d :: rest) := blankFrom_cons hm'
    have hv : marking comments mode.visible (blankChar c m.region)
        (blankFrom m.mode (d :: rest)).head? = ⟨m.region.visible, m.mode.visible, false⟩ :=
      marking_visible hq (head?_blankFrom m.mode (d :: rest)) hm'
    rw [hblank, boundsFrom_cons (by rw [hv]), hv, ← ih (marking_quoting hq)]
    exact congrArg (· ++ _) (edge_visible mode c (some d) i (i + 1))

theorem blank_blank (text : List Char) : blank (blank text) = blank text := by
  rw [blank, mark_blank, List.map_map]
  refine List.map_congr_left fun m _ => ?_
  exact blankChar_of_ne_comment (by cases m.2 <;> simp [Region.visible])

theorem cleared_blank (text : List Char) : Cleared text (blank text) where
  uncommented comments m hm := by
    cases comments with
    | true => exact ne_comment_of_mem_mark_blank hm
    | false => exact ne_comment_of_mem_mark_blank (mark_eq_of_blank text ▸ hm)
  code comments i c h := by
    rw [mark_blank, List.getElem?_map, h]
    rfl
  quoted comments i c := by
    rw [mark_blank, List.getElem?_map]
    rcases (mark true text)[i]? with _ | ⟨d, region⟩
    · simp
    · cases region <;> simp [visible, blankChar, Region.visible]
  edges comments := by
    have hq : Mode.code.Quoting := trivial
    exact boundsFrom_blankFrom hq 0 text

/-- Blanking a text once blanks all there is to blank: what is left has no comment, and no literal
but those of the text. -/
theorem withoutComments_withoutComments (text : String) :
    withoutComments (withoutComments text) = withoutComments text ∧
      Cleared text.toList (withoutComments text).toList := by
  rw [withoutComments, withoutComments, String.toList_ofList, blank_blank]
  exact ⟨rfl, cleared_blank text.toList⟩

end SqlTables.Source
