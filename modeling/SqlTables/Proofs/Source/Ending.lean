import SqlTables.Proofs.Source.Parts
import SqlTables.Proofs.Token.Head

/-! What is open at the end of a line. After a line a script goes on from the mode in which it ends,
so a line of which only blanks are left, and which ends in code, might as well not be there. -/

namespace SqlTables.Source

open Scan (Gap isGap)

variable {mode : Mode} {c : Char} {next : Option Char} {as cs : List Char}

def modeAfter : Mode → List Char → Mode
  | mode, [] => mode
  | mode, [c] => (marking true mode c none).mode
  | mode, c :: d :: rest =>
    let m := marking true mode c (some d)
    if m.takesNext then modeAfter m.mode rest else modeAfter m.mode (d :: rest)

/-- Whether blanks are all that is left of a text without comments, and nothing is open after it. -/
def OnlyComments (cs : List Char) : Prop := Gap (blank cs) ∧ modeAfter .code cs = .code

instance (cs : List Char) : Decidable (OnlyComments cs) := by
  unfold OnlyComments
  infer_instance

theorem marking_newline (hq : mode.Quoting) (next : Option Char) :
    marking true mode '\n' next = marking true mode '\n' none ∧
      (marking true mode '\n' next).takesNext = false ∧
        (marking true mode '\n' next).mode ≠ .lineComment := by
  cases mode with
  | literal quote =>
    have hne : '\n' ≠ quote := by
      rintro rfl
      exact absurd hq (by simp [Mode.Quoting, isQuote])
    simp [marking, literalMarking, literalStep, hne]
  | code | lineComment | blockComment => simp [marking, isQuote]

theorem mode_ne_lineComment_of_takesNext (h : (marking true mode c (some '\n')).takesNext = true) :
    (marking true mode c (some '\n')).mode ≠ .lineComment := by
  cases mode with
  | literal quote =>
    simp only [marking, literalMarking]
    split <;> simp
  | code | lineComment | blockComment =>
    unfold marking at h ⊢
    grind

theorem modeAfter_line (hq : mode.Quoting) (h : cs.getLast? = some '\n') :
    modeAfter mode cs ≠ .lineComment := by
  fun_induction modeAfter mode cs with
  | case1 => simp at h
  | case2 mode c =>
    obtain rfl : c = '\n' := by simpa using h
    exact (marking_newline hq none).2.2
  | case3 mode c d rest m hm ih =>
    cases rest with
    | nil =>
      obtain rfl : d = '\n' := by simpa using h
      exact mode_ne_lineComment_of_takesNext hm
    | cons e rest => exact ih (marking_quoting hq) (by simpa using h)
  | case4 mode c d rest m hm ih => exact ih (marking_quoting hq) (by simpa using h)

theorem visible_marking (hv : mode.visible = .code)
    (h : isGap (blankChar c (marking true mode c next).region) = true) :
    (marking true mode c next).mode.visible = .code := by
  cases mode with
  | literal quote => cases hv
  | code =>
    by_cases hc : isQuote c = true
    · rw [marking_code_of_quote hc, blankChar_of_ne_comment (by simp),
        Scan.isGap_of_isQuote hc] at h
      cases h
    · unfold marking
      grind [Mode.visible]
  | lineComment | blockComment =>
    unfold marking
    grind [Mode.visible]

theorem visible_modeAfter (hv : mode.visible = .code) (h : Gap (blankFrom mode cs)) :
    (modeAfter mode cs).visible = .code := by
  unfold blankFrom at h
  fun_induction modeAfter mode cs with
  | case1 => exact hv
  | case2 mode c => exact visible_marking hv (h _ (by simp [markFrom]))
  | case3 mode c d rest m hm ih =>
    rw [markFrom_cons_cons hm] at h
    simp only [Gap, List.map_cons, List.forall_mem_cons] at h
    exact ih (visible_marking hv h.1) h.2.2
  | case4 mode c d rest m hm ih =>
    rw [markFrom_cons (by simpa using hm)] at h
    simp only [Gap, List.map_cons, List.forall_mem_cons] at h
    exact ih (visible_marking hv h.1) h.2

theorem markFrom_line (hq : mode.Quoting) (h : cs.getLast? = some '\n') (after : List Char) :
    markFrom true mode (cs ++ after) =
      markFrom true mode cs ++ markFrom true (modeAfter mode cs) after := by
  fun_induction modeAfter mode cs with
  | case1 => simp at h
  | case2 mode c =>
    obtain rfl : c = '\n' := by simpa using h
    obtain ⟨hm, htakes, -⟩ := marking_newline hq after.head?
    rw [List.singleton_append, markFrom_cons htakes, hm]
    rfl
  | case3 mode c d rest m hm ih =>
    rw [List.cons_append, List.cons_append, markFrom_cons_cons hm, markFrom_cons_cons hm]
    cases rest with
    | nil => rfl
    | cons e rest => exact congrArg (_ :: _ :: ·) (ih (marking_quoting hq) (by simpa using h))
  | case4 mode c d rest m hm ih =>
    have hm' (cs : List Char) : (marking true mode c (d :: cs).head?).takesNext = false := by
      simpa using hm
    rw [List.cons_append, List.cons_append, markFrom_cons (hm' _), markFrom_cons (hm' _)]
    exact congrArg (_ :: ·) (ih (marking_quoting hq) (by simpa using h))

theorem blank_line (h : cs.getLast? = some '\n') (after : List Char) :
    blank (cs ++ after) = blank cs ++ blankFrom (modeAfter .code cs) after := by
  have hq : Mode.code.Quoting := trivial
  rw [blank, mark, markFrom_line hq h, List.map_append]
  rfl

theorem OnlyComments.blank_append (hc : OnlyComments cs) (h : cs.getLast? = some '\n')
    (after : List Char) : blank (cs ++ after) = blank cs ++ blank after := by
  rw [blank_line h, hc.2]
  rfl

theorem modeAfter_eq_blockComment (h : cs.getLast? = some '\n') (hgap : Gap (blank cs))
    (hc : ¬OnlyComments cs) : modeAfter .code cs = .blockComment := by
  have hq : Mode.code.Quoting := trivial
  have hcode : Mode.code.visible = .code := rfl
  have hvisible := visible_modeAfter hcode hgap
  have hline := modeAfter_line hq h
  have hopen : modeAfter .code cs ≠ .code := fun hm => hc ⟨hgap, hm⟩
  cases hm : modeAfter .code cs <;> simp_all [Mode.visible]

theorem blankFrom_blockComment (hb : ¬blockEnd <:+: as) (hcs : cs.head? ≠ some '/') :
    ∃ gap, Gap gap ∧ blankFrom .blockComment (as ++ cs) = gap ++ blankFrom .blockComment cs := by
  refine ⟨as.map (blankChar · .comment), fun c hc => ?_, ?_⟩
  · obtain ⟨d, -, rfl⟩ := List.mem_map.1 hc
    rcases blankChar_comment d with h | h <;> rw [h] <;> rfl
  · rw [blankFrom, markFrom_blockComment hb hcs, List.map_append, List.map_map]
    rfl

theorem modeAfter_lineComment (h : '\n' ∉ cs) : modeAfter .lineComment (cs ++ ['\n']) = .code := by
  induction cs with
  | nil => rfl
  | cons c cs ih =>
    rw [List.mem_cons, not_or] at h
    have hm (next : Option Char) :
        marking true .lineComment c next = ⟨.comment, .lineComment, false⟩ := by
      simp [marking, Ne.symm h.1]
    obtain ⟨d, rest, hrest⟩ : ∃ d rest, cs ++ ['\n'] = d :: rest :=
      List.exists_cons_of_ne_nil (by simp)
    rw [List.cons_append, hrest, modeAfter, hm, ← hrest]
    exact ih h.2

theorem onlyComments_lineComment (h : '\n' ∉ cs) :
    OnlyComments ('-' :: '-' :: cs ++ ['\n']) := by
  refine ⟨?_, modeAfter_lineComment h⟩
  rw [blank_lineComment h]
  intro c hc
  rcases List.mem_append.1 hc with hc | hc
  · rw [List.eq_of_mem_replicate hc]
    rfl
  · rw [List.mem_singleton.1 hc]
    rfl

end SqlTables.Source
