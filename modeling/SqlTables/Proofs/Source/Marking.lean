import Mathlib.Tactic.SplitIfs
import SqlTables.Source.Region

/-! Marks keep the text, and past a character of code they start afresh. A text whose comments were
blanked is marked as before, with code where the comments stood. -/

namespace SqlTables.Source

variable {comments : Bool} {mode : Mode} {c d : Char} {next : Option Char}

def OpensComment (c : Char) (next : Option Char) : Prop :=
  c = '#' ∨ c = '-' ∧ next = some '-' ∨ c = '/' ∧ next = some '*'

instance (c : Char) (next : Option Char) : Decidable (OpensComment c next) := by
  unfold OpensComment
  infer_instance

theorem marking_code_of_quote (h : isQuote c = true) :
    marking comments .code c next = ⟨.quoted, .literal c, false⟩ := by
  simp [marking, h]

theorem marking_code_of_not_quote (h : isQuote c = false)
    (hc : comments = true → ¬OpensComment c next) :
    marking comments .code c next = ⟨.code, .code, false⟩ := by
  unfold OpensComment at hc
  grind [marking]

theorem region_of_opensComment (hq : isQuote c = false) (h : OpensComment c next) :
    (marking true .code c next).region = .comment := by
  unfold OpensComment at h
  grind [marking]

theorem literalMarking_region (quote c : Char) (next : Option Char) :
    (literalMarking quote c next).region = .quoted := by
  unfold literalMarking
  split <;> rfl

theorem region_ne_code_of_takesNext (h : (marking comments mode c next).takesNext = true) :
    (marking comments mode c next).region ≠ .code := by
  cases mode with
  | literal quote => simp [marking, literalMarking_region]
  | code | lineComment | blockComment =>
    unfold marking at h ⊢
    grind

theorem marking_of_region_code (h : (marking comments mode c next).region = .code)
    (hd : c ≠ '-') (hs : c ≠ '/') (next' : Option Char) :
    marking comments mode c next' = ⟨.code, .code, false⟩ := by
  cases mode with
  | literal quote => simp [marking, literalMarking_region] at h
  | code | lineComment | blockComment =>
    unfold marking at h ⊢
    grind

theorem markFrom_cons {cs : List Char}
    (h : (marking comments mode c cs.head?).takesNext = false) :
    markFrom comments mode (c :: cs) =
      (c, (marking comments mode c cs.head?).region)
        :: markFrom comments (marking comments mode c cs.head?).mode cs := by
  cases cs with
  | nil => simp [markFrom]
  | cons d rest =>
    rw [List.head?_cons] at h
    simp [markFrom, h]

theorem markFrom_cons_cons {rest : List Char}
    (h : (marking comments mode c (some d)).takesNext = true) :
    markFrom comments mode (c :: d :: rest) =
      (c, (marking comments mode c (some d)).region)
        :: (d, (marking comments mode c (some d)).region)
        :: markFrom comments (marking comments mode c (some d)).mode rest := by
  simp [markFrom, h]

theorem map_fst_markFrom (comments : Bool) (mode : Mode) (cs : List Char) :
    (markFrom comments mode cs).map Prod.fst = cs := by
  fun_induction markFrom comments mode cs with
  | case1 => rfl
  | case2 => rfl
  | case3 mode c d rest m hm ih => simp [ih]
  | case4 mode c d rest m hm ih => simp [ih]

theorem markFrom_ne_nil {cs : List Char} (h : cs ≠ []) : markFrom comments mode cs ≠ [] := by
  intro hn
  have hm := map_fst_markFrom comments mode cs
  rw [hn] at hm
  exact h hm.symm

theorem markFrom_append_of_code {xs : List Char} (hd : c ≠ '-') (hs : c ≠ '/')
    (h : (markFrom comments mode xs).getLast? = some (c, .code)) (ys : List Char) :
    markFrom comments mode (xs ++ ys) =
      markFrom comments mode xs ++ markFrom comments .code ys := by
  fun_induction markFrom comments mode xs with
  | case1 => simp at h
  | case2 mode a =>
    simp only [List.getLast?_singleton, Option.some.injEq, Prod.mk.injEq] at h
    obtain ⟨rfl, hr⟩ := h
    have hm := marking_of_region_code hr hd hs
    rw [List.singleton_append, markFrom_cons (by rw [hm]), hm, hm]
    rfl
  | case3 mode a b rest m hm ih =>
    rw [List.cons_append, List.cons_append, markFrom_cons_cons hm]
    cases rest with
    | nil =>
      simp only [markFrom, List.getLast?_cons_cons, List.getLast?_singleton, Option.some.injEq,
        Prod.mk.injEq] at h
      exact absurd h.2 (region_ne_code_of_takesNext hm)
    | cons e rest =>
      rw [List.getLast?_cons_cons, List.getLast?_cons_of_ne_nil (markFrom_ne_nil (by simp))] at h
      rw [ih h]
      rfl
  | case4 mode a b rest m hm ih =>
    rw [List.getLast?_cons_of_ne_nil (markFrom_ne_nil (by simp))] at h
    have hm' : (marking comments mode a (b :: rest ++ ys).head?).takesNext = false := by
      simpa using hm
    rw [List.cons_append, markFrom_cons hm']
    exact congrArg ((a, m.region) :: ·) (ih h)

theorem not_opensComment_of_region_code (h : (marking true mode c next).region = .code) :
    ¬OpensComment c next := by
  unfold OpensComment
  cases mode with
  | literal quote => simp [marking, literalMarking_region] at h
  | code | lineComment | blockComment =>
    unfold marking at h
    grind

theorem exists_marking_of_markFrom_eq_append {xs ys : List (Char × Region)} {cs : List Char}
    (h : markFrom comments mode cs = xs ++ (c, .code) :: ys) :
    ∃ mode', (marking comments mode' c (ys.map Prod.fst).head?).region = .code ∧
      markFrom comments (marking comments mode' c (ys.map Prod.fst).head?).mode
        (ys.map Prod.fst) = ys := by
  fun_induction markFrom comments mode cs generalizing xs with
  | case1 => simp at h
  | case2 mode a =>
    cases xs with
    | nil =>
      simp only [List.nil_append, List.cons.injEq, Prod.mk.injEq] at h
      obtain ⟨⟨rfl, hr⟩, rfl⟩ := h
      exact ⟨mode, hr, rfl⟩
    | cons x xs => simp at h
  | case3 mode a b rest m hm =>
    rename_i ih
    -- two characters that go together are no code
    have hne := region_ne_code_of_takesNext hm
    match xs with
    | [] =>
      simp only [List.nil_append, List.cons.injEq, Prod.mk.injEq] at h
      exact absurd h.1.2 hne
    | [x] =>
      simp only [List.cons_append, List.nil_append, List.cons.injEq, Prod.mk.injEq] at h
      exact absurd h.2.1.2 hne
    | x :: y :: xs =>
      simp only [List.cons_append, List.cons.injEq] at h
      exact ih h.2.2
  | case4 mode a b rest m hm =>
    rename_i ih
    cases xs with
    | nil =>
      simp only [List.nil_append, List.cons.injEq, Prod.mk.injEq] at h
      obtain ⟨⟨rfl, hr⟩, rfl⟩ := h
      rw [map_fst_markFrom]
      exact ⟨mode, hr, rfl⟩
    | cons x xs =>
      simp only [List.cons_append, List.cons.injEq] at h
      exact ih h.2

theorem not_opensComment_of_mem_markFrom {xs ys : List (Char × Region)} {cs : List Char}
    (h : markFrom true mode cs = xs ++ (c, .code) :: ys) :
    ¬OpensComment c (ys.map Prod.fst).head? := by
  obtain ⟨mode', hr, -⟩ := exists_marking_of_markFrom_eq_append h
  exact not_opensComment_of_region_code hr

def Region.visible : Region → Region
  | .comment => .code
  | region => region

def Mode.visible : Mode → Mode
  | .lineComment | .blockComment => .code
  | mode => mode

def Mode.Quoting : Mode → Prop
  | .literal quote => isQuote quote = true
  | _ => True

theorem marking_quoting (h : mode.Quoting) : (marking comments mode c next).mode.Quoting := by
  cases mode with
  | literal quote =>
    simp only [marking, literalMarking]
    split <;> first | exact h | trivial
  | code | lineComment | blockComment =>
    simp only [marking]
    split_ifs <;> trivial

theorem blankChar_eq_or (c : Char) (region : Region) :
    blankChar c region = c ∨ blankChar c region = ' ' := by
  unfold blankChar
  split <;> simp

theorem blankChar_of_ne_comment {region : Region} (h : region ≠ .comment) :
    blankChar c region = c := by
  simp [blankChar, h]

theorem blankChar_comment (c : Char) :
    blankChar c .comment = ' ' ∨ blankChar c .comment = '\n' := by
  unfold blankChar
  by_cases h : c = '\n' <;> simp [h]

theorem marking_code_of_blank {c' : Char} (h : c' = ' ' ∨ c' = '\n') :
    marking comments .code c' next = ⟨.code, .code, false⟩ := by
  apply marking_code_of_not_quote
  · rcases h with rfl | rfl <;> decide
  · intro _
    rcases h with rfl | rfl <;> simp [OpensComment]

theorem marking_visible {next' : Option Char} (hq : mode.Quoting)
    (hn : next' = next ∨ next' = some ' ') (h : (marking true mode c next).takesNext = false) :
    marking comments mode.visible (blankChar c (marking true mode c next).region) next' =
      ⟨(marking true mode c next).region.visible, (marking true mode c next).mode.visible,
        false⟩ := by
  cases mode with
  | literal quote =>
    have hs : quote ≠ ' ' := by
      rintro rfl
      revert hq
      simp [Mode.Quoting, isQuote]
    have hr : (marking true (.literal quote) c next).region = .quoted := literalMarking_region ..
    rw [hr, blankChar_of_ne_comment (by simp)]
    -- a quote that closes the literal is followed by another one in neither text
    have hstep : literalStep (quote ≠ '\x60') quote c next' =
        literalStep (quote ≠ '\x60') quote c next := by
      simp only [marking, literalMarking, literalStep] at h ⊢
      grind
    simp only [marking, literalMarking, Mode.visible, hstep] at h ⊢
    split at h <;> simp_all [Region.visible]
  | code =>
    by_cases hc : isQuote c = true
    · rw [marking_code_of_quote hc, blankChar_of_ne_comment (by simp)]
      exact marking_code_of_quote hc
    · have hc' : isQuote c = false := by simpa using hc
      by_cases ho : OpensComment c next
      · -- the marker is blanked, and blanks are code whatever follows
        have hr := region_of_opensComment hc' ho
        have hm : (marking true .code c next).mode.visible = .code := by
          unfold marking at h ⊢
          grind [Mode.visible]
        rw [hm, hr]
        exact marking_code_of_blank (blankChar_comment c)
      · rw [marking_code_of_not_quote hc' (fun _ => ho), blankChar_of_ne_comment (by simp)]
        refine marking_code_of_not_quote hc' fun _ ho' => ho ?_
        rcases hn with rfl | rfl
        · exact ho'
        · exact .inl (by simpa [OpensComment] using ho')
  | lineComment =>
    by_cases hc : c = '\n'
    · subst hc
      exact marking_code_of_blank (.inr rfl)
    · simp only [marking, hc, if_false]
      exact marking_code_of_blank (blankChar_comment c)
  | blockComment =>
    have hm : marking true .blockComment c next = ⟨.comment, .blockComment, false⟩ := by
      unfold marking at h ⊢
      grind
    rw [hm]
    exact marking_code_of_blank (blankChar_comment c)

def blankFrom (mode : Mode) (cs : List Char) : List Char :=
  (markFrom true mode cs).map fun m => blankChar m.1 m.2

theorem blankFrom_cons {cs : List Char}
    (h : (marking true mode c cs.head?).takesNext = false) :
    blankFrom mode (c :: cs) = blankChar c (marking true mode c cs.head?).region ::
      blankFrom (marking true mode c cs.head?).mode cs := by
  rw [blankFrom, markFrom_cons h]
  rfl

theorem blankFrom_cons_cons {cs : List Char}
    (h : (marking true mode c (some d)).takesNext = true) :
    blankFrom mode (c :: d :: cs) = blankChar c (marking true mode c (some d)).region ::
      blankChar d (marking true mode c (some d)).region ::
        blankFrom (marking true mode c (some d)).mode cs := by
  rw [blankFrom, markFrom_cons_cons h]
  rfl

def visible (m : Char × Region) : Char × Region := (blankChar m.1 m.2, m.2.visible)

def visibleFrom (mode : Mode) (cs : List Char) : List (Char × Region) :=
  (markFrom true mode cs).map visible

theorem head?_visibleFrom (mode : Mode) (cs : List Char) :
    ((visibleFrom mode cs).map Prod.fst).head? = cs.head? ∨
      ((visibleFrom mode cs).map Prod.fst).head? = some ' ' := by
  cases cs with
  | nil => simp [visibleFrom, markFrom]
  | cons c rest =>
    have hm := congrArg List.head? (map_fst_markFrom true mode (c :: rest))
    cases hms : markFrom true mode (c :: rest) with
    | nil => exact absurd hms (markFrom_ne_nil (by simp))
    | cons m ms =>
      rw [hms, List.map_cons, List.head?_cons, List.head?_cons, Option.some.injEq] at hm
      subst hm
      rcases blankChar_eq_or m.1 m.2 with hb | hb <;> simp [visibleFrom, visible, hms, hb]

theorem marking_of_takesNext (h : (marking comments mode c next).takesNext = true) :
    (∃ quote, mode = .literal quote ∧
      ∀ comments', marking comments' mode c next = ⟨.quoted, .literal quote, true⟩) ∨
    (marking comments mode c next).region = .comment ∧
      (marking comments mode c next).mode.visible = .code ∧ mode.visible = .code := by
  cases mode with
  | literal quote =>
    refine .inl ⟨quote, rfl, fun _ => ?_⟩
    simp only [marking, literalMarking] at h ⊢
    split at h <;> simp_all
  | code | lineComment | blockComment =>
    right
    unfold marking at h ⊢
    grind [Mode.visible]

theorem markFrom_code_of_blanks {c' d' : Char} (hc : c' = ' ' ∨ c' = '\n')
    (hd : d' = ' ' ∨ d' = '\n') (cs : List Char) :
    markFrom comments .code (c' :: d' :: cs) =
      (c', .code) :: (d', .code) :: markFrom comments .code cs := by
  have hm : ∀ next, marking comments .code c' next = ⟨.code, .code, false⟩ :=
    fun _ => marking_code_of_blank hc
  have hm' : ∀ next, marking comments .code d' next = ⟨.code, .code, false⟩ :=
    fun _ => marking_code_of_blank hd
  rw [markFrom_cons (by rw [hm]), hm, markFrom_cons (by rw [hm']), hm']

theorem markFrom_visibleFrom (hq : mode.Quoting) (cs : List Char) :
    markFrom comments mode.visible ((visibleFrom mode cs).map Prod.fst) = visibleFrom mode cs := by
  unfold visibleFrom
  fun_induction markFrom true mode cs with
  | case1 => rfl
  | case2 mode c =>
    simp only [List.map_cons, List.map_nil, visible, markFrom, List.cons.injEq, Prod.mk.injEq,
      and_true, true_and]
    cases hm : (marking true mode c none).takesNext with
    | false => rw [marking_visible hq (.inl rfl) hm]
    | true =>
      rcases marking_of_takesNext hm with ⟨quote, rfl, hl⟩ | ⟨hr, hv, hv'⟩
      · have hv : (Mode.literal quote).visible = .literal quote := rfl
        rw [hl true, blankChar_of_ne_comment (by simp), hv, hl comments]
        rfl
      · rw [hr, hv', marking_code_of_blank (blankChar_comment c)]
        rfl
  | case3 mode c d rest m hm ih =>
    have ih' := ih (marking_quoting hq)
    simp only [List.map_cons]
    -- in a literal both characters stay, in a comment both become blanks of code
    rcases marking_of_takesNext hm with ⟨quote, rfl, hl⟩ | ⟨hr, hv, hv'⟩
    · have hmq : m = ⟨.quoted, .literal quote, true⟩ := hl true
      have hv : visible (c, Region.quoted) = (c, Region.quoted) := by
        simp [visible, blankChar, Region.visible]
      have hv' : visible (d, Region.quoted) = (d, Region.quoted) := by
        simp [visible, blankChar, Region.visible]
      rw [hmq] at ih' ⊢
      have hc := hl comments
      simp only [Mode.visible, hv, hv'] at ih' ⊢
      rw [markFrom_cons_cons (by rw [hc]), hc, ih']
    · rw [hv] at ih'
      rw [hv', hr, visible, visible,
        markFrom_code_of_blanks (blankChar_comment c) (blankChar_comment d), ih']
      rfl
  | case4 mode c d rest m hm ih =>
    have ih' := ih (marking_quoting hq)
    have hn := head?_visibleFrom m.mode (d :: rest)
    have hv : marking comments mode.visible (visible (c, m.region)).1
        (((markFrom true m.mode (d :: rest)).map visible).map Prod.fst).head? =
          ⟨m.region.visible, m.mode.visible, false⟩ := marking_visible hq hn (by simpa using hm)
    simp only [List.map_cons]
    rw [markFrom_cons (by rw [hv]), hv, ih']
    rfl

theorem mark_blank (comments : Bool) (text : List Char) :
    mark comments (blank text) = (mark true text).map visible := by
  have h : blank text = (visibleFrom .code text).map Prod.fst := by
    simp only [blank, mark, visibleFrom, List.map_map]
    rfl
  have hq : Mode.code.Quoting := trivial
  rw [h]
  exact markFrom_visibleFrom hq text

theorem mark_eq_of_blank (text : List Char) : mark true (blank text) = mark false (blank text) := by
  rw [mark_blank, mark_blank]

theorem ne_comment_of_mem_mark_blank {text : List Char} {m : Char × Region}
    (h : m ∈ mark true (blank text)) : m.2 ≠ .comment := by
  rw [mark_blank] at h
  obtain ⟨⟨c, region⟩, _, rfl⟩ := List.mem_map.1 h
  cases region <;> simp [visible, Region.visible]

end SqlTables.Source
