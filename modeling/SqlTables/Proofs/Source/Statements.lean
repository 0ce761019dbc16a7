import SqlTables.Proofs.Source.Concatenation
import SqlTables.Proofs.Source.Uncommented

/-! The statements of a script, each on its own. A statement begins in code and no comment is left
in it, so taken out of the script, trimmed and closed, it is read as it is read there. -/

namespace SqlTables

open Source

namespace Source

variable {comments : Bool} {mode : Mode} {c : Char} {next : Option Char}

theorem marking_mode_visible (h : (marking true mode c next).region ≠ .comment) :
    (marking true mode c next).mode.visible = (marking true mode c next).mode := by
  cases mode with
  | literal quote =>
    simp only [marking, literalMarking]
    split <;> rfl
  | code | lineComment | blockComment =>
    unfold marking at h ⊢
    grind [Mode.visible]

theorem region_ne_comment_of_next (hv : mode.visible = mode)
    (h : (marking true mode c next).region ≠ .comment) {next' : Option Char}
    (hn : next' = none ∨ next' = some ';') : (marking true mode c next').region ≠ .comment := by
  cases mode with
  | literal quote => simp [marking, literalMarking_region]
  | lineComment | blockComment => simp [Mode.visible] at hv
  | code =>
    unfold marking at h ⊢
    grind

theorem exists_markFrom_cons (comments : Bool) (mode : Mode) (c : Char) (cs : List Char) :
    ∃ ms, markFrom comments mode (c :: cs) =
      (c, (marking comments mode c cs.head?).region) :: ms := by
  cases cs with
  | nil => exact ⟨[], rfl⟩
  | cons d cs =>
    rw [markFrom]
    split
    · exact ⟨_, rfl⟩
    · exact ⟨_, rfl⟩

theorem ne_comment_of_semicolon (hv : mode.visible = mode) :
    ∀ m ∈ markFrom true mode [';'], m.2 ≠ .comment := by
  intro m hm
  obtain rfl := List.mem_singleton.1 hm
  cases mode with
  | code => decide
  | literal quote => simp [marking, literalMarking_region]
  | lineComment | blockComment => simp [Mode.visible] at hv

theorem ne_comment_of_append {as bs after : List Char} (hv : mode.visible = mode)
    (h : ∀ m ∈ markFrom true mode (as ++ bs), m.2 ≠ .comment) (ha : after = [] ∨ after = [';']) :
    ∀ m ∈ markFrom true mode (as ++ after), m.2 ≠ .comment := by
  have hend (mode : Mode) (hv : mode.visible = mode) :
      ∀ m ∈ markFrom true mode after, m.2 ≠ .comment := by
    rcases ha with rfl | rfl
    · simp [markFrom]
    · exact ne_comment_of_semicolon hv
  -- up to the last character before the cut the marks are the same
  fun_induction markFrom true mode as with
  | case1 mode => exact hend mode hv
  | case2 mode c =>
    obtain ⟨ms, hms⟩ := exists_markFrom_cons true mode c bs
    rw [List.singleton_append, hms, List.forall_mem_cons] at h
    have hnext : after.head? = none ∨ after.head? = some ';' := by
      rcases ha with rfl | rfl <;> simp
    have hc := region_ne_comment_of_next hv h.1 hnext
    cases hm : (marking true mode c after.head?).takesNext with
    | false =>
      rw [List.singleton_append, markFrom_cons hm, List.forall_mem_cons]
      exact ⟨hc, hend _ (marking_mode_visible hc)⟩
    | true =>
      rcases ha with rfl | rfl
      · simpa [markFrom] using hc
      · rw [List.singleton_append, markFrom_cons_cons hm]
        simpa [markFrom] using hc
  | case3 mode c d rest m hm ih =>
    rw [List.cons_append, List.cons_append, markFrom_cons_cons hm, List.forall_mem_cons,
      List.forall_mem_cons] at h ⊢
    exact ⟨h.1, h.2.1, ih (marking_mode_visible h.1) h.2.2⟩
  | case4 mode c d rest m hm ih =>
    have hm' (xs : List Char) :
        (marking true mode c (d :: rest ++ xs).head?).takesNext = false := by
      simpa using hm
    rw [List.cons_append, markFrom_cons (hm' _), List.forall_mem_cons] at h ⊢
    exact ⟨h.1, ih (marking_mode_visible h.1) h.2⟩

theorem uncommented_nil_iff {cs : List Char} :
    Uncommented cs [] ↔ ∀ m ∈ mark true cs, m.2 ≠ .comment := by
  unfold Uncommented Marks
  simp only [List.append_nil, markFrom]
  constructor
  · rintro ⟨ms, hms, h⟩
    rw [mark, h]
    exact hms
  · intro h
    exact ⟨mark true cs, h, rfl⟩

theorem Uncommented.take {as bs : List Char} (h : Uncommented (as ++ bs) []) :
    Uncommented as [] := by
  rw [uncommented_nil_iff] at h ⊢
  have ha := ne_comment_of_append rfl h (.inl rfl)
  rwa [List.append_nil] at ha

theorem Uncommented.close {as bs : List Char} (h : Uncommented (as ++ bs) []) :
    Uncommented (as ++ [';']) [] := by
  rw [uncommented_nil_iff] at h ⊢
  exact ne_comment_of_append rfl h (.inr rfl)

theorem isQuote_of_isBlank (h : Text.isBlank c = true) : isQuote c = false := by
  by_contra hq
  have hcases := isQuote_iff.1 (by simpa using hq)
  rcases hcases with rfl | rfl | rfl <;> exact absurd h (by decide)

theorem not_opensComment_of_isBlank (h : Text.isBlank c = true) : ¬OpensComment c next := by
  rintro (rfl | ⟨rfl, -⟩ | ⟨rfl, -⟩) <;> exact absurd h (by decide)

theorem mark_blank_cons (h : Text.isBlank c = true) (cs : List Char) :
    mark comments (c :: cs) = (c, .code) :: mark comments cs := by
  have hm (next : Option Char) : marking comments .code c next = ⟨.code, .code, false⟩ :=
    marking_code_of_not_quote (isQuote_of_isBlank h) fun _ => not_opensComment_of_isBlank h
  rw [mark, markFrom_cons (by rw [hm]), hm]
  rfl

theorem Uncommented.trimStart {as bs : List Char} (h : Uncommented (as ++ bs) []) :
    Uncommented (Text.trimStart as ++ bs) [] := by
  induction as with
  | nil => exact h
  | cons c as ih =>
    rw [Text.trimStart, List.dropWhile_cons]
    split_ifs with hc
    · rw [uncommented_nil_iff, List.cons_append, mark_blank_cons hc, List.forall_mem_cons,
        ← uncommented_nil_iff] at h
      exact ih h.2
    · exact h

theorem trimEnd_prefix_self (cs : List Char) : Text.trimEnd cs <+: cs := by
  induction cs with
  | nil => exact List.prefix_refl []
  | cons c cs ih =>
    rw [Text.trimEnd]
    split
    · split_ifs
      · exact List.nil_prefix
      · exact List.prefix_append [c] cs
    · rename_i kept hkept
      exact List.cons_prefix_cons.2 ⟨rfl, ih⟩

theorem markFrom_of_eq_append {cs : List Char} {xs ys : List (Char × Region)} (hd : c ≠ '-')
    (hs : c ≠ '/') (h : markFrom comments mode cs = xs ++ (c, .code) :: ys) :
    markFrom comments .code (ys.map Prod.fst) = ys := by
  obtain ⟨mode', hr, hys⟩ := exists_marking_of_markFrom_eq_append h
  rwa [marking_of_region_code hr hd hs] at hys

theorem flatten_segmentsOf (ms : List (Char × Region)) :
    (segmentsOf ms).flatten = ms.map Prod.fst := by
  fun_induction segmentsOf ms with
  | case1 => rfl
  | case2 c region rest _ ih => simp [ih]
  | case3 c region rest _ hs ih => simpa [hs] using ih
  | case4 c region rest _ segment segments hs ih =>
    rw [hs] at ih
    simpa using ih

theorem exists_of_segmentsOf_eq_cons {ms : List (Char × Region)} {s : List Char}
    {ss : List (List Char)} (h : segmentsOf ms = s :: ss) (hss : ss ≠ []) :
    ∃ xs ys, ms = xs ++ ys ∧ xs.getLast? = some (';', .code) ∧ segmentsOf ys = ss := by
  fun_induction segmentsOf ms generalizing s ss with
  | case1 => simp at h
  | case2 c region rest hc =>
    obtain ⟨rfl, rfl, -⟩ := hc
    exact ⟨[(';', .code)], rest, rfl, rfl, (List.cons.inj h).2⟩
  | case3 => exact absurd (List.cons.inj h).2.symm hss
  | case4 c region rest _ segment segments hs =>
    rename_i ih
    obtain ⟨xs, ys, rfl, hxs, hys⟩ := ih hs ((List.cons.inj h).2 ▸ hss)
    refine ⟨(c, region) :: xs, ys, rfl, ?_, (List.cons.inj h).2 ▸ hys⟩
    rw [List.getLast?_cons, hxs]
    rfl

theorem exists_of_mem_segmentsOf {ms : List (Char × Region)} {s : List Char}
    (h : s ∈ segmentsOf ms) : ∃ xs ys, ms = xs ++ ys ∧
      (xs = [] ∨ xs.getLast? = some (';', .code)) ∧ s <+: ys.map Prod.fst := by
  induction hss : segmentsOf ms generalizing ms with
  | nil =>
    rw [hss] at h
    simp at h
  | cons first ss ih =>
    rw [hss] at h
    rcases List.mem_cons.1 h with rfl | h
    · refine ⟨[], ms, rfl, .inl rfl, ?_⟩
      rw [← flatten_segmentsOf, hss]
      exact List.prefix_append s ss.flatten
    · obtain ⟨xs, ys, rfl, hxs, rfl⟩ := exists_of_segmentsOf_eq_cons hss (List.ne_nil_of_mem h)
      obtain ⟨zs, ws, rfl, hzs, hs⟩ := ih h rfl
      refine ⟨xs ++ zs, ws, (List.append_assoc ..).symm, .inr ?_, hs⟩
      rcases hzs with rfl | hzs
      · rwa [List.append_nil]
      · rw [List.getLast?_append, hzs]
        rfl

theorem uncommented_of_mem_segments {text s : List Char} (h : s ∈ segments (blank text)) :
    ∃ after, Uncommented (s ++ after) [] := by
  rw [segments, ← mark_eq_of_blank] at h
  obtain ⟨xs, ys, hsplit, hxs, after, hys⟩ := exists_of_mem_segmentsOf h
  have hmarks : mark true (s ++ after) = ys := by
    rw [hys]
    rcases hxs with rfl | hlast
    · rw [List.nil_append] at hsplit
      rw [← hsplit, mark, mark, map_fst_markFrom]
    · obtain ⟨zs, rfl⟩ := List.getLast?_eq_some_iff.1 hlast
      rw [List.append_assoc] at hsplit
      exact markFrom_of_eq_append (by decide) (by decide) hsplit
  refine ⟨after, uncommented_nil_iff.2 fun m hm => ?_⟩
  rw [hmarks] at hm
  have hmem : m ∈ mark true (blank text) := by
    rw [hsplit]
    exact List.mem_append_right xs hm
  exact ne_comment_of_mem_mark_blank hmem

theorem blank_of_mem_statements {text : List Char} {s : Statement}
    (h : s ∈ statements (blank text)) : blank s.text = s.text := by
  obtain ⟨piece, hpiece, hs⟩ := List.mem_filterMap.1 h
  obtain ⟨segment, hsegment, hof⟩ := List.mem_filterMap.1 hpiece
  obtain ⟨after, hafter⟩ := uncommented_of_mem_segments hsegment
  obtain ⟨blanks, hblanks⟩ := trimEnd_prefix_self (Text.trimStart segment)
  have htrimmed : Uncommented (Text.trim segment ++ (blanks ++ after)) [] := by
    rw [Text.trim, ← List.append_assoc, hblanks]
    exact hafter.trimStart
  have htext : s = .close (Text.trim segment) := by
    unfold Piece.ofSegment? at hof
    grind [Piece.statement?]
  apply blank_of_uncommented
  rw [htext, Statement.close]
  split_ifs
  · exact htrimmed.take
  · exact htrimmed.close

end Source

namespace Table

/-- A script is read statement by statement, each as a text of its own. -/
theorem parseScript_eq_map_parse (text : String) : parseScript text =
    (statements (withoutComments text).toList).map fun s => parse (String.ofList s.text) := by
  rw [parseScript, withoutComments, String.toList_ofList]
  refine List.map_congr_left fun s hs => ?_
  rw [parse, withoutComments, String.toList_ofList, blank_of_mem_statements hs]

end Table

end SqlTables
