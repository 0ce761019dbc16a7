import SqlTables.Proofs.Source.Statements
import SqlTables.Proofs.Token.Scanning

/-! Segments of a script. Every text is one segment after another in one way only, each but the last
with a terminator at its end, and none with one before that. -/

namespace SqlTables.Source

open Text (bytes bytes_cons)

variable {mode : Mode} {c d : Char} {region : Region} {s text rest : List Char}
  {ss ts : List (List Char)} {m : Char × Region} {ms : List (Char × Region)}

def Unbroken (ms : List (Char × Region)) : Prop :=
  ∀ before m after, ms = before ++ (';', .code) :: m :: after → Text.isBlank m.1 = false

def StartsBlank (cs : List Char) : Prop := ∀ c ∈ cs.head?, Text.isBlank c = true

/-- A text taken apart into segments. Quotes are looked for from the beginning of each. -/
structure Segmentation (text : List Char) (ss : List (List Char)) : Prop where
  joined : ss.flatten = text
  nonempty : ∀ s ∈ ss, s ≠ []
  unbroken : ∀ s ∈ ss, Unbroken (mark false s)
  terminated : ∀ before s after, ss = before ++ s :: after → after ≠ [] →
    (mark false s).getLast? = some (';', .code) ∧ StartsBlank after.flatten

theorem unbroken_cons (h : m = (';', .code) → ∀ n ∈ ms.head?, Text.isBlank n.1 = false)
    (hms : Unbroken ms) : Unbroken (m :: ms) := by
  intro before n after hsplit
  cases before with
  | nil =>
    rw [List.nil_append, List.cons.injEq] at hsplit
    exact h hsplit.1 n (by rw [hsplit.2]; rfl)
  | cons _ before =>
    rw [List.cons_append, List.cons.injEq] at hsplit
    exact hms before n after hsplit.2

theorem unbroken_singleton (m : Char × Region) : Unbroken [m] := by
  intro before n after hsplit
  cases before with
  | nil => simp at hsplit
  | cons _ before => simp at hsplit

def terminatorEnd : Mode → List Char → Nat
  | _, [] => 0
  | _, [c] => c.utf8Size
  | mode, c :: d :: rest =>
    let m := marking false mode c (some d)
    if m.takesNext then c.utf8Size + d.utf8Size + terminatorEnd m.mode rest
    else if c = ';' ∧ m.region = .code ∧ Text.isBlank d then c.utf8Size
    else c.utf8Size + terminatorEnd m.mode (d :: rest)

structure FirstSegment (mode : Mode) (text s rest : List Char) : Prop where
  split : text = s ++ rest
  nonempty : s ≠ []
  size : bytes s = terminatorEnd mode text
  unbroken : Unbroken (markFrom false mode s)
  terminated : rest ≠ [] → (markFrom false mode s).getLast? = some (';', .code) ∧ StartsBlank rest
  others : segmentsOf (markFrom false mode text) = s :: segments rest

theorem segmentsOf_cons (h : ¬(c = ';' ∧ region = .code ∧ endsBefore ms))
    (hs : segmentsOf ms = s :: ss) : segmentsOf ((c, region) :: ms) = (c :: s) :: ss := by
  rw [segmentsOf, if_neg h, hs]

theorem fst_of_mem_head?_markFrom {cs : List Char}
    (h : m ∈ (markFrom false mode (c :: cs)).head?) : m.1 = c := by
  have hfst := congrArg List.head? (map_fst_markFrom false mode (c :: cs))
  rw [List.head?_map, Option.mem_def.1 h] at hfst
  exact Option.some.inj hfst

theorem endsBefore_markFrom_cons (mode : Mode) (c : Char) (cs : List Char) :
    endsBefore (markFrom false mode (c :: cs)) = Text.isBlank c := by
  cases hms : markFrom false mode (c :: cs) with
  | nil => exact absurd hms (markFrom_ne_nil (by simp))
  | cons m ms =>
    rw [endsBefore, fst_of_mem_head?_markFrom (by rw [hms]; rfl)]

theorem firstSegment_singleton (mode : Mode) (c : Char) : FirstSegment mode [c] [c] [] where
  split := rfl
  nonempty := by simp
  size := by simp [terminatorEnd]
  unbroken := unbroken_singleton _
  terminated h := absurd rfl h
  others := by
    rw [markFrom, segmentsOf]
    split_ifs <;> rfl

namespace FirstSegment

theorem of_terminator (hm : (marking false mode ';' (some d)).takesNext = false)
    (hr : (marking false mode ';' (some d)).region = .code) (hd : Text.isBlank d = true)
    (rest : List Char) : FirstSegment mode (';' :: d :: rest) [';'] (d :: rest) := by
  have hany := marking_of_region_code hr (by decide) (by decide)
  refine ⟨rfl, by simp, ?_, unbroken_singleton _, fun _ => ⟨?_, ?_⟩, ?_⟩
  · simp [terminatorEnd, hm, hr, hd]
  · rw [markFrom, hany]
    rfl
  · intro c hc
    obtain rfl : d = c := by simpa using hc
    exact hd
  · have hblank := endsBefore_markFrom_cons .code d rest
    rw [markFrom_cons (by rw [hany]), hany, segmentsOf,
      if_pos ⟨rfl, rfl, by rw [hblank, hd]⟩]
    rfl

theorem cons (hm : (marking false mode c (some d)).takesNext = false)
    (hc : ¬(c = ';' ∧ (marking false mode c (some d)).region = .code ∧ Text.isBlank d = true))
    {cs : List Char}
    (h : FirstSegment (marking false mode c (some d)).mode (d :: cs) s rest) :
    FirstSegment mode (c :: d :: cs) (c :: s) rest := by
  obtain ⟨s, rfl⟩ : ∃ tail, s = d :: tail := by
    obtain ⟨e, tail, he⟩ := List.exists_cons_of_ne_nil h.nonempty
    have hsplit := h.split
    rw [he, List.cons_append, List.cons.injEq] at hsplit
    exact ⟨tail, by rw [he, hsplit.1]⟩
  have hmark (cs : List Char) : markFrom false mode (c :: d :: cs) =
      (c, (marking false mode c (some d)).region) ::
        markFrom false (marking false mode c (some d)).mode (d :: cs) := markFrom_cons hm
  have hblank := endsBefore_markFrom_cons (marking false mode c (some d)).mode d
  have hsplit := h.split
  rw [List.cons_append, List.cons.injEq] at hsplit
  refine ⟨by rw [hsplit.2]; rfl, by simp, ?_, ?_, fun hne => ⟨?_, (h.terminated hne).2⟩, ?_⟩
  · rw [terminatorEnd, if_neg (by simp [hm]), if_neg hc, ← h.size]
    rfl
  · rw [hmark]
    refine unbroken_cons (fun hterminator n hn => ?_) h.unbroken
    obtain ⟨hsemicolon, hcode⟩ := Prod.mk.inj hterminator
    rw [fst_of_mem_head?_markFrom hn]
    by_contra hd
    exact hc ⟨hsemicolon, hcode, by simpa using hd⟩
  · rw [hmark, List.getLast?_cons_of_ne_nil (markFrom_ne_nil (by simp))]
    exact (h.terminated hne).1
  · rw [hmark]
    exact segmentsOf_cons (by rw [hblank]; exact hc) h.others

theorem pair (hm : (marking false mode c (some d)).takesNext = true) :
    FirstSegment mode [c, d] [c, d] [] := by
  have hne := region_ne_code_of_takesNext hm
  refine ⟨rfl, by simp, by simp [terminatorEnd, hm], ?_, fun h => absurd rfl h, ?_⟩
  · rw [markFrom_cons_cons hm]
    exact unbroken_cons (fun h => absurd (Prod.mk.inj h).2 hne) (unbroken_singleton _)
  · have hlast : segmentsOf [(d, (marking false mode c (some d)).region)] = [[d]] := by
      rw [segmentsOf, if_neg fun h => hne h.2.1]
      rfl
    rw [markFrom_cons_cons hm]
    exact segmentsOf_cons (fun h => hne h.2.1) hlast

theorem cons_cons (hm : (marking false mode c (some d)).takesNext = true) {cs : List Char}
    (h : FirstSegment (marking false mode c (some d)).mode cs s rest) :
    FirstSegment mode (c :: d :: cs) (c :: d :: s) rest := by
  have hne := region_ne_code_of_takesNext hm
  refine ⟨by rw [h.split]; rfl, by simp, ?_, ?_, fun hrest => ⟨?_, (h.terminated hrest).2⟩, ?_⟩
  · rw [terminatorEnd, if_pos hm, ← h.size, bytes_cons, bytes_cons, Nat.add_assoc]
  · rw [markFrom_cons_cons hm]
    exact unbroken_cons (fun h => absurd (Prod.mk.inj h).2 hne)
      (unbroken_cons (fun h => absurd (Prod.mk.inj h).2 hne) h.unbroken)
  · rw [markFrom_cons_cons hm, List.getLast?_cons_cons,
      List.getLast?_cons_of_ne_nil (markFrom_ne_nil h.nonempty)]
    exact (h.terminated hrest).1
  · rw [markFrom_cons_cons hm]
    exact segmentsOf_cons (fun h => hne h.2.1) (segmentsOf_cons (fun h => hne h.2.1) h.others)

end FirstSegment

theorem exists_firstSegment (mode : Mode) (h : text ≠ []) :
    ∃ s rest, FirstSegment mode text s rest := by
  fun_induction terminatorEnd mode text with
  | case1 => exact absurd rfl h
  | case2 mode c => exact ⟨[c], [], firstSegment_singleton mode c⟩
  | case3 mode c d rest m hm ih =>
    cases rest with
    | nil => exact ⟨_, _, .pair hm⟩
    | cons e rest =>
      obtain ⟨s, after, hs⟩ := ih (by simp)
      exact ⟨_, _, hs.cons_cons hm⟩
  | case4 mode c d rest m hm hc =>
    obtain ⟨rfl, hr, hd⟩ := hc
    exact ⟨_, _, .of_terminator (by simpa using hm) hr hd rest⟩
  | case5 mode c d rest m hm hc ih =>
    obtain ⟨s, after, hs⟩ := ih (by simp)
    exact ⟨_, _, hs.cons (by simpa using hm) hc⟩

theorem segmentation_nil : Segmentation [] [] where
  joined := rfl
  nonempty := by simp
  unbroken := by simp
  terminated := by simp

theorem FirstSegment.segmentation (h : FirstSegment .code text s rest)
    (hss : Segmentation rest ss) : Segmentation text (s :: ss) where
  joined := by rw [List.flatten_cons, hss.joined, h.split]
  nonempty := List.forall_mem_cons.2 ⟨h.nonempty, hss.nonempty⟩
  unbroken := List.forall_mem_cons.2 ⟨h.unbroken, hss.unbroken⟩
  terminated before t after hsplit hafter := by
    cases before with
    | nil =>
      obtain ⟨rfl, rfl⟩ := List.cons.inj hsplit
      have hrest : rest ≠ [] := by
        rw [← hss.joined]
        obtain ⟨u, after, rfl⟩ := List.exists_cons_of_ne_nil hafter
        simp [hss.nonempty u List.mem_cons_self]
      rw [hss.joined]
      exact h.terminated hrest
    | cons _ before => exact hss.terminated before t after (List.cons.inj hsplit).2 hafter

theorem Segmentation.tail (h : Segmentation text (s :: ss)) : Segmentation ss.flatten ss where
  joined := rfl
  nonempty := (List.forall_mem_cons.1 h.nonempty).2
  unbroken := (List.forall_mem_cons.1 h.unbroken).2
  terminated before t after hsplit := h.terminated (s :: before) t after (by rw [hsplit]; rfl)

/-- A segment that another one goes on from ends with a terminator, which the other would have in
its middle. -/
theorem Segmentation.not_longer {t u : List Char} (hs : Segmentation text (s :: ss))
    (ht : Segmentation text (t :: ts)) (h : t = s ++ u) : u = [] := by
  subst h
  by_contra hu
  have hjoined := hs.joined.trans ht.joined.symm
  rw [List.flatten_cons, List.flatten_cons, List.append_assoc,
    List.append_cancel_left_eq] at hjoined
  have hne : ss ≠ [] := by
    rintro rfl
    exact hu (List.append_eq_nil_iff.1 hjoined.symm).1
  obtain ⟨c, u, rfl⟩ := List.exists_cons_of_ne_nil hu
  obtain ⟨hlast, hblank⟩ := hs.terminated [] s ss rfl hne
  have hc : Text.isBlank c = true := hblank c (by rw [hjoined]; rfl)
  obtain ⟨ms, hms⟩ := List.getLast?_eq_some_iff.1 hlast
  have hmarked : markFrom false .code (c :: u) ≠ [] := markFrom_ne_nil (List.cons_ne_nil c u)
  obtain ⟨n, ns, hns⟩ := List.exists_cons_of_ne_nil hmarked
  have hmark : mark false (s ++ c :: u) = ms ++ (';', .code) :: n :: ns := by
    rw [mark_append hlast, hms, mark, hns, List.append_assoc]
    rfl
  have hn := ht.unbroken _ List.mem_cons_self ms n ns hmark
  rw [fst_of_mem_head?_markFrom (by rw [hns]; rfl), hc] at hn
  exact absurd hn (by simp)

theorem Segmentation.eq_nil (h : Segmentation [] ss) : ss = [] := by
  cases ss with
  | nil => rfl
  | cons s ss =>
    have hs := h.nonempty s List.mem_cons_self
    exact absurd (List.append_eq_nil_iff.1 h.joined).1 hs

theorem Segmentation.unique (hs : Segmentation text ss) (ht : Segmentation text ts) : ss = ts := by
  induction ss generalizing text ts with
  | nil =>
    obtain rfl := hs.joined
    exact ht.eq_nil.symm
  | cons s ss ih =>
    cases ts with
    | nil =>
      obtain rfl := ht.joined
      exact hs.eq_nil
    | cons t ts =>
      have hjoined := hs.joined.trans ht.joined.symm
      rw [List.flatten_cons, List.flatten_cons] at hjoined
      obtain rfl : s = t := by
        rcases List.append_eq_append_iff.1 hjoined with ⟨u, hu, -⟩ | ⟨u, hu, -⟩
        · rw [hu, hs.not_longer ht hu, List.append_nil]
        · rw [hu, ht.not_longer hs hu, List.append_nil]
      rw [List.append_cancel_left_eq] at hjoined
      rw [ih hs.tail (hjoined ▸ ht.tail)]

theorem segmentation_segments (text : List Char) : Segmentation text (segments text) := by
  induction hn : text.length using Nat.strongRecOn generalizing text with
  | ind n ih =>
    by_cases h : text = []
    · subst h
      exact segmentation_nil
    · obtain ⟨s, rest, hfirst⟩ := exists_firstSegment .code h
      rw [segments, mark, hfirst.others]
      refine hfirst.segmentation (ih rest.length ?_ rest rfl)
      have hpos := List.length_pos_iff.2 hfirst.nonempty
      rw [← hn, hfirst.split, List.length_append]
      omega

end SqlTables.Source
