import SqlTables.Dialect.DefaultText
import SqlTables.Proofs.Source.Literals
import SqlTables.Proofs.RoundTrip.Spelling
import SqlTables.Proofs.Token.Scanning

/-! Apostrophes in pairs, and one more at the end. Wherever a scan of such a text gets to, the text
that is left is one again, so the scan stops in a literal that nothing closes. -/

namespace SqlTables

namespace Scan

open Source (closing? isQuote)
open Dialect (double quotesPaired)
open Text (Position)

variable {c quote : Char} {as bs cs inside rest : List Char} {t : Head} {ts : List Token}
  {p p' : Position}

/-- Whether every apostrophe of a text is doubled but for the last character, which is one. -/
def Unpaired (cs : List Char) : Prop := ∃ v, cs = double '\x27' v ++ ['\x27']

theorem Unpaired.mem (h : Unpaired cs) : '\x27' ∈ cs := by
  obtain ⟨v, rfl⟩ := h
  simp

theorem Unpaired.of_append_cons (h : Unpaired (as ++ c :: bs)) (hc : c ≠ '\x27') :
    Unpaired bs := by
  obtain ⟨v, h⟩ := h
  induction v generalizing as with
  | nil =>
    have hmem : c ∈ as ++ c :: bs := by simp
    rw [h] at hmem
    exact absurd (List.mem_singleton.1 hmem) hc
  | cons d v ih =>
    by_cases hd : d = '\x27'
    · subst hd
      rw [double_cons_self] at h
      match as with
      | [] | [_] =>
        simp only [List.cons_append, List.nil_append, List.cons.injEq] at h
        simp_all
      | _ :: _ :: as =>
        simp only [List.cons_append, List.cons.injEq] at h
        exact ih h.2.2
    · rw [double_cons_of_ne hd] at h
      cases as with
      | nil =>
        rw [List.nil_append, List.cons_append, List.cons.injEq] at h
        exact ⟨v, h.2⟩
      | cons a as =>
        rw [List.cons_append, List.cons_append, List.cons.injEq] at h
        exact ih h.2

theorem Unpaired.of_append (h : Unpaired (as ++ bs)) (ha : '\x27' ∉ as) : Unpaired bs := by
  rcases List.eq_nil_or_concat as with rfl | ⟨as, d, rfl⟩
  · exact h
  · rw [List.concat_eq_append, List.append_assoc, List.singleton_append] at h
    refine h.of_append_cons ?_
    rintro rfl
    exact ha (by simp)

/-- A string that is opened by one of two apostrophes takes them in twos, each the second of a pair
and the first of the next. -/
theorem Unpaired.of_closing?_amid (h : closing? true '\x27' ('\x27' :: cs) = some (inside, rest))
    (hu : Unpaired cs) : Unpaired rest := by
  obtain ⟨v, rfl⟩ := hu
  induction v generalizing inside with
  | nil => simp [double, Source.closing?_doubled, closing?] at h
  | cons d v ih =>
    by_cases hd : d = '\x27'
    · subst hd
      rw [double_cons_self, List.cons_append, List.cons_append,
        Source.closing?_doubled (by simp)] at h
      obtain ⟨⟨i, r⟩, hi, he⟩ := Option.map_eq_some_iff.1 h
      cases he
      exact ih hi
    · rw [Source.closing?_quote (by simp) (by simp [double_cons_of_ne hd, hd])] at h
      cases h
      exact ⟨d :: v, rfl⟩

theorem Unpaired.of_closing? (h : closing? true '\x27' cs = some (inside, rest))
    (hu : Unpaired cs) : rest = [] ∨ Unpaired rest := by
  obtain ⟨v, rfl⟩ := hu
  induction hn : v.length using Nat.strongRecOn generalizing v inside with
  | ind n ih =>
    subst hn
    cases v with
    | nil =>
      rw [double, List.flatMap_nil, List.nil_append, Source.closing?_quote (by simp) (by simp)] at h
      cases h
      exact .inl rfl
    | cons d v =>
      by_cases hd : d = '\x27'
      · subst hd
        rw [double_cons_self, List.cons_append, List.cons_append,
          Source.closing?_doubled (by simp)] at h
        obtain ⟨⟨i, r⟩, hi, he⟩ := Option.map_eq_some_iff.1 h
        cases he
        exact ih v.length (by simp) v hi rfl
      · rw [double_cons_of_ne hd, List.cons_append] at h
        by_cases hs : d = '\\'
        · subst hs
          cases v with
          | nil => simp [double, Source.closing?_backslash, closing?] at h
          | cons e v =>
            by_cases he : e = '\x27'
            · -- the escape takes the first apostrophe of a pair
              subst he
              rw [double_cons_self, List.cons_append, List.cons_append,
                Source.closing?_backslash] at h
              obtain ⟨⟨i, r⟩, hi, heq⟩ := Option.map_eq_some_iff.1 h
              cases heq
              exact .inr (Unpaired.of_closing?_amid hi ⟨v, rfl⟩)
            · rw [double_cons_of_ne he, List.cons_append, Source.closing?_backslash] at h
              obtain ⟨⟨i, r⟩, hi, heq⟩ := Option.map_eq_some_iff.1 h
              cases heq
              exact ih v.length (by simp only [List.length_cons]; omega) v hi rfl
        · rw [Source.closing?_cons_of_ne hd fun _ => hs] at h
          obtain ⟨⟨i, r⟩, hi, he⟩ := Option.map_eq_some_iff.1 h
          cases he
          exact ih v.length (by simp) v hi rfl

theorem Unpaired.of_head? (h : head? c cs = some t) (hu : Unpaired (c :: cs)) :
    Unpaired t.rest := by
  by_cases hq : isQuote c = true
  · obtain ⟨-, inside, hclose, -⟩ := head?_of_quote hq h
    by_cases hc : c = '\x27'
    · subst hc
      obtain ⟨v, hv⟩ := hu
      cases v with
      | nil =>
        rw [double, List.flatMap_nil, List.nil_append, List.cons.injEq] at hv
        rw [hv.2] at hclose
        cases hclose
      | cons d v =>
        by_cases hd : d = '\x27'
        · subst hd
          rw [double_cons_self, List.cons_append, List.cons_append, List.cons.injEq] at hv
          rw [hv.2] at hclose
          exact Unpaired.of_closing?_amid hclose ⟨v, rfl⟩
        · rw [double_cons_of_ne hd, List.cons_append, List.cons.injEq] at hv
          exact absurd hv.1.symm hd
    · rw [Source.eq_append_of_closing? hclose] at hu
      exact @Unpaired.of_append_cons c (c :: inside) t.rest hu hc
  · rw [(eq_append_of_head? h).1] at hu
    refine hu.of_append fun hmem => ?_
    have hlexeme := (head?_of_not_quote (by simpa using hq) h).2.1 _ hmem
    exact absurd hlexeme (by decide)

theorem Scans.unpaired (h : Scans p cs ts p' rest) (hu : Unpaired cs) : Unpaired rest := by
  induction h with
  | done => exact hu
  | token hgap _ ht _ ih =>
    refine ih (Unpaired.of_head? ht (hu.of_append fun hmem => ?_))
    exact absurd (hgap _ hmem) (by decide)

theorem Unpaired.not_gap (hu : Unpaired cs) (h : Scans p cs ts p' rest) : ¬Gap rest := by
  intro hgap
  exact absurd (hgap _ (h.unpaired hu).mem) (by decide)

end Scan

theorem Dialect.exists_double_of_quotesPaired {cs : List Char} (h : quotesPaired cs = true) :
    ∃ v, cs = double '\x27' v := by
  fun_induction quotesPaired cs with
  | case1 => exact ⟨[], rfl⟩
  | case2 c =>
    have hc : c ≠ '\x27' := by simpa using h
    exact ⟨[c], by simp [double, hc]⟩
  | case3 d rest ih =>
    rw [Bool.and_eq_true, decide_eq_true_eq] at h
    obtain ⟨v, rfl⟩ := ih h.2
    exact ⟨'\x27' :: v, by rw [double_cons_self, h.1]⟩
  | case4 c d rest hc ih =>
    obtain ⟨v, hv⟩ := ih h
    exact ⟨c :: v, by rw [double_cons_of_ne hc, hv]⟩

end SqlTables
