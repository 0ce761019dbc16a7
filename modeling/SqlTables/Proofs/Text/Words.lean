import SqlTables.Proofs.Text.Writing
import SqlTables.Text.Basic

/-! The runs of a text. Written with a separator between them, runs are found again. -/

namespace SqlTables.Text

variable {inWord : Char → Bool} {c d separator : Char} {w rest : List Char} {ws : List (List Char)}

theorem runsOf_cons_of_false (hc : inWord c = false) (rest : List Char) :
    runsOf inWord (c :: rest) = runsOf inWord rest := by
  simp [runsOf.eq_def inWord (c :: rest), hc]

theorem runsOf_cons_of_end (hc : inWord c = true) (hr : ∀ d ∈ rest.head?, inWord d = false) :
    runsOf inWord (c :: rest) = [c] :: runsOf inWord rest := by
  rw [runsOf.eq_def]
  cases rest with
  | nil => simp [hc, runsOf]
  | cons d rest =>
    have hd := hr d rfl
    cases hruns : runsOf inWord (d :: rest) <;> simp [hc, hd, hruns]

theorem runsOf_cons_cons (hc : inWord c = true) (hd : inWord d = true)
    (h : runsOf inWord (d :: rest) = w :: ws) :
    runsOf inWord (c :: d :: rest) = (c :: w) :: ws := by
  rw [runsOf.eq_def]
  simp [hc, hd, h]

def IsRun (inWord : Char → Bool) (w : List Char) : Prop := w ≠ [] ∧ ∀ c ∈ w, inWord c = true

theorem runsOf_append (hw : IsRun inWord w) (hr : ∀ c ∈ rest.head?, inWord c = false) :
    runsOf inWord (w ++ rest) = w :: runsOf inWord rest := by
  obtain ⟨hne, hall⟩ := hw
  induction w with
  | nil => exact absurd rfl hne
  | cons c w ih =>
    rw [List.forall_mem_cons] at hall
    cases w with
    | nil => exact runsOf_cons_of_end hall.1 hr
    | cons d w =>
      have hd : inWord d = true := hall.2 d List.mem_cons_self
      exact runsOf_cons_cons hall.1 hd (ih (by simp) hall.2)

theorem isRun_of_mem_runsOf {cs : List Char} (h : w ∈ runsOf inWord cs) : IsRun inWord w := by
  induction cs generalizing w with
  | nil => simp [runsOf] at h
  | cons c rest ih =>
    cases hc : inWord c with
    | false =>
      rw [runsOf_cons_of_false hc] at h
      exact ih h
    | true =>
      have hone : IsRun inWord [c] := ⟨by simp, by simpa using hc⟩
      by_cases hr : ∀ d ∈ rest.head?, inWord d = false
      · rw [runsOf_cons_of_end hc hr, List.mem_cons] at h
        rcases h with rfl | h
        · exact hone
        · exact ih h
      · obtain ⟨d, rest, rfl⟩ : ∃ d after, rest = d :: after := by
          cases rest with
          | nil => simp at hr
          | cons d after => exact ⟨d, after, rfl⟩
        have hd : inWord d = true := by simpa using hr
        cases hruns : runsOf inWord (d :: rest) with
        | nil =>
          rw [runsOf.eq_def] at h
          simp only [hc, if_true, hruns, List.mem_singleton] at h
          exact h ▸ hone
        | cons run runs =>
          rw [runsOf_cons_cons hc hd hruns, List.mem_cons] at h
          have hrun := ih (hruns ▸ List.mem_cons_self)
          rcases h with rfl | h
          · exact ⟨by simp, List.forall_mem_cons.2 ⟨hc, hrun.2⟩⟩
          · exact ih (hruns ▸ List.mem_cons_of_mem run h)

theorem runsOf_intercalate (hs : inWord separator = false) (h : ∀ w ∈ ws, IsRun inWord w) :
    runsOf inWord ([separator].intercalate ws) = ws := by
  induction ws with
  | nil => rfl
  | cons w ws ih =>
    rw [List.forall_mem_cons] at h
    cases ws with
    | nil =>
      have hend : ∀ c ∈ ([] : List Char).head?, inWord c = false := by simp
      have hone := runsOf_append h.1 hend
      simpa [runsOf] using hone
    | cons v ws =>
      have hseparated : ∀ c ∈ (separator :: [separator].intercalate (v :: ws)).head?,
          inWord c = false := by simpa using hs
      rw [List.intercalate_cons_cons, List.append_assoc, List.singleton_append,
        runsOf_append h.1 hseparated, runsOf_cons_of_false hs, ih h.2]

end SqlTables.Text
