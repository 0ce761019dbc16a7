/-! Names that are not taken: the name asked for, or the first of `base_2`, `base_3`, … that is
free. A number that is taken is struck from the names, so the search ends. -/

namespace SqlTables

def numberedName (base : String) (n : Nat) : String := base ++ "_" ++ toString n

def freshFrom (base : String) (n : Nat) (taken : List String) : String :=
  if numberedName base n ∈ taken then
    freshFrom base (n + 1) (taken.erase (numberedName base n))
  else numberedName base n
termination_by taken.length
decreasing_by
  rename_i h
  have := List.length_pos_of_mem h
  rw [List.length_erase_of_mem h]
  omega

def freshName (taken : List String) (base : String) : String :=
  if base ∈ taken then freshFrom base 2 taken else base

theorem numberedName_inj {base : String} {m n : Nat}
    (h : numberedName base m = numberedName base n) : m = n := by
  have hs := congrArg String.toList h
  simp only [numberedName, String.toList_append, List.append_cancel_left_eq, Nat.toString_eq_repr,
    Nat.toList_repr] at hs
  simpa using congrArg (Nat.ofDigitChars 10 · 0) hs

theorem freshFrom_spec (base : String) (n : Nat) (taken : List String) :
    ∃ k, n ≤ k ∧ freshFrom base n taken = numberedName base k ∧ numberedName base k ∉ taken := by
  fun_induction freshFrom base n taken with
  | case1 n taken h ih =>
    obtain ⟨k, hk, he, hf⟩ := ih
    refine ⟨k, by omega, he, fun hm => hf ((List.mem_erase_of_ne fun heq => ?_).2 hm)⟩
    have := numberedName_inj heq
    omega
  | case2 n taken h => exact ⟨n, Nat.le_refl n, rfl, h⟩

theorem freshName_not_mem (taken : List String) (base : String) : freshName taken base ∉ taken := by
  unfold freshName
  split
  · obtain ⟨k, -, he, hf⟩ := freshFrom_spec base 2 taken
    rwa [he]
  · assumption

end SqlTables
