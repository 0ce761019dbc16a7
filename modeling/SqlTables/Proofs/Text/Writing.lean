import Mathlib.Data.Nat.Digits.Lemmas
import SqlTables.Text.Basic

/-! Texts as they are written: lists with a text between their entries, and numerals. -/

namespace SqlTables

theorem intercalate_cons {α : Type} (sep x : List α) (xs : List (List α)) :
    sep.intercalate (x :: xs) = x ++ xs.flatMap (sep ++ ·) := by
  induction xs generalizing x with
  | nil => simp
  | cons y ys ih => simp [List.intercalate_cons_cons, ih]

theorem intercalate_append_cons {α : Type} (sep y : List α) (xs ys : List (List α)) :
    sep.intercalate (xs ++ y :: ys) = xs.flatMap (· ++ sep) ++ (y ++ ys.flatMap (sep ++ ·)) := by
  induction xs with
  | nil => simp [intercalate_cons]
  | cons x xs ih =>
    obtain ⟨z, zs, hz⟩ := List.exists_cons_of_ne_nil (List.append_ne_nil_of_right_ne_nil xs
      (List.cons_ne_nil y ys))
    rw [List.cons_append, hz, List.intercalate_cons_cons, ← hz, ih]
    simp

theorem intercalate_append_singleton {α : Type} (sep y : List α) (xs : List (List α)) :
    sep.intercalate (xs ++ [y]) = xs.flatMap (· ++ sep) ++ y := by
  rw [intercalate_append_cons, List.flatMap_nil, List.append_nil]

theorem toList_toString (n : Nat) : (toString n).toList = Nat.toDigits 10 n :=
  Nat.toList_repr

theorem isDigit_toString (n : Nat) : ∀ c ∈ (toString n).toList, c.isDigit = true := by
  intro c hc
  rw [toList_toString] at hc
  exact Nat.isDigit_of_mem_toDigits (by decide) (by decide) hc

theorem toString_ne_nil (n : Nat) : (toString n).toList ≠ [] := by
  rw [toList_toString]
  exact Nat.toDigits_ne_nil

theorem head?_toString_ne {c : Char} (hc : c.isDigit = false) (n : Nat) :
    (toString n).toList.head? ≠ some c := by
  intro h
  have hdigit := isDigit_toString n c (List.mem_of_mem_head? h)
  rw [hc] at hdigit
  exact absurd hdigit (by simp)

theorem eq_zero_of_head?_toString {n : Nat} (h : (toString n).toList.head? = some '0') : n = 0 := by
  rw [toList_toString] at h
  induction n using Nat.strong_induction_on with
  | h n ih =>
    by_cases hn : n < 10
    · rw [Nat.toDigits_of_lt_base hn] at h
      interval_cases n <;> simp_all [Nat.digitChar]
    · have hlt : n / 10 < n := by omega
      have hne : Nat.toDigits 10 (n / 10) ≠ [] := Nat.toDigits_ne_nil
      rw [Nat.toDigits_of_base_le (by decide) (by omega), List.head?_append_of_ne_nil _ hne] at h
      have hzero := ih (n / 10) hlt h
      omega

theorem digitsValue_toString (n : Nat) : Text.digitsValue (toString n).toList = n := by
  rw [toList_toString]
  exact Nat.ofDigitChars_ten_toDigits

theorem digits?_append_of_isDigit {ds rest : List Char} (hd : ∀ c ∈ ds, c.isDigit = true)
    (hne : ds ≠ []) (hr : ∀ c ∈ rest.head?, c.isDigit = false) :
    Text.digits? (ds ++ rest) = some (ds, rest) := by
  have htake : (ds ++ rest).takeWhile Char.isDigit = ds := by
    rw [List.takeWhile_append_of_pos hd]
    cases rest with
    | nil => simp
    | cons c rest => simp [hr c rfl]
  have hdrop : (ds ++ rest).dropWhile Char.isDigit = rest := by
    rw [List.dropWhile_append_of_pos hd]
    cases rest with
    | nil => rfl
    | cons c rest => simp [hr c rfl]
  obtain ⟨d, ds, rfl⟩ := List.exists_cons_of_ne_nil hne
  rw [Text.digits?, htake, hdrop]

theorem digits?_toString (n : Nat) :
    Text.digits? (toString n).toList = some ((toString n).toList, []) := by
  have hend : ∀ c ∈ ([] : List Char).head?, c.isDigit = false := by simp
  have h := digits?_append_of_isDigit (isDigit_toString n) (toString_ne_nil n) hend
  rwa [List.append_nil] at h

theorem unsigned?_toString (n : Nat) : Text.unsigned? (toString n).toList = some n := by
  have hplus := head?_toString_ne (c := '+') (by decide) n
  have hall : (toString n).toList.all Char.isDigit = true := List.all_eq_true.2 (isDigit_toString n)
  have hne : (toString n).toList.isEmpty = false := by
    rw [List.isEmpty_eq_false_iff]
    exact toString_ne_nil n
  unfold Text.unsigned?
  split
  · rename_i hs
    rw [hs] at hplus
    exact absurd rfl hplus
  · simp only [Text.natOfDigits?, hne, hall, digitsValue_toString]
    rfl

end SqlTables
