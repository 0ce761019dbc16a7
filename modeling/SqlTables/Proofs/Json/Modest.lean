import SqlTables.Json.Value
import SqlTables.Proofs.Json.Record

/-! Values that any reader takes: nested not too deep, with numbers that a double holds. -/

namespace SqlTables.Json

/-- The value is nested at most so deep, and its numbers are finite. -/
def Modest (n : Nat) (v : Json) : Prop := v.depth ≤ n ∧ v.allFinite = true

variable {n : Nat} {vs : List Json} {slots : List (String × Option Json)}

theorem modest_str (s : String) : Modest n (.str s) := ⟨Nat.zero_le n, rfl⟩

theorem modest_bool (b : Bool) : Modest n (.bool b) := ⟨Nat.zero_le n, rfl⟩

theorem modest_nat {k : Nat} (hk : k < UInt64.size) : Modest n (.int k) := by
  refine ⟨Nat.zero_le n, ?_⟩
  have hlimit : UInt64.size ≤ doubleLimit := by decide +kernel
  have hsize : k < doubleLimit := Nat.lt_of_lt_of_le hk hlimit
  simp [allFinite, isFiniteDouble, hsize]

theorem modest_uint32 (k : UInt32) : Modest n (.int k.toNat) :=
  modest_nat (Nat.lt_trans k.toNat_lt_size (by decide))

theorem modest_uint64 (k : UInt64) : Modest n (.int k.toNat) := modest_nat k.toNat_lt_size

theorem modest_arr (h : ∀ v ∈ vs, Modest n v) : Modest (n + 1) (.arr vs) := by
  have hitems : depthItems vs ≤ n ∧ allFiniteItems vs = true := by
    induction vs with
    | nil => exact ⟨Nat.zero_le n, rfl⟩
    | cons v vs ih =>
      rw [List.forall_mem_cons] at h
      have hrest := ih h.2
      exact ⟨Nat.max_le.2 ⟨h.1.1, hrest.1⟩, Bool.and_eq_true_iff.2 ⟨h.1.2, hrest.2⟩⟩
  exact ⟨Nat.succ_le_succ hitems.1, hitems.2⟩

theorem modest_obj_present (h : ∀ s ∈ slots, ∀ v ∈ s.2, Modest n v) :
    Modest (n + 1) (.obj (present slots)) := by
  have hmembers : depthMembers (present slots) ≤ n ∧ allFiniteMembers (present slots) = true := by
    induction slots with
    | nil => exact ⟨Nat.zero_le n, rfl⟩
    | cons s slots ih =>
      obtain ⟨key, o⟩ := s
      rw [List.forall_mem_cons] at h
      have hrest := ih h.2
      cases o with
      | none => exact hrest
      | some v =>
        have hv := h.1 v rfl
        exact ⟨Nat.max_le.2 ⟨hv.1, hrest.1⟩, Bool.and_eq_true_iff.2 ⟨hv.2, hrest.2⟩⟩
  exact ⟨Nat.succ_le_succ hmembers.1, hmembers.2⟩

theorem modest_map {α : Type} {write : α → Json} (h : ∀ a, Modest n (write a)) (as : List α) :
    Modest (n + 1) (.arr (as.map write)) := by
  apply modest_arr
  intro v hv
  obtain ⟨a, _, rfl⟩ := List.mem_map.1 hv
  exact h a

theorem modest_listSlot {α : Type} {write : α → Json} (h : ∀ a, Modest n (write a))
    (as : List α) : ∀ v ∈ listSlot write as, Modest (n + 1) v := by
  intro v hv
  unfold listSlot at hv
  split_ifs at hv
  · simp at hv
  · cases hv
    exact modest_map h as

end SqlTables.Json
