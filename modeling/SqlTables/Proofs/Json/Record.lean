import Mathlib.Data.List.Nodup
import SqlTables.Json.Decode

/-! Records as they are written, each known key with its value or without one, and what the readers
of members find in them. -/

namespace SqlTables.Json

variable {α : Type} {slots : List (String × Option Json)} {known : List String} {key : String}
  {ms : Members}

theorem forall_of_bind {β : Type} {o : Option α} {next : α → Option β} {p : β → Prop}
    (h : ∀ a, o = some a → ∀ b, next a = some b → p b) : ∀ b, o.bind next = some b → p b := by
  intro b hb
  obtain ⟨a, ha, hnext⟩ := Option.bind_eq_some_iff.1 hb
  exact h a ha b hnext

def present (slots : List (String × Option Json)) : Members :=
  slots.filterMap fun s => s.2.map (s.1, ·)

theorem present_nil : present [] = [] := rfl

theorem present_some (key : String) (v : Json) (slots : List (String × Option Json)) :
    present ((key, some v) :: slots) = (key, v) :: present slots := rfl

theorem present_optional (key : String) (write : α → Json) (o : Option α)
    (slots : List (String × Option Json)) :
    present ((key, o.map write) :: slots) = optionalMember key write o ++ present slots := by
  cases o <;> rfl

def listSlot (write : α → Json) (as : List α) : Option Json :=
  if as.isEmpty then none else some (.arr (as.map write))

theorem present_list (key : String) (write : α → Json) (as : List α)
    (slots : List (String × Option Json)) :
    present ((key, listSlot write as) :: slots) = listMember key write as ++ present slots := by
  cases as <;> rfl

theorem keys_present_sublist (slots : List (String × Option Json)) :
    ((present slots).map (·.1)).Sublist (slots.map (·.1)) := by
  induction slots with
  | nil => exact .refl _
  | cons s slots ih =>
    obtain ⟨key, v⟩ := s
    cases v with
    | none => exact ih.cons key
    | some v => exact ih.cons_cons key

theorem lookup_present (hn : (slots.map (·.1)).Nodup) :
    ∀ s ∈ slots, (present slots).lookup s.1 = s.2 := by
  induction slots with
  | nil => simp
  | cons s slots ih =>
    obtain ⟨key, v⟩ := s
    rw [List.map_cons, List.nodup_cons] at hn
    have hnone : (present slots).lookup key = none := by
      rw [List.lookup_eq_none_iff]
      intro m hm
      have hkey := (keys_present_sublist slots).subset (List.mem_map_of_mem hm)
      have hne : key ≠ m.1 := fun he => hn.1 (he ▸ hkey)
      simpa using hne
    rw [List.forall_mem_cons]
    refine ⟨?_, fun s hs => ?_⟩
    · cases v with
      | none => exact hnone
      | some v => simp [present]
    · have hmem : s.1 ∈ slots.map (·.1) := List.mem_map_of_mem hs
      have hne : s.1 ≠ key := fun he => hn.1 (he ▸ hmem)
      rw [← ih hn.2 s hs]
      cases v with
      | none => rfl
      | some v =>
        change ((key, v) :: present slots).lookup s.1 = _
        rw [List.lookup_cons, beq_eq_false_iff_ne.2 hne]

theorem record?_present (hk : slots.map (·.1) = known) (hn : known.Nodup) :
    record? known (.obj (present slots)) = some (present slots) := by
  have hkeys : ((present slots).map (·.1)).Nodup :=
    (hk ▸ hn : (slots.map (·.1)).Nodup).sublist (keys_present_sublist slots)
  have hcount : known.all (fun k => (present slots).countP (·.1 = k) ≤ 1) = true := by
    rw [List.all_eq_true]
    intro k _
    have h := List.nodup_iff_count_le_one.1 hkeys k
    rw [List.count, List.countP_map] at h
    simpa [Function.comp_def, beq_eq_decide] using h
  rw [record?, if_pos hcount]

namespace Members

theorem required_eq {read : Json → Option α} {v : Json} (h : ms.lookup key = some v) :
    ms.required key read = read v := by
  rw [required, h, Option.bind_some]

theorem withDefault_eq {read : Json → Option α} {v : Json} {default : α}
    (h : ms.lookup key = some v) : ms.withDefault key default read = read v := by
  rw [withDefault, h]

theorem optional_eq {read : Json → Option α} {write : α → Json} {o : Option α}
    (h : ms.lookup key = o.map write) (hw : ∀ a, write a ≠ .null ∧ read (write a) = some a) :
    ms.optional key read = some o := by
  cases o with
  | none => simp [optional, h]
  | some a =>
    obtain ⟨hnull, hread⟩ := hw a
    simp [optional, h, hread]

theorem list?_map {read : Json → Option α} {write : α → Json} {as : List α}
    (h : ∀ a ∈ as, read (write a) = some a) : list? read (.arr (as.map write)) = some as := by
  rw [list?]
  induction as with
  | nil => rfl
  | cons a as ih =>
    rw [List.forall_mem_cons] at h
    rw [List.map_cons, List.mapM_cons, h.1, ih h.2]
    rfl

theorem required_string {s : String} (h : ms.lookup key = some (.str s)) :
    ms.required key string? = some s := required_eq h

theorem required_strings {ss : List String} (h : ms.lookup key = some (strings ss)) :
    ms.required key (list? string?) = some ss := by
  rw [required_eq h]
  exact list?_map fun _ _ => rfl

theorem withDefault_bool {default b : Bool} (h : ms.lookup key = some (.bool b)) :
    ms.withDefault key default bool? = some b := withDefault_eq h

theorem optional_string {o : Option String} (h : ms.lookup key = o.map .str) :
    ms.optional key string? = some o :=
  optional_eq h fun _ => ⟨by simp, rfl⟩

theorem uint32?_toNat (n : UInt32) : uint32? (.int n.toNat) = some n := by
  have hlt : (n.toNat : Int) < UInt32.size := by exact_mod_cast n.toNat_lt
  rw [uint32?, if_pos ⟨by omega, hlt⟩]
  simp

theorem optional_uint32 {o : Option UInt32}
    (h : ms.lookup key = o.map fun n => .int n.toNat) : ms.optional key uint32? = some o :=
  optional_eq h fun n => ⟨by simp, uint32?_toNat n⟩

theorem uint64?_toNat (n : UInt64) : uint64? (.int n.toNat) = some n := by
  have hlt : (n.toNat : Int) < UInt64.size := by exact_mod_cast n.toNat_lt
  rw [uint64?, if_pos ⟨by omega, hlt⟩]
  simp

theorem optional_uint64 {o : Option UInt64}
    (h : ms.lookup key = o.map fun n => .int n.toNat) : ms.optional key uint64? = some o :=
  optional_eq h fun n => ⟨by simp, uint64?_toNat n⟩

theorem withDefault_list {read : Json → Option α} {write : α → Json} {as default : List α}
    (h : ms.lookup key = some (.arr (as.map write))) (hw : ∀ a ∈ as, read (write a) = some a) :
    ms.withDefault key default (list? read) = some as := by
  rw [withDefault_eq h, list?_map hw]

theorem withDefault_listSlot {read : Json → Option α} {write : α → Json} {as : List α}
    (h : ms.lookup key = listSlot write as) (hw : ∀ a ∈ as, read (write a) = some a) :
    ms.withDefault key [] (list? read) = some as := by
  cases as with
  | nil => simp [withDefault, h, listSlot]
  | cons a as =>
    exact withDefault_list h hw

theorem withDefault_strings {ss : List String} (h : ms.lookup key = listSlot .str ss) :
    ms.withDefault key [] (list? string?) = some ss :=
  withDefault_listSlot h fun _ _ => rfl

theorem exists_of_list? {read : Json → Option α} {v : Json} {as : List α}
    (h : list? read v = some as) : ∀ a ∈ as, ∃ w, read w = some a := by
  cases v with
  | arr items =>
    rw [list?] at h
    induction items generalizing as with
    | nil =>
      cases h
      simp
    | cons item items ih =>
      rw [List.mapM_cons] at h
      obtain ⟨a, ha, h⟩ := Option.bind_eq_some_iff.1 h
      obtain ⟨as, has, h⟩ := Option.bind_eq_some_iff.1 h
      cases h
      rw [List.forall_mem_cons]
      exact ⟨⟨item, ha⟩, ih has⟩
  | _ => simp [list?] at h

theorem exists_of_withDefault_list {read : Json → Option α} {as : List α}
    (h : ms.withDefault key [] (list? read) = some as) : ∀ a ∈ as, ∃ w, read w = some a := by
  unfold withDefault at h
  split at h
  · cases h
    simp
  · exact exists_of_list? h

end Members

end SqlTables.Json
