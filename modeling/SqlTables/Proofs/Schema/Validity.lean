import Mathlib.Data.List.Nodup
import SqlTables.Schema.Table

/-! What the structural rules say of a table that keeps them. -/

namespace SqlTables

theorem firstRepeat?_eq_none_iff {seen names : List String} :
    firstRepeat? seen names = none ↔ names.Nodup ∧ ∀ name ∈ names, name ∉ seen := by
  induction names generalizing seen with
  | nil => simp [firstRepeat?]
  | cons name names ih =>
    rw [firstRepeat?, List.nodup_cons]
    split_ifs with h
    · simp [h]
    · rw [ih]
      constructor
      · rintro ⟨hn, hs⟩
        refine ⟨⟨fun hm => (hs name hm) (List.mem_cons_self ..), hn⟩, ?_⟩
        intro other ho
        rcases List.mem_cons.1 ho with rfl | ho
        · exact h
        · exact fun hm => hs other ho (List.mem_cons_of_mem _ hm)
      · rintro ⟨⟨hm, hn⟩, hs⟩
        refine ⟨hn, fun other ho => ?_⟩
        rw [List.mem_cons, not_or]
        exact ⟨fun he => hm (he ▸ ho), hs other (List.mem_cons_of_mem _ ho)⟩

namespace Table

variable {t : Table}

theorem fault?_of_validate (h : t.validate = .ok ()) : t.fault? = none := by
  unfold validate at h
  split at h
  · simp at h
  · assumption

theorem hasField_iff_mem {name : String} : t.hasField name = true ↔ name ∈ t.fieldNames := by
  simp [hasField, fieldNames]

theorem mem_of_field? {name : String} {f : Field} (h : t.field? name = some f) :
    f ∈ t.fields ∧ f.name = name := by
  refine ⟨List.mem_of_find?_eq_some h, ?_⟩
  simpa using List.find?_some h

theorem field?_eq_none_iff {name : String} : t.field? name = none ↔ name ∉ t.fieldNames := by
  simp [field?, fieldNames]

theorem find?_hasField_eq_none_iff {columns : List String} :
    columns.find? (!t.hasField ·) = none ↔ ∀ column ∈ columns, column ∈ t.fieldNames := by
  simp only [List.find?_eq_none, Bool.not_eq_true', Bool.not_eq_false, hasField_iff_mem]

theorem indexFault?_eq_none_iff {seen : List String} {is : List Index} :
    t.indexFault? seen is = none ↔ ((is.map (·.name)).Nodup ∧ ∀ i ∈ is, i.name ∉ seen) ∧
      ∀ i ∈ is, ∀ column ∈ i.fields, column ∈ t.fieldNames := by
  induction is generalizing seen with
  | nil => simp [indexFault?]
  | cons i is ih =>
    rw [indexFault?, List.map_cons, List.nodup_cons, List.forall_mem_cons, List.forall_mem_cons,
      ← find?_hasField_eq_none_iff]
    split_ifs with hs
    · simp [hs]
    · cases hc : i.fields.find? (!t.hasField ·) with
      | some column => simp
      | none =>
        simp only [ih, List.mem_cons, not_or, true_and, List.mem_map, not_exists, not_and]
        constructor
        · rintro ⟨⟨hnodup, hfresh⟩, hcolumns⟩
          exact ⟨⟨⟨fun j hj => (hfresh j hj).1, hnodup⟩, hs, fun j hj => (hfresh j hj).2⟩, hcolumns⟩
        · rintro ⟨⟨⟨hne, hnodup⟩, -, hfresh⟩, hcolumns⟩
          exact ⟨⟨hnodup, fun j hj => ⟨hne j hj, hfresh j hj⟩⟩, hcolumns⟩

theorem validate_eq_ok_iff : t.validate = .ok () ↔ t.fieldNames.Nodup ∧
    (t.indexes.map (·.name)).Nodup ∧
    (∀ i ∈ t.indexes, ∀ column ∈ i.fields, column ∈ t.fieldNames) ∧
    ∀ k ∈ t.foreignKeys, ∀ column ∈ k.fields, column ∈ t.fieldNames := by
  have hfault : t.validate = .ok () ↔ t.fault? = none := by
    unfold validate
    cases t.fault? <;> simp
  rw [hfault, fault?, Option.or_eq_none_iff, Option.or_eq_none_iff, fieldFault?,
    Option.map_eq_none_iff, firstRepeat?_eq_none_iff, indexFault?_eq_none_iff, foreignKeyFault?,
    List.findSome?_eq_none_iff]
  simp only [Option.map_eq_none_iff, find?_hasField_eq_none_iff, List.not_mem_nil,
    not_false_eq_true, implies_true, and_true, and_assoc]

theorem nodup_fieldNames_of_validate (h : t.validate = .ok ()) : t.fieldNames.Nodup :=
  (validate_eq_ok_iff.1 h).1

theorem nodup_indexNames_of_validate (h : t.validate = .ok ()) :
    (t.indexes.map (·.name)).Nodup :=
  (validate_eq_ok_iff.1 h).2.1

theorem fault?_congr {u : Table} (hf : t.fieldNames = u.fieldNames) (hi : t.indexes = u.indexes)
    (hk : t.foreignKeys = u.foreignKeys) : t.fault? = u.fault? := by
  have hhas (name : String) : t.hasField name = u.hasField name := by
    rw [Bool.eq_iff_iff, hasField_iff_mem, hasField_iff_mem, hf]
  have hindex (seen : List String) (is : List Index) :
      t.indexFault? seen is = u.indexFault? seen is := by
    induction is generalizing seen with
    | nil => rfl
    | cons i is ih => simp only [indexFault?, hhas, ih]
  simp only [fault?, fieldFault?, foreignKeyFault?, hf, hi, hk, hindex, hhas]

end Table

theorem find?_name_of_mem {fields : List Field} (hn : (fields.map (·.name)).Nodup) {f : Field}
    (hf : f ∈ fields) : fields.find? (·.name = f.name) = some f := by
  induction fields with
  | nil => simp at hf
  | cons g fields ih =>
    rw [List.map_cons, List.nodup_cons] at hn
    rw [List.find?_cons]
    rcases List.mem_cons.1 hf with rfl | hf
    · simp
    · have hne : g.name ≠ f.name := fun he => hn.1 (he ▸ List.mem_map_of_mem hf)
      simp only [hne, decide_false]
      exact ih hn.2 hf

theorem eq_of_name_eq {fields : List Field} (hn : (fields.map (·.name)).Nodup) {f g : Field}
    (hf : f ∈ fields) (hg : g ∈ fields) (h : f.name = g.name) : f = g := by
  have hfirst := find?_name_of_mem hn hf
  rw [h, find?_name_of_mem hn hg, Option.some.injEq] at hfirst
  exact hfirst.symm

end SqlTables
