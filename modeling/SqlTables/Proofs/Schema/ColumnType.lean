import SqlTables.Proofs.Text.Casing
import SqlTables.Proofs.Text.Words
import SqlTables.Schema.ColumnType

/-! Type names have a normal form: the name of a type that was found by a name finds it again. -/

namespace SqlTables

open Text

variable {type : ColumnType} {ws : List (List Char)}

theorem upperCase_name (hn : type.isCustom = false) : Text.upperCase type.name = type.name := by
  cases type <;> first | decide +kernel | exact absurd hn (by simp [ColumnType.isCustom])

theorem ofName_name (hn : type.isCustom = false) : ColumnType.ofName type.name = type := by
  cases type <;> first | decide +kernel | exact absurd hn (by simp [ColumnType.isCustom])

theorem isCustom_of_mem_spellings :
    ∀ e ∈ ColumnType.spellings, e.2.isCustom = false := by decide

theorem upperChars_append (cs ds : List Char) :
    upperChars (cs ++ ds) = upperChars cs ++ upperChars ds := List.flatMap_append

theorem upperChars_of_forall {cs : List Char} (h : ∀ c ∈ cs, upperChar c = [c]) :
    upperChars cs = cs := by
  rw [upperChars, List.flatMap_congr h, List.flatMap_singleton']

theorem isRun_upperChars {w : List Char} (hw : IsRun (!isBlank ·) w) :
    IsRun (!isBlank ·) (upperChars w) ∧ upperChars (upperChars w) = upperChars w := by
  have hfinal : ∀ d ∈ upperChars w, upperChar d = [d] ∧ isBlank d = false := by
    intro d hd
    obtain ⟨c, hc, hd⟩ := List.mem_flatMap.1 hd
    exact upperChar_of_mem_upperChar (by simpa using hw.2 c hc) hd
  refine ⟨⟨?_, fun d hd => by simp [(hfinal d hd).2]⟩,
    upperChars_of_forall fun d hd => (hfinal d hd).1⟩
  obtain ⟨c, w, rfl⟩ := List.exists_cons_of_ne_nil hw.1
  have hne := upperChar_ne_nil c
  simp [upperChars, hne]

theorem upperChars_intercalate (ws : List (List Char)) :
    upperChars ([' '].intercalate ws) = [' '].intercalate (ws.map upperChars) := by
  induction ws with
  | nil => rfl
  | cons w ws ih =>
    cases ws with
    | nil => simp
    | cons v ws =>
      rw [List.intercalate_cons_cons, upperChars_append, upperChars_append, ih]
      simp only [List.map_cons, List.intercalate_cons_cons]
      rfl

namespace ColumnType

theorem toList_normalize (name : String) :
    (normalize name).toList = [' '].intercalate ((words name.toList).map upperChars) := by
  rw [normalize, upperCase, String.toList_ofList, String.toList_ofList, upperChars_intercalate]

theorem normalize_normalize (name : String) : normalize (normalize name) = normalize name := by
  have hwords : ∀ w ∈ words name.toList, IsRun (!isBlank ·) w := fun w hw => isRun_of_mem_runsOf hw
  have hupper : ∀ w ∈ (words name.toList).map upperChars, IsRun (!isBlank ·) w := by
    intro w hw
    obtain ⟨v, hv, rfl⟩ := List.mem_map.1 hw
    exact (isRun_upperChars (hwords v hv)).1
  have hagain : words (normalize name).toList = (words name.toList).map upperChars := by
    rw [toList_normalize]
    exact runsOf_intercalate (by decide) hupper
  have hstays : ((words name.toList).map upperChars).map upperChars =
      (words name.toList).map upperChars := by
    rw [List.map_map]
    refine List.map_congr_left fun w hw => ?_
    exact (isRun_upperChars (hwords w hw)).2
  apply String.toList_inj.1
  rw [toList_normalize (normalize name), hagain, hstays, toList_normalize]

theorem ofName_name_ofName (name : String) : ofName (ofName name).name = ofName name := by
  cases h : spellings.lookup (normalize name) with
  | none =>
    have hcustom : ofName name = .custom (normalize name) := by simp [ofName, h]
    rw [hcustom]
    simp [ofName, ColumnType.name, normalize_normalize, h]
  | some type =>
    have htype : ofName name = type := by simp [ofName, h]
    obtain ⟨before, after, hsplit, -⟩ := List.lookup_eq_some_iff.1 h
    have hmem : (normalize name, type) ∈ spellings := by simp [hsplit]
    rw [htype, ofName_name (isCustom_of_mem_spellings _ hmem)]

end ColumnType

end SqlTables
