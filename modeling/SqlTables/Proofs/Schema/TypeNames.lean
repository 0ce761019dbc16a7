import SqlTables.Proofs.Schema.ColumnType
import SqlTables.Text.Basic

/-! One form for every type name. A name is found again under the name of its type, and two names of
the same words find the same type, whatever the case of their ASCII letters and the blanks around
the words. -/

namespace SqlTables

open Text (IsRun foldCase isBlank upperChar upperChars words)

variable {gap cs : List Char} {ws vs : List (List Char)}

namespace Text

inductive Spaced : List (List Char) → List Char → Prop where
  | nil {gap : List Char} (hg : ∀ c ∈ gap, isBlank c = true) : Spaced [] gap
  | cons {gap w cs : List Char} {ws : List (List Char)} (hg : ∀ c ∈ gap, isBlank c = true)
      (hw : IsRun (!isBlank ·) w) (hcs : ∀ c ∈ cs.head?, isBlank c = true) (h : Spaced ws cs) :
      Spaced (w :: ws) (gap ++ (w ++ cs))

theorem words_append_of_blank (hg : ∀ c ∈ gap, isBlank c = true) (cs : List Char) :
    words (gap ++ cs) = words cs := by
  induction gap with
  | nil => rfl
  | cons c gap ih =>
    rw [List.forall_mem_cons] at hg
    rw [List.cons_append, words, runsOf_cons_of_false (by simp [hg.1]), ← words, ih hg.2]

theorem Spaced.words_eq (h : Spaced ws cs) : words cs = ws := by
  induction h with
  | nil hg =>
    have hwords := words_append_of_blank hg []
    rwa [List.append_nil] at hwords
  | cons hg hw hcs _ ih =>
    rw [words_append_of_blank hg, words, runsOf_append hw fun c hc => by simp [hcs c hc], ← words,
      ih]

theorem Spaced.blank_cons {c : Char} (hc : isBlank c = true) (h : Spaced ws cs) :
    Spaced ws (c :: cs) := by
  cases h with
  | nil hg => exact .nil (List.forall_mem_cons.2 ⟨hc, hg⟩)
  | cons hg hw hcs h => exact .cons (List.forall_mem_cons.2 ⟨hc, hg⟩) hw hcs h

theorem Spaced.word_cons {c : Char} (hc : isBlank c = false) (h : Spaced ws cs) :
    ∃ vs, Spaced vs (c :: cs) := by
  have hone : IsRun (!isBlank ·) [c] := ⟨by simp, by simp [hc]⟩
  by_cases hcs : ∀ d ∈ cs.head?, isBlank d = true
  · exact ⟨_, .cons (List.forall_mem_nil _) hone hcs h⟩
  · cases h with
    | nil hg => exact absurd (fun d hd => hg d (List.mem_of_mem_head? hd)) hcs
    | @cons gap w cs ws hg hw hrest h =>
      cases gap with
      | nil =>
        have hlonger : IsRun (!isBlank ·) (c :: w) :=
          ⟨by simp, List.forall_mem_cons.2 ⟨by simp [hc], hw.2⟩⟩
        exact ⟨_, .cons (List.forall_mem_nil _) hlonger hrest h⟩
      | cons d gap => exact absurd (by simpa using (List.forall_mem_cons.1 hg).1) hcs

theorem spaced_words (cs : List Char) : Spaced (words cs) cs := by
  obtain ⟨ws, hws⟩ : ∃ ws, Spaced ws cs := by
    induction cs with
    | nil => exact ⟨[], .nil (by simp)⟩
    | cons c cs ih =>
      obtain ⟨ws, hws⟩ := ih
      cases hc : isBlank c with
      | false => exact hws.word_cons hc
      | true => exact ⟨ws, hws.blank_cons hc⟩
  rwa [hws.words_eq]

theorem upperChar_toUpper_of_lt : ∀ n < 128,
    upperChar (Char.ofNat n).toUpper = upperChar (Char.ofNat n) := by
  decide +kernel

theorem upperChar_toUpper (c : Char) : upperChar c.toUpper = upperChar c := by
  by_cases hc : c.toNat < 128
  · have hupper := upperChar_toUpper_of_lt c.toNat hc
    rwa [Char.ofNat_toNat] at hupper
  · rw [toUpper_of_not_ascii hc]

theorem upperChars_foldCase (cs : List Char) : upperChars (foldCase cs) = upperChars cs := by
  rw [upperChars, foldCase, List.flatMap_map]
  exact List.flatMap_congr fun c _ => upperChar_toUpper c

end Text

namespace ColumnType

open Text (Spaced)

/-- Whether two names are the same words but for the case of ASCII letters, with any blanks
between, before and after the words. -/
def SameName (s t : String) : Prop :=
  ∃ ws vs, Spaced ws s.toList ∧ Spaced vs t.toList ∧ ws.map foldCase = vs.map foldCase

theorem sameName_iff {s t : String} : SameName s t ↔
    (words s.toList).map foldCase = (words t.toList).map foldCase := by
  constructor
  · rintro ⟨ws, vs, hs, ht, hcase⟩
    rwa [hs.words_eq, ht.words_eq]
  · exact fun h => ⟨_, _, Text.spaced_words _, Text.spaced_words _, h⟩

instance (s t : String) : Decidable (SameName s t) := decidable_of_iff _ sameName_iff.symm

theorem map_upperChars_congr (h : ws.map foldCase = vs.map foldCase) :
    ws.map upperChars = vs.map upperChars := by
  have hupper := congrArg (List.map upperChars) h
  simpa only [List.map_map, Function.comp_def, Text.upperChars_foldCase] using hupper

theorem normalize_congr {s t : String} (h : SameName s t) : normalize s = normalize t := by
  rw [← String.toList_inj, toList_normalize, toList_normalize,
    map_upperChars_congr (sameName_iff.1 h)]

/-- A type is found again by its own name, and by every name that has the same words as one it was
found by. -/
theorem ofName_canonical : (∀ s, ofName (ofName s).name = ofName s) ∧
    ∀ s t, SameName s t → ofName s = ofName t :=
  ⟨ofName_name_ofName, fun _ _ h => by rw [ofName, ofName, normalize_congr h]⟩

theorem ofName_canonical_geography :
    SameName "\u00a0Geo\u2003 graphY\tstraße\n" "gEO GRAPHy STRAße" ∧
      ofName "\u00a0Geo\u2003 graphY\tstraße\n" = ofName "gEO GRAPHy STRAße" := by
  have hsame : SameName "\u00a0Geo\u2003 graphY\tstraße\n" "gEO GRAPHy STRAße" := by decide +kernel
  exact ⟨hsame, ofName_canonical.2 _ _ hsame⟩

end ColumnType

end SqlTables
