import SqlTables.Proofs.RoundTrip.Spelling
import SqlTables.Proofs.Schema.ColumnType

/-! Words in upper case. A word that is ASCII in upper case is a word there too, and a type that is
known by no name stands for itself. -/

namespace SqlTables

open Scan (Head Scans beginsWord continuesWord head?)
open Text (CaseRun IsRun caseExpansions caseRuns isBlank upperCase upperChar upperChars upperCodes
  words)

variable {c d : Char} {s : String} {rest : List Char}

theorem isBareWord_of_head? {t : Head} (ht : head? c rest = some t) (hs : t.kind = .word s) :
    isBareWord s = true := by
  unfold head? at ht
  split at ht
  · obtain ⟨⟨inside, after⟩, -, rfl⟩ := Option.map_eq_some_iff.1 ht
    dsimp only at hs
    split_ifs at hs
  split at ht
  · cases ht
    cases hs
  split_ifs at ht with hc
  · cases ht
    cases hs
    simp [isBareWord, hc]
  · cases ht
    cases hs
  · cases ht
    unfold Scan.punctuation at hs
    split at hs <;> cases hs

theorem Scan.Scans.bareWords {p p' : Text.Position} {as cs : List Char} {ts : List Token}
    (h : Scans p as ts p' cs) : ∀ t ∈ ts, ∀ s, t.kind = .word s → isBareWord s = true := by
  induction h with
  | done => simp
  | token _ _ ht _ ih => exact List.forall_mem_cons.2 ⟨fun s => isBareWord_of_head? ht, ih⟩

theorem isBareWord_iff :
    isBareWord s = true ↔ (∀ d ∈ s.toList.head?, beginsWord d = true) ∧ s.toList ≠ [] ∧
      ∀ d ∈ s.toList, continuesWord d = true := by
  unfold isBareWord
  cases s.toList with
  | nil => simp
  | cons c rest =>
    rw [Bool.and_eq_true, List.all_eq_true, List.forall_mem_cons]
    constructor
    · rintro ⟨hc, hrest⟩
      exact ⟨by simpa using hc, by simp, by simp [continuesWord, hc], hrest⟩
    · rintro ⟨hc, -, -, hrest⟩
      exact ⟨by simpa using hc, hrest⟩

theorem blanks_end_words : Text.blankRanges.all (fun b =>
    (List.range' b.1 (b.2 - b.1 + 1)).all fun n => !continuesWord (Char.ofNat n)) = true := by
  decide +kernel

theorem isBlank_of_continuesWord (h : continuesWord c = true) : isBlank c = false := by
  rw [Bool.eq_false_iff]
  intro hblank
  obtain ⟨b, hb, hlo, hhi⟩ := Text.Ranges.exists_of_contains hblank
  have hrange : c.toNat ∈ List.range' b.1 (b.2 - b.1 + 1) := by
    rw [List.mem_range'_1]
    omega
  have hends := List.all_eq_true.1 (List.all_eq_true.1 blanks_end_words b hb) _ hrange
  rw [Char.ofNat_toNat, h] at hends
  exact absurd hends (by simp)

theorem word_toUpper : ∀ n < 128,
    (beginsWord (Char.ofNat n) = true → beginsWord (Char.ofNat n).toUpper = true) ∧
      (continuesWord (Char.ofNat n) = true → continuesWord (Char.ofNat n).toUpper = true) := by
  decide +kernel

theorem beginsWord_of_upper : ∀ n < 128, 65 ≤ n → n ≤ 90 → beginsWord (Char.ofNat n) = true := by
  decide +kernel

def upperIfAscii (n : Nat) : Bool := Nat.ble 128 n || (Nat.ble 65 n && Nat.ble n 90)

theorem upperIfAscii_iff {n : Nat} :
    upperIfAscii n = true ↔ 128 ≤ n ∨ (65 ≤ n ∧ n ≤ 90) := by
  simp [upperIfAscii]

theorem upperIfAscii_caseExpansions :
    caseExpansions.all (fun e => e.2.all fun n => upperIfAscii (Char.ofNat n).toNat) = true := by
  decide +kernel

theorem upperIfAscii_caseRuns : caseRuns.all (fun r => Nat.blt r.last 128 ||
    Nat.ble 128 (r.apply r.first) || (Nat.beq r.first r.last && upperIfAscii (r.apply r.first))) =
      true := by
  decide +kernel

theorem upperIfAscii_apply {r : CaseRun} {n : Nat} (hr : r ∈ caseRuns) (hn : r.covers n = true)
    (hascii : ¬n < 128) : upperIfAscii (Char.ofNat (r.apply n)).toNat = true := by
  have hscalar := List.all_eq_true.1 Text.avoids_caseRuns r hr
  rw [Bool.and_eq_true, Bool.and_eq_true] at hscalar
  rw [Text.toNat_ofNat (CaseRun.isValidChar_apply hscalar.1.2 hn)]
  have hbounds := CaseRun.le_apply hn
  have hrange := CaseRun.covers_iff.1 hn
  have hrun := List.all_eq_true.1 upperIfAscii_caseRuns r hr
  simp only [Bool.or_eq_true, Bool.and_eq_true, Nat.blt_eq, Nat.ble_eq, Nat.beq_eq] at hrun
  rcases hrun with (hlow | hhigh) | ⟨hone, hletter⟩
  · omega
  · exact upperIfAscii_iff.2 (.inl (by omega))
  · obtain rfl : n = r.first := by omega
    exact hletter

theorem upperIfAscii_of_mem_upperChar (hc : ¬c.toNat < 128) (hd : d ∈ upperChar c) :
    upperIfAscii d.toNat = true := by
  rw [upperChar, if_neg hc, List.mem_map] at hd
  obtain ⟨code, hcode, rfl⟩ := hd
  unfold upperCodes at hcode
  split at hcode
  · rename_i codes hlookup
    have hmem := Text.mem_of_lookup_caseExpansions hlookup
    exact List.all_eq_true.1 (List.all_eq_true.1 upperIfAscii_caseExpansions _ hmem) code hcode
  · split at hcode
    · rename_i run hrun
      rw [List.mem_singleton.1 hcode]
      exact upperIfAscii_apply (List.mem_of_find?_eq_some hrun)
        (by simpa using List.find?_some hrun) hc
    · rw [List.mem_singleton.1 hcode, Char.ofNat_toNat]
      exact upperIfAscii_iff.2 (.inl (Nat.le_of_not_lt hc))

theorem word_of_mem_upperChar (hd : d ∈ upperChar c) (ha : d.toNat < 128) :
    (beginsWord c = true → beginsWord d = true) ∧
      (continuesWord c = true → continuesWord d = true) := by
  by_cases hc : c.toNat < 128
  · have hword := word_toUpper c.toNat hc
    rw [Char.ofNat_toNat] at hword
    rw [upperChar, if_pos hc, List.mem_singleton] at hd
    rwa [hd]
  · have hbegins : beginsWord d = true := by
      rcases upperIfAscii_iff.1 (upperIfAscii_of_mem_upperChar hc hd) with hhigh | hletter
      · omega
      · have hbegins := beginsWord_of_upper d.toNat ha hletter.1 hletter.2
        rwa [Char.ofNat_toNat] at hbegins
    exact ⟨fun _ => hbegins, fun _ => by simp [continuesWord, hbegins]⟩

def Text.isAscii (s : String) : Bool := s.toList.all (·.toNat < 128)

theorem toList_upperCase (s : String) : (upperCase s).toList = upperChars s.toList := by
  rw [upperCase, String.toList_ofList]

theorem isBareWord_upperCase (h : isBareWord s = true)
    (ha : Text.isAscii (upperCase s) = true) : isBareWord (upperCase s) = true := by
  rw [isBareWord_iff, toList_upperCase]
  simp only [Text.isAscii, toList_upperCase, List.all_eq_true, decide_eq_true_eq] at ha
  obtain ⟨hfirst, hne, hall⟩ := isBareWord_iff.1 h
  obtain ⟨c, rest, hs⟩ := List.exists_cons_of_ne_nil hne
  obtain ⟨d, ds, hd⟩ := List.exists_cons_of_ne_nil (Text.upperChar_ne_nil c)
  rw [hs] at hfirst ha hall ⊢
  have hcons : upperChars (c :: rest) = d :: (ds ++ upperChars rest) := by
    rw [upperChars, List.flatMap_cons, hd, List.cons_append]
    rfl
  refine ⟨?_, by simp [hcons], fun e he => ?_⟩
  · rw [hcons] at ha ⊢
    have hbegins := (word_of_mem_upperChar (hd ▸ List.mem_cons_self) (ha d (by simp))).1
    simpa using hbegins (hfirst c rfl)
  · have hascii := ha e he
    obtain ⟨b, hb, heb⟩ := List.mem_flatMap.1 he
    exact (word_of_mem_upperChar heb hascii).2 (hall b hb)

theorem isRun_of_isBareWord (h : isBareWord s = true) : IsRun (!isBlank ·) s.toList := by
  obtain ⟨-, hne, hall⟩ := isBareWord_iff.1 h
  exact ⟨hne, fun c hc => by simp [isBlank_of_continuesWord (hall c hc)]⟩

theorem normalize_upperCase (h : isBareWord s = true) :
    ColumnType.normalize (upperCase s) = upperCase s ∧ upperCase (upperCase s) = upperCase s := by
  obtain ⟨hrun, hstays⟩ := isRun_upperChars (isRun_of_isBareWord h)
  have hwords : words (upperChars s.toList) = [upperChars s.toList] := by
    have hend : ∀ c ∈ ([] : List Char).head?, (!isBlank c) = false := by simp
    have hone := Text.runsOf_append hrun hend
    rwa [List.append_nil] at hone
  have hagain : upperCase (upperCase s) = upperCase s := by
    rw [← String.toList_inj, toList_upperCase, toList_upperCase, hstays]
  refine ⟨?_, hagain⟩
  rw [← String.toList_inj, ColumnType.toList_normalize, toList_upperCase, hwords]
  simp [hstays]

theorem ofName_upperCase_cases (h : isBareWord s = true) :
    (ColumnType.ofName (upperCase s)).isCustom = false ∨
      ColumnType.ofName (upperCase s) = .custom (upperCase s) := by
  rw [ColumnType.ofName, (normalize_upperCase h).1]
  cases hlookup : ColumnType.spellings.lookup (upperCase s) with
  | none => exact .inr rfl
  | some type =>
    obtain ⟨before, after, hsplit, -⟩ := List.lookup_eq_some_iff.1 hlookup
    exact .inl (isCustom_of_mem_spellings (upperCase s, type) (by simp [hsplit]))

end SqlTables
