import Mathlib.Data.List.Basic
import SqlTables.Text.Basic
import SqlTables.Text.UpperCase

/-! Upper case is final: what a character becomes stays as it is, and is no blank. The moves of the
runs are compared as runs, since code points one by one are too many to check. -/

namespace SqlTables.Text

variable {r q : CaseRun} {n : Nat} {c d : Char}

namespace CaseRun

theorem covers_iff : r.covers n = true ↔ r.first ≤ n ∧ n ≤ r.last ∧ (n - r.first) % r.step = 0 := by
  simp [covers, and_assoc]

def alternates (r : CaseRun) : Bool := Nat.beq r.step 2 || Nat.beq r.first r.last

/-- Whether no code point of `r` moves into `q`: the places do not meet, or are even here and odd
there. -/
def avoids (r q : CaseRun) : Bool :=
  Nat.blt (r.apply r.last) q.first || Nat.blt q.last (r.apply r.first) ||
    (r.alternates && q.alternates && Nat.beq ((r.apply r.first + q.first) % 2) 1)

theorem mod_of_alternates (h : r.alternates = true) (hn : r.covers n = true) :
    n % 2 = r.first % 2 := by
  rw [covers_iff] at hn
  simp only [alternates, Bool.or_eq_true, Nat.beq_eq] at h
  rcases h with hstep | hone
  · rw [hstep] at hn
    omega
  · omega

theorem covers_apply_of_avoids (h : r.avoids q = true) (hr : 0 ≤ r.first + r.shift)
    (hn : r.covers n = true) : q.covers (r.apply n) = false := by
  rw [Bool.eq_false_iff]
  intro hq
  have hrange := covers_iff.1 hn
  have hplace := covers_iff.1 hq
  simp only [avoids, Bool.or_eq_true, Bool.and_eq_true, Nat.blt_eq, Nat.beq_eq] at h
  rcases h with (hbelow | habove) | ⟨⟨hr2, hq2⟩, hodd⟩
  · simp only [apply] at hplace hbelow
    omega
  · simp only [apply] at hplace habove
    omega
  · have hfirst := mod_of_alternates hr2 hn
    have hlast := mod_of_alternates hq2 hq
    simp only [apply] at hlast hodd hrange
    omega

def misses (r : CaseRun) (lo hi : Nat) : Bool :=
  Nat.blt (r.apply r.last) lo || Nat.blt hi (r.apply r.first)

def isScalar (r : CaseRun) : Bool :=
  Nat.blt (r.apply r.last) 0xd800 ||
    (Nat.blt 0xdfff (r.apply r.first) && Nat.blt (r.apply r.last) 0x110000)

theorem le_apply (hn : r.covers n = true) :
    r.apply r.first ≤ r.apply n ∧ r.apply n ≤ r.apply r.last := by
  rw [covers_iff] at hn
  simp only [apply]
  omega

theorem not_mem_of_misses {lo hi : Nat} (h : r.misses lo hi = true) (hn : r.covers n = true) :
    ¬(lo ≤ r.apply n ∧ r.apply n ≤ hi) := by
  have hbounds := le_apply hn
  simp only [misses, Bool.or_eq_true, Nat.blt_eq] at h
  omega

theorem isValidChar_apply (h : r.isScalar = true) (hn : r.covers n = true) :
    (r.apply n).isValidChar := by
  have hbounds := le_apply hn
  simp only [isScalar, Bool.or_eq_true, Bool.and_eq_true, Nat.blt_eq] at h
  unfold Nat.isValidChar
  omega

end CaseRun

theorem avoids_caseRuns :
    caseRuns.all (fun r =>
      decide (0 ≤ r.first + r.shift) && r.isScalar && caseRuns.all r.avoids) = true := by
  decide +kernel

theorem misses_blankRanges :
    caseRuns.all (fun r => blankRanges.all fun b => r.misses b.1 b.2) = true := by
  decide +kernel

theorem misses_caseExpansions :
    caseRuns.all (fun r => caseExpansions.all fun e => r.misses e.1 e.1) = true := by
  decide +kernel

def isFinal (n : Nat) : Bool :=
  upperChar (Char.ofNat n) == [Char.ofNat n] && !isBlank (Char.ofNat n)

theorem isFinal_of_mem_caseExpansions :
    caseExpansions.all (fun e => e.2.all isFinal) = true := by
  decide +kernel

theorem isFinal_toUpper : ∀ n < 128, isBlank (Char.ofNat n) = false →
    isFinal (Char.ofNat n).toUpper.toNat = true := by
  decide +kernel

theorem toUpper_of_not_lower : ∀ n < 128, ¬(97 ≤ n ∧ n ≤ 122) →
    (Char.ofNat n).toUpper = Char.ofNat n := by
  decide

theorem toUpper_of_not_ascii (h : ¬c.toNat < 128) : c.toUpper = c := by
  unfold Char.toUpper
  rw [dif_neg]
  rintro ⟨-, hz⟩
  rw [UInt32.le_iff_toNat_le] at hz
  exact h (Nat.lt_of_le_of_lt hz (by decide))

theorem Ranges.exists_of_contains {rs : Ranges} (h : rs.contains n = true) :
    ∃ b ∈ rs, b.1 ≤ n ∧ n ≤ b.2 := by
  induction rs with
  | nil => simp [Ranges.contains] at h
  | cons b rs ih =>
    obtain ⟨lo, hi⟩ := b
    rw [Ranges.contains] at h
    split_ifs at h with hlo
    rw [Bool.or_eq_true, decide_eq_true_eq] at h
    rcases h with hhi | hrest
    · exact ⟨(lo, hi), by simp, Nat.le_of_not_lt hlo, hhi⟩
    · obtain ⟨b, hb, hbounds⟩ := ih hrest
      exact ⟨b, List.mem_cons_of_mem _ hb, hbounds⟩

theorem isFinal_of_unmapped (hruns : ∀ q ∈ caseRuns, q.covers n = false)
    (hexpansions : ∀ e ∈ caseExpansions, e.1 ≠ n) (hn : (Char.ofNat n).toNat = n)
    (hblank : isBlank (Char.ofNat n) = false) : isFinal n = true := by
  have hupper : upperChar (Char.ofNat n) = [Char.ofNat n] := by
    rw [upperChar, hn]
    split_ifs with hascii
    · have hletters : (⟨0x61, 0x7a, 1, -32⟩ : CaseRun) ∈ caseRuns := by
        rw [caseRuns]
        exact List.mem_cons_self
      have hlower := hruns _ hletters
      rw [Bool.eq_false_iff, ne_eq, CaseRun.covers_iff] at hlower
      rw [toUpper_of_not_lower n hascii]
      intro hletter
      exact hlower ⟨hletter.1, hletter.2, Nat.mod_one _⟩
    · have hlookup : caseExpansions.lookup n = none := by
        rw [List.lookup_eq_none_iff]
        intro e he
        have hne := (hexpansions e he).symm
        simpa using hne
      have hfind : caseRuns.find? (·.covers n) = none := by
        rw [List.find?_eq_none]
        intro q hq
        simp [hruns q hq]
      rw [upperCodes, hlookup, hfind]
      rfl
  rw [isFinal, hupper, hblank]
  simp

theorem toNat_ofNat (h : n.isValidChar) : (Char.ofNat n).toNat = n := by
  rw [Char.ofNat, dif_pos h]
  rfl

theorem isFinal_apply (hr : r ∈ caseRuns) (hn : r.covers n = true) :
    isFinal (r.apply n) = true := by
  have havoids := List.all_eq_true.1 avoids_caseRuns r hr
  rw [Bool.and_eq_true, Bool.and_eq_true, decide_eq_true_eq] at havoids
  obtain ⟨⟨hpositive, hscalar⟩, hall⟩ := havoids
  have hvalid : (r.apply n).isValidChar := CaseRun.isValidChar_apply hscalar hn
  have htoNat := toNat_ofNat hvalid
  apply isFinal_of_unmapped _ _ htoNat
  · rw [Bool.eq_false_iff]
    intro hblank
    rw [isBlank, Ranges.containsChar, htoNat] at hblank
    obtain ⟨b, hb, hbounds⟩ := Ranges.exists_of_contains hblank
    have hmisses := List.all_eq_true.1 (List.all_eq_true.1 misses_blankRanges r hr) b hb
    exact CaseRun.not_mem_of_misses hmisses hn hbounds
  · intro q hq
    exact CaseRun.covers_apply_of_avoids (List.all_eq_true.1 hall q hq) hpositive hn
  · intro e he heq
    have hmisses := List.all_eq_true.1 (List.all_eq_true.1 misses_caseExpansions r hr) e he
    exact CaseRun.not_mem_of_misses hmisses hn ⟨Nat.le_of_eq heq, Nat.le_of_eq heq.symm⟩

theorem eq_of_isFinal (h : isFinal n = true) :
    upperChar (Char.ofNat n) = [Char.ofNat n] ∧ isBlank (Char.ofNat n) = false := by
  simpa [isFinal] using h

theorem mem_of_lookup_caseExpansions {codes : List Nat}
    (h : caseExpansions.lookup n = some codes) : (n, codes) ∈ caseExpansions := by
  obtain ⟨before, after, hsplit, -⟩ := List.lookup_eq_some_iff.1 h
  simp [hsplit]

theorem ne_nil_of_mem_caseExpansions : ∀ e ∈ caseExpansions, e.2 ≠ [] := by decide +kernel

theorem upperChar_ne_nil (c : Char) : upperChar c ≠ [] := by
  unfold upperChar
  split_ifs
  · simp
  · rw [ne_eq, List.map_eq_nil_iff]
    unfold upperCodes
    split
    · exact ne_nil_of_mem_caseExpansions _ (mem_of_lookup_caseExpansions ‹_›)
    · split <;> simp

theorem upperChar_of_mem_upperChar (hc : isBlank c = false) (hd : d ∈ upperChar c) :
    upperChar d = [d] ∧ isBlank d = false := by
  by_cases hascii : c.toNat < 128
  · rw [upperChar, if_pos hascii, List.mem_singleton] at hd
    have hfinal := isFinal_toUpper c.toNat hascii (by rwa [Char.ofNat_toNat])
    rw [Char.ofNat_toNat, ← hd] at hfinal
    have h := eq_of_isFinal hfinal
    rwa [Char.ofNat_toNat] at h
  · have hupper : upperChar c = (upperCodes c.toNat).map Char.ofNat := by
      rw [upperChar, if_neg hascii]
    rw [hupper, List.mem_map] at hd
    obtain ⟨code, hcode, rfl⟩ := hd
    unfold upperCodes at hcode
    split at hcode <;> rename_i hlookup
    · rename_i codes
      have hmem := mem_of_lookup_caseExpansions hlookup
      have hall := List.all_eq_true.1 isFinal_of_mem_caseExpansions _ hmem
      exact eq_of_isFinal (List.all_eq_true.1 hall code hcode)
    · split at hcode
      · rename_i run hrun
        rw [List.mem_singleton] at hcode
        subst hcode
        exact eq_of_isFinal (isFinal_apply (List.mem_of_find?_eq_some hrun)
          (by simpa using List.find?_some hrun))
      · rename_i hruns
        rw [List.mem_singleton] at hcode
        subst hcode
        rw [Char.ofNat_toNat, hupper, upperCodes, hlookup, hruns]
        exact ⟨by simp, hc⟩

end SqlTables.Text
