import Mathlib.Data.List.TakeWhile
import SqlTables.Token.Scan

/-! Scanning as a relation. A text scans into tokens one after the other, each taken from all of the
text that is left, so scans of consecutive parts compose. -/

namespace SqlTables

namespace Text

def bytes : List Char → Nat
  | [] => 0
  | c :: cs => c.utf8Size + bytes cs

@[simp] theorem bytes_nil : bytes [] = 0 := rfl

@[simp] theorem bytes_cons (c : Char) (cs : List Char) :
    bytes (c :: cs) = c.utf8Size + bytes cs := rfl

@[simp] theorem bytes_append (as bs : List Char) : bytes (as ++ bs) = bytes as + bytes bs := by
  induction as with
  | nil => simp
  | cons a as ih => rw [List.cons_append, bytes_cons, bytes_cons, ih, Nat.add_assoc]

theorem utf8ByteSize_ofList (cs : List Char) : (String.ofList cs).utf8ByteSize = bytes cs := by
  induction cs with
  | nil => rfl
  | cons c cs ih =>
    rw [String.ofList_cons, String.utf8ByteSize_append, String.utf8ByteSize_singleton, ih,
      bytes_cons]

theorem bytes_toList (s : String) : bytes s.toList = s.utf8ByteSize := by
  rw [← utf8ByteSize_ofList, String.ofList_toList]

theorem eq_of_append_of_bytes {as bs cs ds : List Char} (h : as ++ cs = bs ++ ds)
    (hb : bytes as = bytes bs) : as = bs := by
  induction as generalizing bs with
  | nil =>
    cases bs with
    | nil => rfl
    | cons b bs =>
      have hpos := b.utf8Size_pos
      rw [bytes_nil, bytes_cons] at hb
      omega
  | cons a as ih =>
    cases bs with
    | nil =>
      have hpos := a.utf8Size_pos
      rw [bytes_nil, bytes_cons] at hb
      omega
    | cons b bs =>
      rw [List.cons_append, List.cons_append, List.cons.injEq] at h
      obtain ⟨rfl, h⟩ := h
      rw [bytes_cons, bytes_cons] at hb
      rw [ih h (by omega)]

namespace Position

theorem advance_append (p : Position) (as bs : List Char) :
    p.advance (as ++ bs) = (p.advance as).advance bs :=
  List.foldl_append

@[simp] theorem offset_advance (p : Position) (cs : List Char) :
    (p.advance cs).offset = p.offset + bytes cs := by
  induction cs generalizing p with
  | nil => rfl
  | cons c cs ih =>
    have hstep : (p.step c).offset = p.offset + c.utf8Size := by
      unfold step
      split <;> rfl
    rw [advance, List.foldl_cons, ← advance, ih, hstep, bytes_cons, Nat.add_assoc]

end Position

end Text

namespace Scan

open Text (Position)

def Gap (cs : List Char) : Prop := ∀ c ∈ cs, isGap c = true

instance (cs : List Char) : Decidable (Gap cs) :=
  decidable_of_iff (cs.all isGap = true) List.all_eq_true

/-- From a place in a text, its tokens lead to a later place and what is left there. -/
inductive Scans : Position → List Char → List Token → Position → List Char → Prop where
  | done (p : Position) (cs : List Char) : Scans p cs [] p cs
  | token {p p' : Position} {gap rest cs : List Char} {c : Char} {t : Head} {ts : List Token}
      (hgap : Gap gap) (hc : isGap c = false) (ht : head? c rest = some t)
      (hts : Scans ((p.advance gap).advance t.lexeme) t.rest ts p' cs) :
      Scans p (gap ++ c :: rest)
        (⟨String.ofList gap, t.kind, String.ofList t.lexeme, p.advance gap⟩ :: ts) p' cs

variable {p p' p'' : Position} {as bs cs : List Char} {ts us : List Token}

theorem Scans.append (first : Scans p as ts p' bs) (last : Scans p' bs us p'' cs) :
    Scans p as (ts ++ us) p'' cs := by
  induction first with
  | done => exact last
  | token hgap hc ht _ ih => exact .token hgap hc ht (ih last)

theorem Scans.eq_of_nil (h : Scans p as [] p' cs) : as = cs ∧ p = p' := by
  cases h
  exact ⟨rfl, rfl⟩

theorem Scans.ne_nil {t : Token} (h : Scans p as (t :: ts) p' cs) : as ≠ [] := by
  cases h
  simp

theorem stop_token (p : Position) (gap : List Char) (t : Head) :
    Token.stop ⟨String.ofList gap, t.kind, String.ofList t.lexeme, p.advance gap⟩ =
      ((p.advance gap).advance t.lexeme).offset := by
  rw [Position.offset_advance, Token.stop, Text.utf8ByteSize_ofList]

theorem takeWhile_append_of_gap {gap : List Char} (hgap : Gap gap) {c : Char}
    (hc : isGap c = false) (rest : List Char) :
    (gap ++ c :: rest).takeWhile isGap = gap ∧ (gap ++ c :: rest).dropWhile isGap = c :: rest := by
  rw [List.takeWhile_append_of_pos hgap, List.dropWhile_append_of_pos hgap,
    List.takeWhile_cons_of_neg (by simp [hc]), List.dropWhile_cons_of_neg (by simp [hc])]
  simp

theorem scanFrom_of_gap {gap : List Char} (hgap : Gap gap) (p : Position) :
    scanFrom p gap = ⟨[], none, String.ofList gap⟩ := by
  have hdrop : gap.dropWhile isGap = [] := List.dropWhile_eq_nil_iff.2 hgap
  rw [scanFrom]
  split
  · rw [List.takeWhile_eq_self_iff.2 hgap]
  · rename_i h
    rw [hdrop] at h
    simp at h

theorem scanFrom_token {gap rest : List Char} (hgap : Gap gap) {c : Char} (hc : isGap c = false)
    {t : Head} (ht : head? c rest = some t) (p : Position) :
    scanFrom p (gap ++ c :: rest) =
      let others := scanFrom ((p.advance gap).advance t.lexeme) t.rest
      ⟨⟨String.ofList gap, t.kind, String.ofList t.lexeme, p.advance gap⟩ :: others.tokens,
        others.unterminated, others.gap⟩ := by
  obtain ⟨htake, hdrop⟩ := takeWhile_append_of_gap hgap hc rest
  rw [scanFrom]
  split
  · rename_i h
    rw [hdrop] at h
    simp at h
  · rename_i c' rest' h
    rw [hdrop, List.cons.injEq] at h
    obtain ⟨rfl, rfl⟩ := h
    split
    · rename_i hn
      rw [ht] at hn
      simp at hn
    · rename_i t' ht'
      rw [ht, Option.some.injEq] at ht'
      subst ht'
      rw [htake]

theorem Scans.scanFrom_eq (h : Scans p as ts p' cs) (hgap : Gap cs) :
    scanFrom p as = ⟨ts, none, String.ofList cs⟩ := by
  induction h with
  | done p cs => exact scanFrom_of_gap hgap p
  | token hg hc ht _ ih => rw [scanFrom_token hg hc ht, ih hgap]

theorem isGap_of_dropWhile {rest : List Char} {c : Char} (h : as.dropWhile isGap = c :: rest) :
    isGap c = false := by
  have hhead := List.head?_dropWhile_not isGap as
  rw [h] at hhead
  simpa using hhead

theorem scans_of_unterminated_eq_none (h : (scanFrom p as).unterminated = none) :
    ∃ p' cs, Gap cs ∧ Scans p as (scanFrom p as).tokens p' cs ∧
      (scanFrom p as).gap = String.ofList cs := by
  have hgap (cs : List Char) : Gap (cs.takeWhile isGap) := fun _ => List.mem_takeWhile_imp
  fun_induction scanFrom p as with
  | case1 p as gap hdrop =>
    have hgap' : gap = as := List.takeWhile_eq_self_iff.2 (List.dropWhile_eq_nil_iff.1 hdrop)
    exact ⟨p, as, hgap' ▸ hgap as, .done p as, congrArg String.ofList hgap'⟩
  | case2 => simp at h
  | case3 p as gap start c rest hdrop t ht token others ih =>
    obtain ⟨p', cs, hcs, hs, hg⟩ := ih h
    have has : as = gap ++ c :: rest := by rw [← hdrop, List.takeWhile_append_dropWhile]
    have hc : isGap c = false := isGap_of_dropWhile hdrop
    refine ⟨p', cs, hcs, ?_, hg⟩
    rw [has]
    exact .token (hgap as) hc ht hs

theorem scans_of_unterminated_eq_some {place : Position}
    (h : (scanFrom p as).unterminated = some place) :
    ∃ p' gap c rest, Gap gap ∧ isGap c = false ∧ head? c rest = none ∧
      Scans p as (scanFrom p as).tokens p' (gap ++ c :: rest) ∧ place = p'.advance gap := by
  have hgap (cs : List Char) : Gap (cs.takeWhile isGap) := fun _ => List.mem_takeWhile_imp
  fun_induction scanFrom p as with
  | case1 => simp at h
  | case2 p as gap start c rest hdrop ht =>
    have has : as = gap ++ c :: rest := by rw [← hdrop, List.takeWhile_append_dropWhile]
    refine ⟨p, gap, c, rest, hgap as, isGap_of_dropWhile hdrop, ht, ?_, (Option.some.inj h).symm⟩
    rw [← has]
    exact .done p as
  | case3 p as gap start c rest hdrop t ht token others ih =>
    obtain ⟨p', gap', c', rest', hgap', hc', ht', hs, hplace⟩ := ih h
    have has : as = gap ++ c :: rest := by rw [← hdrop, List.takeWhile_append_dropWhile]
    refine ⟨p', gap', c', rest', hgap', hc', ht', ?_, hplace⟩
    rw [has]
    exact .token (hgap as) (isGap_of_dropWhile hdrop) ht hs

end Scan

open Scan

theorem Token.tokenize_of_unterminated_eq_some {text : String} {p : Text.Position}
    (h : (Scan.ofText text).unterminated = some p) :
    tokenize text = .error (.unterminatedLiteral p.line p.column) := by
  rw [tokenize]
  simp only [h]

theorem Token.tokenize_eq_ok_iff {text : String} {ts : List Token} :
    tokenize text = .ok ts ↔ ∃ us p' cs, Gap cs ∧ Scans .start text.toList us p' cs ∧
      ts = us ++ [⟨String.ofList cs, .eof, "", endPosition text⟩] := by
  unfold tokenize Scan.ofText
  constructor
  · intro h
    cases hu : (scanFrom .start text.toList).unterminated with
    | some p => simp [hu] at h
    | none =>
      obtain ⟨p', cs, hcs, hs, hg⟩ := scans_of_unterminated_eq_none hu
      simp only [hu, Except.ok.injEq] at h
      exact ⟨_, p', cs, hcs, hs, by rw [← h, hg]⟩
  · rintro ⟨us, p', cs, hcs, hs, rfl⟩
    rw [hs.scanFrom_eq hcs]

theorem Token.exists_scans_of_tokenize {text : String} {ts : List Token} {last : Token}
    (h : tokenize text = .ok (ts ++ [last])) :
    ∃ p cs, Gap cs ∧ Scans .start text.toList ts p cs := by
  obtain ⟨us, p, cs, hcs, hscans, hts⟩ := tokenize_eq_ok_iff.1 h
  obtain ⟨rfl, -⟩ := List.append_inj' hts rfl
  exact ⟨p, cs, hcs, hscans⟩

end SqlTables
