import SqlTables.Proofs.Items.Shape
import SqlTables.Proofs.Script.Terminator
import SqlTables.Proofs.Source.Statements
import SqlTables.Proofs.Text.Casing
import SqlTables.Proofs.Token.Kinds
import SqlTables.Proofs.TypeText.Reading

/-! The words that open a definition. A script is searched for them by characters, and a definition
is read by its tokens. What is read is found: a name follows `TABLE`, and what stands between these
words, or begins a quoted name, goes on with no word. -/

namespace SqlTables

open Declaration
open Scan (Gap Scans beginsWord continuesWord head? isGap)
open Source (isQuote isTableDefinition isWordChar)
open Text (IsRun Position foldCase runsOf)

variable {c : Char} {cs as bs gap : List Char} {t : Token} {ts rest : List Token} {w : String}
  {ws : List String} {p q : Position}

namespace Source

def EndsWord (cs : List Char) : Prop := ∀ c ∈ cs.head?, isWordChar c = false

theorem isWordChar_of_lt : ∀ n < 128, (Char.ofNat n).toUpper.isUpper = true →
    isWordChar (Char.ofNat n) = true := by
  decide +kernel

theorem isWordChar_of_toUpper (h : c.toUpper.isUpper = true) : isWordChar c = true := by
  have hascii : c.toNat < 128 := by
    by_contra hc
    rw [Text.toUpper_of_not_ascii hc] at h
    have hle : c.val ≤ 'Z'.val := (of_decide_eq_true h).2
    exact hc (Nat.lt_of_le_of_lt (UInt32.le_iff_toNat_le.1 hle) (by decide))
  have hword := isWordChar_of_lt c.toNat hascii
  rw [Char.ofNat_toNat] at hword
  exact hword h

theorem isRun_of_foldCase (hw : (foldCase w.toList).all Char.isUpper = true) (hne : cs ≠ [])
    (h : foldCase cs = foldCase w.toList) : IsRun isWordChar cs := by
  refine ⟨hne, fun c hc => isWordChar_of_toUpper ?_⟩
  exact List.all_eq_true.1 hw _ (h ▸ List.mem_map_of_mem hc)

theorem isWordChar_of_isGap (h : isGap c = true) : isWordChar c = false := by
  simpa using Scan.of_isGap (p := (!isWordChar ·)) (by decide) h

theorem isBlank_of_isGap (h : isGap c = true) : Text.isBlank c = true :=
  Scan.of_isGap (by decide) h

theorem not_blank_of_trim_eq (h : Text.trim (c :: cs) = c :: cs) : Text.isBlank c = false := by
  by_contra hc
  rw [Bool.not_eq_false] at hc
  have hstart : Text.trimStart (c :: cs) = Text.trimStart cs := List.dropWhile_cons_of_pos hc
  have hkept := (trimEnd_prefix_self (Text.trimStart cs)).length_le
  have hrest : (Text.trimStart cs).length ≤ cs.length := (List.dropWhile_suffix _).length_le
  rw [← hstart, ← Text.trim, h, List.length_cons, hstart] at hkept
  omega

theorem isWordChar_of_isQuote (h : isQuote c = true) : isWordChar c = false := by
  rcases isQuote_iff.1 h with rfl | rfl | rfl <;> decide

theorem endsWord_gap_append (hgap : Gap gap) (hne : gap ≠ []) (cs : List Char) :
    EndsWord (gap ++ cs) := by
  obtain ⟨d, gap, rfl⟩ := List.exists_cons_of_ne_nil hne
  intro c hc
  obtain rfl : d = c := by simpa using hc
  exact isWordChar_of_isGap (hgap d List.mem_cons_self)

theorem runsOf_gap_append (hgap : Gap gap) (cs : List Char) :
    runsOf isWordChar (gap ++ cs) = runsOf isWordChar cs := by
  induction gap with
  | nil => rfl
  | cons c gap ih =>
    rw [Gap, List.forall_mem_cons] at hgap
    rw [List.cons_append, Text.runsOf_cons_of_false (isWordChar_of_isGap hgap.1), ih hgap.2]

end Source

namespace Scan

theorem Scans.exists_keyword (h : Scans p as (t :: ts) q cs) (hw : t.isKeyword w = true) :
    ∃ gap c tail p', as = gap ++ c :: tail ∧ Gap gap ∧ continuesWord c = true ∧
      foldCase (c :: tail.takeWhile continuesWord) = foldCase w.toList ∧
      Scans p' (tail.dropWhile continuesWord) ts q cs := by
  cases h with
  | @token _ _ gap tail _ c head _ hgap hc ht hts =>
    cases hk : head.kind with
    | word text =>
      have htext := eq_of_head?_word ht hk
      have hbegins : beginsWord c = true := by
        have hbare := isBareWord_of_head? ht hk
        rw [htext, isBareWord_iff, String.toList_ofList] at hbare
        simpa using hbare.1
      rw [head?_of_beginsWord hbegins, Option.some.injEq] at ht
      subst ht
      refine ⟨gap, c, tail, _, rfl, hgap, by simp [continuesWord, hbegins], ?_, hts⟩
      simpa [Token.isKeyword, Text.sameKeyword] using hw
    | _ => simp [Token.isKeyword, hk] at hw

theorem Scans.exists_words (h : Scans p as ts q bs)
    (hts : List.Forall₂ (fun t w => t.isKeyword w = true) ts ws)
    (hws : ∀ w ∈ ws, (foldCase w.toList).all Char.isUpper = true)
    (has : ∀ c ∈ as.head?, continuesWord c = false)
    (hbs : (∀ c ∈ bs.head?, continuesWord c = false) → Source.EndsWord bs) :
    Source.EndsWord as ∧ ∃ words, runsOf isWordChar as = words ++ runsOf isWordChar bs ∧
      words.map foldCase = ws.map fun w => foldCase w.toList := by
  induction hts generalizing p as with
  | nil =>
    cases h
    exact ⟨hbs has, [], rfl, rfl⟩
  | @cons t w ts ws hw _ ih =>
    rw [List.forall_mem_cons] at hws
    obtain ⟨gap, c, tail, p', rfl, hgap, hc, hfold, hrest⟩ := h.exists_keyword hw
    have hne : gap ≠ [] := by
      rintro rfl
      have hfirst := has c rfl
      rw [hc] at hfirst
      exact absurd hfirst (by simp)
    obtain ⟨hend, words, hwords, hfolds⟩ := ih hrest hws.2 fun d hd => by
      have hhead := List.head?_dropWhile_not continuesWord tail
      rw [hd] at hhead
      simpa using hhead
    have hrun := Source.isRun_of_foldCase hws.1 (List.cons_ne_nil _ _) hfold
    refine ⟨Source.endsWord_gap_append hgap hne _, (c :: tail.takeWhile continuesWord) :: words,
      ?_, by rw [List.map_cons, List.map_cons, hfold, hfolds]⟩
    have hsplit : c :: tail =
        (c :: tail.takeWhile continuesWord) ++ tail.dropWhile continuesWord := by
      rw [List.cons_append, List.takeWhile_append_dropWhile]
    rw [Source.runsOf_gap_append hgap, hsplit, Text.runsOf_append hrun hend, hwords,
      List.cons_append]

theorem Scans.endsWord (h : Scans p as (t :: ts) q bs) (hname : t.name?.isSome = true)
    (has : ∀ c ∈ as.head?, continuesWord c = false) : Source.EndsWord as := by
  cases h with
  | @token _ _ gap tail _ c head _ hgap hc ht hts =>
    cases gap with
    | cons d gap => exact Source.endsWord_gap_append hgap (List.cons_ne_nil _ _) _
    | nil =>
      intro d hd
      obtain rfl : c = d := by simpa using hd
      have hc' := has c rfl
      by_cases hquote : isQuote c = true
      · exact Source.isWordChar_of_isQuote hquote
      · -- a name without a quote is a word, and the character would go on with the one before
        have hplain := (head?_of_not_quote (by simpa using hquote) ht).1
        cases hk : head.kind with
        | word text =>
          have hbare := isBareWord_of_head? ht hk
          rw [eq_of_head?_word ht hk, isBareWord_iff, String.toList_ofList] at hbare
          rw [hbare.2.2 c List.mem_cons_self] at hc'
          exact absurd hc' (by simp)
        | quotedName name => simp [TokenKind.isLiteral, hk] at hplain
        | _ => simp [Token.name?, hk] at hname

end Scan

namespace Declaration

theorem exists_of_keywords? (h : keywords? ws ts = some rest) : ∃ read, ts = read ++ rest ∧
    List.Forall₂ (fun t w => t.isKeyword w = true) read ws := by
  induction ws generalizing ts with
  | nil =>
    cases h
    exact ⟨[], rfl, .nil⟩
  | cons w ws ih =>
    obtain ⟨others, hw, hws⟩ := Option.bind_eq_some_iff.1 h
    cases ts with
    | nil => simp [keyword?] at hw
    | cons t ts =>
      obtain ⟨ht, rfl⟩ := Draft.keyword?_cons_eq_some_iff.1 hw
      obtain ⟨read, rfl, hread⟩ := ih hws
      exact ⟨t :: read, rfl, .cons ht hread⟩

end Declaration

namespace Draft

def openings : List (List String) :=
  [["CREATE", "TABLE"], ["CREATE", "TEMPORARY", "TABLE"], ["CREATE", "TEMP", "TABLE"]]

def Opens (ts : List Token) : Prop := ∃ ws ∈ openings, (keywords? ws ts).isSome = true

theorem afterCreateTable?_of_keywords? (hws : ws ∈ openings) (h : keywords? ws ts = some rest) :
    afterCreateTable? ts = some rest := by
  obtain ⟨read, rfl, hread⟩ := exists_of_keywords? h
  have hcreate {t : Token} {us : List Token} (ht : t.isKeyword "CREATE" = true)
      (hus : keyword? "TABLE" (skipOneOf [["TEMPORARY"], ["TEMP"]] us) = some rest) :
      afterCreateTable? (t :: us) = some rest := by
    rw [afterCreateTable?, if_neg (ne_eof_of_isKeyword ht), if_pos ht, hus]
  simp only [openings, List.mem_cons, List.not_mem_nil, or_false] at hws
  rcases hws with rfl | rfl | rfl
  · obtain _ | @⟨t, _, _, _, ht, _ | @⟨u, _, _, _, hu, _ | _⟩⟩ := hread
    refine hcreate ht ?_
    have hplain {w : String} (hne : foldCase "TABLE".toList ≠ foldCase w.toList) :
        ¬u.isKeyword w = true := fun hw => hne (Token.foldCase_eq_of_isKeyword hu hw)
    change keyword? "TABLE" (skipOneOf _ (u :: rest)) = _
    rw [table?_cons,
      if_neg (not_or_intro (hplain (by decide)) (hplain (by decide)))]
    exact keyword?_cons_eq_some_iff.2 ⟨hu, rfl⟩
  all_goals
    obtain _ | @⟨t, _, _, _, ht, _ | @⟨u, _, _, _, hu, _ | @⟨v, _, _, _, hv, _ | _⟩⟩⟩ := hread
    refine hcreate ht ?_
    change keyword? "TABLE" (skipOneOf _ (u :: v :: rest)) = _
    rw [table?_cons, if_pos (by simp [hu])]
    exact keyword?_cons_eq_some_iff.2 ⟨hv, rfl⟩

theorem exists_name_of_readAfter {d : Draft} (h : readAfter ts = .ok d) :
    ∃ t us, ts = t :: us ∧ t.name?.isSome = true := by
  cases ts with
  | nil => exact absurd h (by simp [readAfter, headerAfter?, skipOneOf, keywords?, keyword?,
      qualifiedName?])
  | cons t ts =>
    refine ⟨t, ts, rfl, ?_⟩
    by_contra hname
    rw [Bool.not_eq_true, Option.isSome_eq_false_iff, Option.isNone_iff_eq_none] at hname
    have hif : t.isKeyword "IF" = false := by
      cases hk : t.kind with
      | word text => simp [Token.name?, hk] at hname
      | _ => simp [Token.isKeyword, hk]
    have hnone : qualifiedName? (t :: ts) = none := by
      cases ts <;> simp [qualifiedName?, hname]
    exact absurd h (by simp [readAfter, headerAfter?, skipOneOf, keywords?, keyword?, hif, hnone])

end Draft

namespace Source

variable {w : List Char}

theorem takeWhile_run_append (hw : IsRun isWordChar w) (h : EndsWord cs) :
    (w ++ cs).takeWhile isWordChar = w := by
  cases cs with
  | nil => rw [List.append_nil, List.takeWhile_eq_self_iff.2 hw.2]
  | cons c cs =>
    rw [List.takeWhile_append_of_pos hw.2, List.takeWhile_cons_of_neg (by simp [h c rfl]),
      List.append_nil]

theorem dropWhile_run_append (hw : IsRun isWordChar w) (h : EndsWord cs) :
    (w ++ cs).dropWhile isWordChar = cs := by
  have hall := List.takeWhile_append_dropWhile (p := isWordChar) (l := w ++ cs)
  rw [takeWhile_run_append hw h] at hall
  exact List.append_cancel_left hall

theorem isTableDefinition_of_scans (h : Scans p as ts q bs) (hws : ws ∈ Draft.openings)
    (hts : List.Forall₂ (fun t w => t.isKeyword w = true) ts ws)
    (hfirst : ∀ c ∈ as.head?, isGap c = false)
    (hbs : (∀ c ∈ bs.head?, continuesWord c = false) → EndsWord bs) :
    isTableDefinition as = true := by
  have hupper : ∀ ws ∈ Draft.openings, ∀ w ∈ ws, (foldCase w.toList).all Char.isUpper = true := by
    decide
  obtain ⟨ws, rfl⟩ : ∃ vs, ws = "CREATE" :: vs := by
    simp only [Draft.openings, List.mem_cons, List.not_mem_nil, or_false] at hws
    rcases hws with rfl | rfl | rfl <;> exact ⟨_, rfl⟩
  obtain _ | @⟨t, _, ts, _, ht, hts⟩ := hts
  obtain ⟨gap, c, tail, p', rfl, hgap, hc, hfold, hrest⟩ := h.exists_keyword ht
  obtain rfl : gap = [] := by
    cases gap with
    | nil => rfl
    | cons d gap =>
      have hd := hfirst d rfl
      rw [hgap d List.mem_cons_self] at hd
      exact absurd hd (by simp)
  have hall := List.forall_mem_cons.1 (hupper _ hws)
  obtain ⟨hend, words, hwords, hfolds⟩ := hrest.exists_words hts hall.2
    (fun d hd => by
      have hhead := List.head?_dropWhile_not continuesWord tail
      rw [hd] at hhead
      simpa using hhead) hbs
  have hrun := isRun_of_foldCase hall.1 (List.cons_ne_nil _ _) hfold
  have hsplit : [] ++ c :: tail =
      (c :: tail.takeWhile continuesWord) ++ tail.dropWhile continuesWord := by
    rw [List.nil_append, List.cons_append, List.takeWhile_append_dropWhile]
  rw [isTableDefinition, hsplit, takeWhile_run_append hrun hend, dropWhile_run_append hrun hend,
    hwords, List.map_append, hfolds, hfold]
  simp only [Draft.openings, List.mem_cons, List.cons.injEq, true_and, List.not_mem_nil,
    or_false] at hws
  rcases hws with rfl | rfl | rfl
  · cases (runsOf isWordChar bs).map foldCase <;> rfl
  all_goals rfl

/-- No definition that can be read is passed over. -/
theorem isTableDefinition_of_read {text : String} {d : Draft}
    (htrimmed : Text.trimmed text = text) (htokens : Token.tokenize text = .ok ts)
    (hopens : Draft.Opens ts) (hread : Draft.read ts = .ok d) :
    isTableDefinition text.toList = true := by
  obtain ⟨ws, hws, hsome⟩ := hopens
  obtain ⟨rest, hkeywords⟩ := Option.isSome_iff_exists.1 hsome
  rw [Draft.read_eq_readAfter (Draft.afterCreateTable?_of_keywords? hws hkeywords)] at hread
  obtain ⟨t, others, rfl, hname⟩ := Draft.exists_name_of_readAfter hread
  obtain ⟨read, rfl, hforall⟩ := exists_of_keywords? hkeywords
  obtain ⟨us, p, gap, -, hscans, hus⟩ := Token.tokenize_eq_ok_iff.1 htokens
  -- the name is not the end, so the scan goes on to it
  obtain ⟨after, rfl⟩ : ∃ after, us = read ++ t :: after := by
    rcases append_eq_append_cons hus.symm with h | ⟨xs, -, hend⟩
    · exact h
    · obtain ⟨-, hend⟩ | ⟨-, hend⟩ := List.append_eq_singleton_iff.1 hend.symm
      · rw [List.cons.injEq] at hend
        simp [hend.1, Token.name?] at hname
      · exact absurd hend (List.cons_ne_nil _ _)
  obtain ⟨q, bs, hfirst, hlast⟩ := hscans.split
  refine isTableDefinition_of_scans hfirst hws hforall (fun c hc => ?_) (hlast.endsWord hname)
  by_contra hgap
  rw [Bool.not_eq_false] at hgap
  obtain ⟨tail, htail⟩ := List.head?_eq_some_iff.1 hc
  have htrim := congrArg String.toList htrimmed
  rw [Text.trimmed, String.toList_ofList, htail] at htrim
  have hblank := not_blank_of_trim_eq htrim
  rw [isBlank_of_isGap hgap] at hblank
  exact absurd hblank (by simp)

theorem isTableDefinition_of_read_temp : ∃ ts d,
    Text.trimmed "create\tTEMP\r\nTABLE`ⓐ`(x INT)" = "create\tTEMP\r\nTABLE`ⓐ`(x INT)" ∧
      Token.tokenize "create\tTEMP\r\nTABLE`ⓐ`(x INT)" = .ok ts ∧ Draft.Opens ts ∧
      Draft.read ts = .ok d ∧
      isTableDefinition "create\tTEMP\r\nTABLE`ⓐ`(x INT)".toList = true := by
  have htrimmed : Text.trimmed "create\tTEMP\r\nTABLE`ⓐ`(x INT)" =
      "create\tTEMP\r\nTABLE`ⓐ`(x INT)" := by decide +kernel
  have htokens : Token.tokenize "create\tTEMP\r\nTABLE`ⓐ`(x INT)" = .ok
      ((Token.tokenize "create\tTEMP\r\nTABLE`ⓐ`(x INT)").toOption.getD []) := by decide +kernel
  have hopens : Draft.Opens
      ((Token.tokenize "create\tTEMP\r\nTABLE`ⓐ`(x INT)").toOption.getD []) :=
    ⟨["CREATE", "TEMP", "TABLE"], by decide, by decide +kernel⟩
  have hread : ∃ d, Draft.read
      ((Token.tokenize "create\tTEMP\r\nTABLE`ⓐ`(x INT)").toOption.getD []) = .ok d :=
    ⟨{ table := { name := "ⓐ", fields := [{ name := "x", type := .int }] } }, by decide +kernel⟩
  obtain ⟨d, hread⟩ := hread
  exact ⟨_, d, htrimmed, htokens, hopens, hread,
    isTableDefinition_of_read htrimmed htokens hopens hread⟩

end Source

end SqlTables
