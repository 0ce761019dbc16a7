import SqlTables.Proofs.Quoting

/-! Quoting that knows no escapes. PostgreSQL and SQLite write a backslash as it is, and strings, as
well as names where comments are looked for, are read as if it were an escape. -/

namespace SqlTables

open Source (isQuote closing? escapesQuote withoutComments)
open Scan (Gap Scans)
open Dialect (double)

def Token.ReadsAs (text : String) (kind : TokenKind) : Prop :=
  ∃ ts, tokenize text = .ok ts ∧ ts.map Token.kind = [kind, .eof]

theorem Scan.Scans.exists_head {p p' : Text.Position} {cs rest : List Char} {t : Token}
    (h : Scans p cs [t] p' rest) :
    ∃ gap c tail, cs = gap ++ c :: tail ∧ Gap gap ∧
      ∃ lexeme, Scan.head? c tail = some ⟨t.kind, lexeme, rest⟩ := by
  generalize hts : [t] = ts at h
  cases h with
  | done => simp at hts
  | token hgap hc ht htail =>
    rw [List.cons.injEq] at hts
    obtain ⟨rfl, rfl⟩ := hts
    obtain ⟨rfl, -⟩ := htail.eq_of_nil
    exact ⟨_, _, _, rfl, hgap, _, ht⟩

theorem Token.readsAs_iff {quote : Char} {inside : List Char} {quoted : String} {kind : TokenKind}
    (hq : isQuote quote = true) (ht : quoted.toList = quote :: (inside ++ [quote])) :
    ReadsAs quoted kind ↔
      Scan.literal? quote (inside ++ [quote]) = some ⟨kind, quoted.toList, []⟩ := by
  have hc := Scan.isGap_of_isQuote hq
  have hnil : Gap [] := by simp [Gap]
  constructor
  · rintro ⟨ts, htokens, hkinds⟩
    obtain ⟨us, p, rest, hrest, hscans, rfl⟩ := tokenize_eq_ok_iff.1 htokens
    obtain ⟨t, rfl, rfl⟩ : ∃ t, us = [t] ∧ t.kind = kind := by
      rw [List.map_append] at hkinds
      rcases us with _ | ⟨t, _ | ⟨u, us⟩⟩
      · simp at hkinds
      · exact ⟨t, rfl, by simpa using hkinds⟩
      · simp at hkinds
    obtain ⟨gap, c, tail, hcs, hgap, lexeme, hhead⟩ := hscans.exists_head
    rw [ht] at hcs
    -- a quote is no blank, so nothing stands before the token, and nothing after it
    cases gap with
    | cons d gap =>
      rw [List.cons_append, List.cons.injEq] at hcs
      have hblank := hgap d (by simp)
      rw [← hcs.1, hc] at hblank
      exact absurd hblank (by simp)
    | nil =>
      rw [List.nil_append, List.cons.injEq] at hcs
      obtain ⟨rfl, rfl⟩ := hcs
      have happ := (Scan.eq_append_of_head? hhead).1
      rw [Scan.head?, if_pos hq] at hhead
      rcases List.eq_nil_or_concat rest with rfl | ⟨rest, d, rfl⟩
      · have hlexeme : lexeme = quoted.toList := by
          rw [ht, happ]
          simp
        rw [hhead, hlexeme]
      · have hlast := congrArg List.getLast? happ
        rw [← List.cons_append, List.concat_eq_append, ← List.append_assoc, List.getLast?_concat,
          List.getLast?_concat, Option.some.injEq] at hlast
        have hblank := hrest d (by simp)
        rw [← hlast, hc] at hblank
        exact absurd hblank (by simp)
  · intro h
    have hhead : Scan.head? quote (inside ++ [quote]) = some ⟨kind, quoted.toList, []⟩ := by
      rw [Scan.head?, if_pos hq, h]
    have hscans := Scans.token hnil hc hhead (.done (Text.Position.advance .start quoted.toList) [])
    rw [List.nil_append, ← ht] at hscans
    exact ⟨_, tokenize_eq_ok_iff.2 ⟨_, _, [], hnil, hscans, rfl⟩, rfl⟩

variable {cs v : List Char}

theorem length_unescape_double_le (v : List Char) :
    (Scan.unescape (double '\x27' v)).length ≤ v.length ∧
      (Scan.unescape ('\x27' :: double '\x27' v)).length ≤ v.length + 1 := by
  -- a pair may take one quote of a doubled quote, so both are shown together
  induction hn : v.length using Nat.strongRecOn generalizing v with
  | ind n ih =>
    subst hn
    have hwhole : (Scan.unescape (double '\x27' v)).length ≤ v.length := by
      cases v with
      | nil => exact Nat.le_refl _
      | cons c v =>
        by_cases hq : c = '\x27'
        · subst hq
          have hv := (ih v.length (by simp) v rfl).1
          rw [double_cons_self, Scan.unescape, if_pos ⟨rfl, rfl⟩]
          simpa using hv
        · rw [double_cons_of_ne hq]
          by_cases hs : c = '\\'
          · subst hs
            cases v with
            | nil => exact Nat.le_refl _
            | cons d v =>
              have hv := ih v.length (by simp only [List.length_cons]; omega) v rfl
              by_cases hd : d = '\x27'
              · subst hd
                rw [double_cons_self, Scan.unescape, if_neg (by simp), if_pos rfl]
                simpa using hv.2
              · rw [double_cons_of_ne hd, Scan.unescape, if_neg (by simp), if_pos rfl]
                simp only [List.length_cons]
                omega
          · have hv := (ih v.length (by simp) v rfl).1
            rw [unescape_cons_of_ne hq hs]
            simpa using hv
    refine ⟨hwhole, ?_⟩
    cases v with
    | nil => exact Nat.le_refl _
    | cons c v =>
      by_cases hq : c = '\x27'
      · subst hq
        have hv := (ih v.length (by simp) v rfl).2
        rw [double_cons_self, Scan.unescape, if_pos ⟨rfl, rfl⟩]
        simpa using hv
      · rw [double_cons_of_ne hq] at hwhole ⊢
        rw [Scan.unescape, if_neg (by simp [hq]), if_neg (by decide)]
        simpa using hwhole

theorem not_mem_backslash (hclose : closing? true '\x27' (double '\x27' v ++ ['\x27']) =
      some (double '\x27' v, []))
    (h : Scan.unescape (double '\x27' v) = v) : '\\' ∉ v := by
  induction v with
  | nil => simp
  | cons c v ih =>
    rw [List.mem_cons, not_or]
    by_cases hq : c = '\x27'
    · subst hq
      rw [double_cons_self] at hclose h
      rw [List.cons_append, List.cons_append, Source.closing?_doubled (by simp)] at hclose
      rw [Scan.unescape, if_pos ⟨rfl, rfl⟩, List.cons.injEq] at h
      exact ⟨by decide, ih ((Source.map_append_eq_some_iff ['\x27', '\x27']).1 hclose) h.2⟩
    · rw [double_cons_of_ne hq] at hclose h
      by_cases hs : c = '\\'
      · subst hs
        cases v with
        | nil =>
          rw [List.cons_append] at hclose
          simp [double, Source.closing?_backslash, closing?] at hclose
        | cons d v =>
          exfalso
          by_cases hd : d = '\x27'
          · subst hd
            rw [double_cons_self, Scan.unescape, if_neg (by decide), if_pos rfl,
              List.cons.injEq] at h
            exact absurd h.1 (by decide)
          · rw [double_cons_of_ne hd, Scan.unescape, if_neg (by simp), if_pos rfl,
              List.cons.injEq] at h
            have hlen := (length_unescape_double_le v).1
            rw [h.2, List.length_cons] at hlen
            omega
      · rw [List.cons_append, Source.closing?_cons_of_ne hq fun _ => hs] at hclose
        rw [unescape_cons_of_ne hq hs, List.cons.injEq] at h
        exact ⟨Ne.symm hs, ih ((Source.map_append_eq_some_iff [c]).1 hclose) h.2⟩

namespace Source

variable {mode : Mode} {quote c d : Char}

theorem blankFrom_code_quote (hq : isQuote c = true) (cs : List Char) :
    blankFrom .code (c :: cs) = c :: blankFrom (.literal c) cs := by
  have hm (next : Option Char) : marking true .code c next = ⟨.quoted, .literal c, false⟩ :=
    marking_code_of_quote hq
  rw [blankFrom_cons (by rw [hm]), hm]
  rfl

theorem blankFrom_code_of_not_quote (hq : isQuote c = false) (ho : ¬OpensComment c cs.head?) :
    blankFrom .code (c :: cs) = c :: blankFrom .code cs := by
  have hm : marking true .code c cs.head? = ⟨.code, .code, false⟩ :=
    marking_code_of_not_quote hq fun _ => ho
  rw [blankFrom_cons (by rw [hm]), hm]
  rfl

theorem blankFrom_code_opensComment (hq : isQuote c = false) (ho : OpensComment c cs.head?)
    (ds : List Char) : blankFrom .code (c :: cs) ≠ c :: ds := by
  have hregion := region_of_opensComment hq ho
  have hhead : (blankFrom .code (c :: cs)).head? = some (blankChar c .comment) := by
    cases cs with
    | nil =>
      rw [← hregion]
      rfl
    | cons d cs =>
      rw [← hregion, blankFrom]
      cases hm : (marking true .code c (some d)).takesNext with
      | false =>
        rw [markFrom_cons (by rw [List.head?_cons, hm])]
        rfl
      | true =>
        rw [markFrom_cons_cons hm]
        rfl
  intro heq
  rw [heq, List.head?_cons, Option.some.injEq] at hhead
  rcases ho with rfl | ⟨rfl, _⟩ | ⟨rfl, _⟩ <;> exact absurd hhead (by decide)

theorem blankFrom_literal {step : LiteralStep}
    (h : literalStep (quote ≠ '\x60') quote c cs.head? = step) (hs : step ≠ .pair) :
    blankFrom (.literal quote) (c :: cs) = c :: blankFrom (step.marking quote).mode cs := by
  have hm := marking_literal true h
  have htakes : (step.marking quote).takesNext = false := by
    cases step with
    | pair => exact absurd rfl hs
    | single | close => rfl
  have hregion : (step.marking quote).region = .quoted := by cases step <;> rfl
  rw [blankFrom_cons (by rw [hm, htakes]), hm, hregion, blankChar_of_ne_comment (by simp)]

theorem blankFrom_literal_pair (h : literalStep (quote ≠ '\x60') quote c (some d) = .pair) :
    blankFrom (.literal quote) (c :: d :: cs) = c :: d :: blankFrom (.literal quote) cs := by
  have hm := marking_literal true h
  rw [blankFrom_cons_cons (by rw [hm]; rfl), hm]
  rfl

/-- Whether the text stays when a comment follows it, and the comment is blanked. -/
def Kept (mode : Mode) (cs : List Char) : Prop := blankFrom mode (cs ++ ['#']) = cs ++ [' ']

theorem not_kept_literal_nil (quote : Char) : ¬Kept (.literal quote) [] := by
  intro h
  rw [Kept, List.nil_append, blankFrom, markFrom, marking, literalMarking_region] at h
  exact absurd h (by decide)

theorem Kept.of_quote (h : Kept .code (c :: cs)) (hq : isQuote c = true) :
    Kept (.literal c) cs := by
  rw [Kept, List.cons_append, blankFrom_code_quote hq] at h
  exact List.tail_eq_of_cons_eq h

theorem Kept.of_not_quote (h : Kept .code (c :: cs)) (hq : isQuote c = false) :
    Kept .code cs := by
  rw [Kept, List.cons_append] at h
  by_cases ho : OpensComment c (cs ++ ['#']).head?
  · exact absurd h (blankFrom_code_opensComment hq ho _)
  · rw [blankFrom_code_of_not_quote hq ho] at h
    exact List.tail_eq_of_cons_eq h

theorem Kept.of_step {step : LiteralStep} (h : Kept (.literal quote) (c :: cs))
    (hstep : literalStep (quote ≠ '\x60') quote c (cs ++ ['#']).head? = step)
    (hs : step ≠ .pair) : Kept (step.marking quote).mode cs := by
  rw [Kept, List.cons_append, blankFrom_literal hstep hs] at h
  exact List.tail_eq_of_cons_eq h

theorem Kept.of_pair (h : Kept (.literal quote) (c :: d :: cs))
    (hs : literalStep (quote ≠ '\x60') quote c (some d) = .pair) : Kept (.literal quote) cs := by
  rw [Kept, List.cons_append, List.cons_append, blankFrom_literal_pair hs] at h
  exact List.tail_eq_of_cons_eq (List.tail_eq_of_cons_eq h)

theorem literalStep_of_ne {escapes : Bool} (hq : c ≠ quote) (hs : c ≠ '\\') (next : Option Char) :
    literalStep escapes quote c next = .single := by
  simp [literalStep, hq, hs]

/-- Where blanking can be in a name in double quotes after it has taken one of the name's quotes for
an escaped one. The other quotes are then taken one too late, or stand in other literals. -/
inductive Shifted : Mode → List Char → Prop where
  | code (v : List Char) : Shifted .code (double '\x22' v ++ ['\x22'])
  | literal {quote : Char} (hq : isQuote quote = true) (hne : quote ≠ '\x22') (v : List Char) :
      Shifted (.literal quote) (double '\x22' v ++ ['\x22'])
  | amid {quote : Char} (hq : isQuote quote = true) (v : List Char) :
      Shifted (.literal quote) ('\x22' :: (double '\x22' v ++ ['\x22']))

theorem Shifted.exists_step (h : Shifted mode cs) (hk : Kept mode cs) :
    ∃ mode' cs', Shifted mode' cs' ∧ Kept mode' cs' ∧ cs'.length < cs.length := by
  cases h with
  | code v =>
    cases v with
    | nil => exact absurd (hk.of_quote (by decide)) (not_kept_literal_nil _)
    | cons c v =>
      by_cases hc : c = '\x22'
      · subst hc
        rw [double_cons_self] at hk
        exact ⟨_, _, .amid (by decide) v, hk.of_quote (by decide), by simp [double_cons_self]⟩
      · rw [double_cons_of_ne hc] at hk ⊢
        by_cases hq : isQuote c = true
        · exact ⟨_, _, .literal hq hc v, hk.of_quote hq, by simp⟩
        · exact ⟨_, _, .code v, hk.of_not_quote (by simpa using hq), by simp⟩
  | @literal quote hq hne v =>
    have hsingle (next : Option Char) :
        literalStep (quote ≠ '\x60') quote '\x22' next = .single :=
      literalStep_of_ne (Ne.symm hne) (by decide) next
    cases v with
    | nil => exact absurd (hk.of_step (hsingle _) (by simp)) (not_kept_literal_nil _)
    | cons c v =>
      by_cases hc : c = '\x22'
      · subst hc
        rw [double_cons_self] at hk ⊢
        exact ⟨_, _, .amid hq v, hk.of_step (hsingle _) (by simp), by simp⟩
      · rw [double_cons_of_ne hc] at hk ⊢
        cases hstep : literalStep (quote ≠ '\x60') quote c
            (double '\x22' v ++ ['\x22'] ++ ['#']).head? with
        | single => exact ⟨_, _, .literal hq hne v, hk.of_step hstep (by simp), by simp⟩
        | close => exact ⟨_, _, .code v, hk.of_step hstep (by simp), by simp⟩
        | pair =>
          cases v with
          | nil => exact absurd (hk.of_pair hstep) (not_kept_literal_nil _)
          | cons d v =>
            by_cases hd : d = '\x22'
            · subst hd
              rw [double_cons_self] at hk hstep ⊢
              exact ⟨_, _, .amid hq v, hk.of_pair hstep, by simp⟩
            · rw [double_cons_of_ne hd] at hk hstep ⊢
              exact ⟨_, _, .literal hq hne v, hk.of_pair hstep, by simp⟩
  | @amid quote hq v =>
    by_cases hne : quote = '\x22'
    · subst hne
      cases v with
      | nil => exact absurd (hk.of_pair (by decide)) (not_kept_literal_nil _)
      | cons c v =>
        by_cases hc : c = '\x22'
        · subst hc
          rw [double_cons_self] at hk ⊢
          exact ⟨_, _, .amid hq v, hk.of_pair (by decide), by simp⟩
        · have hclose : literalStep true '\x22' '\x22'
              (double '\x22' (c :: v) ++ ['\x22'] ++ ['#']).head? = .close := by
            rw [double_cons_of_ne hc]
            simp [literalStep, hc]
          exact ⟨_, _, .code (c :: v), hk.of_step hclose (by simp), by simp⟩
    · exact ⟨_, _, .literal hq hne v,
        hk.of_step (literalStep_of_ne (Ne.symm hne) (by decide) _) (by simp), by simp⟩

theorem Shifted.not_kept (h : Shifted mode cs) : ¬Kept mode cs := by
  induction hn : cs.length using Nat.strongRecOn generalizing mode cs with
  | ind n ih =>
    intro hk
    obtain ⟨mode', cs', hs, hk', hlt⟩ := h.exists_step hk
    exact ih _ (hn ▸ hlt) hs rfl hk'

theorem escapesQuote_double (v : List Char) :
    escapesQuote '\x22' (double '\x22' v ++ ['\x22']) = escapesQuote '\x22' (v ++ ['\x22']) := by
  induction hn : v.length using Nat.strongRecOn generalizing v with
  | ind n ih =>
    subst hn
    match v with
    | [] => rfl
    | c :: v =>
      by_cases hs : c = '\\'
      · subst hs
        rw [double_cons_of_ne (by decide)]
        match v with
        | [] => rfl
        | d :: v =>
          have hv := ih v.length (by simp only [List.length_cons]; omega) v rfl
          by_cases hd : d = '\x22'
          · subst hd
            simp [double_cons_self, escapesQuote]
          · simp [double_cons_of_ne hd, escapesQuote, hv]
      · have hv := ih v.length (by simp) v rfl
        by_cases hc : c = '\x22'
        · subst hc
          rw [double_cons_self, List.cons_append, List.cons_append, List.cons_append,
            escapesQuote_cons hs, escapesQuote_cons hs, escapesQuote_cons hs, hv]
        · rw [double_cons_of_ne hc, List.cons_append, List.cons_append, escapesQuote_cons hs,
            escapesQuote_cons hs, hv]

theorem not_kept_of_escapesQuote (v : List Char)
    (h : escapesQuote '\x22' (v ++ ['\x22']) = true) :
    ¬Kept (.literal '\x22') (double '\x22' v ++ ['\x22']) := by
  induction hn : v.length using Nat.strongRecOn generalizing v with
  | ind n ih =>
    subst hn
    intro hk
    match v with
    | [] => exact absurd h (by decide)
    | c :: v =>
      by_cases hs : c = '\\'
      · subst hs
        rw [double_cons_of_ne (by decide)] at hk
        match v with
        | [] => exact not_kept_literal_nil _ (hk.of_pair rfl)
        | d :: v =>
          by_cases hd : d = '\x22'
          · subst hd
            rw [double_cons_self] at hk
            exact (Shifted.amid (by decide) v).not_kept (hk.of_pair rfl)
          · rw [double_cons_of_ne hd] at hk
            simp only [List.cons_append, escapesQuote, if_true, Bool.or_eq_true, beq_iff_eq,
              hd, false_or] at h
            exact ih v.length (by simp only [List.length_cons]; omega) v h rfl (hk.of_pair rfl)
      · rw [List.cons_append, escapesQuote_cons hs] at h
        by_cases hc : c = '\x22'
        · subst hc
          rw [double_cons_self] at hk
          exact ih v.length (by simp) v h rfl (hk.of_pair (by decide))
        · rw [double_cons_of_ne hc] at hk
          exact ih v.length (by simp) v h rfl (hk.of_step (literalStep_of_ne hc hs _) (by simp))

end Source

namespace Dialect

theorem withoutComments_quoteName_iff (value : String) :
    (∀ after : String, after.toList.head? ≠ some '\x22' →
        withoutComments (postgresql.quoteName value ++ after) =
          postgresql.quoteName value ++ withoutComments after) ↔
      escapesQuote '\x22' (value.toList ++ ['\x22']) = false := by
  have ht : (postgresql.quoteName value).toList =
      '\x22' :: (double '\x22' value.toList ++ ['\x22']) := String.toList_ofList
  constructor
  · intro h
    rw [Bool.eq_false_iff]
    intro hescapes
    have hhash : withoutComments "#" = " " := by decide
    have hblank := congrArg String.toList (h "#" (by decide))
    rw [hhash, withoutComments, String.toList_ofList, String.toList_append, String.toList_append,
      ht] at hblank
    have hkept : Source.Kept .code ('\x22' :: (double '\x22' value.toList ++ ['\x22'])) := hblank
    exact Source.not_kept_of_escapesQuote value.toList hescapes (hkept.of_quote (by decide))
  · intro hescapes after hafter
    apply Source.withoutComments_quoted (by decide) ht
    have hclose : closing? false '\x22' (double '\x22' value.toList ++ '\x22' :: after.toList) =
        some (double '\x22' value.toList, after.toList) :=
      closing?_double (by simp) (by simp) hafter
    rw [← Source.escapesQuote_double] at hescapes
    exact (Source.closing?_true_eq_iff (by decide) hclose).2 hescapes

theorem readsAs_enclose_iff (value : String) :
    Token.ReadsAs (enclose '\x27' value.toList) (.string value) ↔ '\\' ∉ value.toList := by
  have ht : (enclose '\x27' value.toList).toList =
      '\x27' :: (double '\x27' value.toList ++ ['\x27']) := String.toList_ofList
  rw [Token.readsAs_iff (by decide) ht, ht]
  constructor
  · intro h
    obtain ⟨⟨inside, rest⟩, hclose, hhead⟩ := Option.map_eq_some_iff.1 h
    simp only [if_true, Scan.Head.mk.injEq, TokenKind.string.injEq, List.cons_append,
      List.cons.injEq, List.append_cancel_right_eq, true_and] at hhead
    obtain ⟨hvalue, rfl, rfl⟩ := hhead
    refine not_mem_backslash hclose ?_
    rw [← String.toList_ofList (l := Scan.unescape _), hvalue]
  · intro h
    have hclose : closing? true '\x27' (double '\x27' value.toList ++ ['\x27']) =
        some (double '\x27' value.toList, []) :=
      closing?_double (by simp) (by simpa using h) (by simp)
    simp [Scan.literal?, hclose, unescape_double h]

theorem readsAs_quoteName (value : String) :
    Token.ReadsAs (postgresql.quoteName value) (.quotedName value) := by
  have ht : (postgresql.quoteName value).toList =
      '\x22' :: (double '\x22' value.toList ++ ['\x22']) := String.toList_ofList
  have hclose : closing? false '\x22' (double '\x22' value.toList ++ ['\x22']) =
      some (double '\x22' value.toList, []) := closing?_double (by simp) (by simp) (by simp)
  rw [Token.readsAs_iff (by decide) ht, ht]
  simp [Scan.literal?, hclose, undouble_double]

/-- Strings are read back just when no backslash is among their characters. A name is always read
back, and keeps its place before comments just when no quote of it is taken for an escaped one. -/
theorem readsAs_quoted_iff (value : String) :
    (∀ d : Dialect, d ≠ .mysql →
        (Token.ReadsAs (d.quoteString value) (.string value) ↔ '\\' ∉ value.toList)) ∧
      ((∀ after : String, after.toList.head? ≠ some '\x22' →
          withoutComments (postgresql.quoteName value ++ after) =
            postgresql.quoteName value ++ withoutComments after) ↔
        escapesQuote '\x22' (value.toList ++ ['\x22']) = false) ∧
      Token.ReadsAs (postgresql.quoteName value) (.quotedName value) := by
  refine ⟨fun d hd => ?_, withoutComments_quoteName_iff value, readsAs_quoteName value⟩
  have hquoted : d.quoteString value = enclose '\x27' value.toList := by
    cases d with
    | mysql => exact absurd rfl hd
    | postgresql | sqlite => rfl
  rw [hquoted]
  exact readsAs_enclose_iff value

theorem readsAs_quoted_iff_quotes :
    Token.ReadsAs (sqlite.quoteString "it''s '-- #") (.string "it''s '-- #") ∧
      withoutComments (postgresql.quoteName "a\\b \\\\" ++ " -- x") =
        postgresql.quoteName "a\\b \\\\" ++ withoutComments " -- x" :=
  ⟨((readsAs_quoted_iff _).1 .sqlite (by decide)).2 (by decide),
    (readsAs_quoted_iff _).2.1.2 (by decide) _ (by decide)⟩

theorem not_readsAs_backslash :
    ¬Token.ReadsAs (postgresql.quoteString "a\\") (.string "a\\") ∧
      ¬Token.ReadsAs (sqlite.quoteString "a\\b") (.string "a\\b") ∧
      withoutComments (postgresql.quoteName "a\\" ++ " -- x") ≠
        postgresql.quoteName "a\\" ++ withoutComments " -- x" := by
  refine ⟨?_, ?_, by decide⟩
  · rintro ⟨ts, hts, _⟩
    have hfail : Token.tokenize (postgresql.quoteString "a\\") =
        .error (.unterminatedLiteral 1 1) := by
      decide +kernel
    rw [hfail] at hts
    simp at hts
  · rintro ⟨ts, hts, hkinds⟩
    have hread : Token.tokenize (sqlite.quoteString "a\\b") =
        .ok [⟨"", .string "ab", "'a\\b'", ⟨1, 1, 0⟩⟩, ⟨"", .eof, "", ⟨1, 6, 5⟩⟩] := by
      decide +kernel
    rw [hread, Except.ok.injEq] at hts
    rw [← hts] at hkinds
    exact absurd hkinds (by decide)

end Dialect

end SqlTables
