import SqlTables.Proofs.Defaults.Contained

/-! The text of a default in a column list. A default that goes as it is on the strength of its
first and last characters may hold anything between them; all other texts keep to their item. -/

namespace SqlTables

open Lexeme
open Source (OpensComment closing? escapesQuote isQuote)
open Scan (Gap Scans Unpaired beginsWord continuesWord head? isGap)
open Dialect (double isAnyKeyword isCall isExponent isExpression isLiteralPrefix isNameChar
  isNameStart isNumber isParenthesised isVerbatim hasStringDefaults prefixedParts? skipSign)
open Text (Position)

variable {c : Char} {cs after body mark : List Char} {type : ColumnType} {value : String}

def Dialect.staysBare (type : ColumnType) (cs : List Char) : Bool :=
  isAnyKeyword ["NULL"] cs || isParenthesised cs || (prefixedParts? cs).isSome ||
    !hasStringDefaults type && isVerbatim type cs

theorem Dialect.defaultText_mysql (type : ColumnType) (value : String) :
    mysql.defaultText type value =
      if staysBare type (Text.trim value.toList) then Text.trimmed value
      else mysql.quoteString value := by
  have hprefixed : prefixedLiteral? mysql (Text.trim value.toList) =
      (prefixedParts? (Text.trim value.toList)).map fun _ => Text.trim value.toList := by
    rw [prefixedLiteral?]
    cases prefixedParts? (Text.trim value.toList) <;> rfl
  rw [defaultText, staysBare, Text.trimmed, hprefixed]
  cases prefixedParts? (Text.trim value.toList) <;>
    cases isAnyKeyword ["NULL"] (Text.trim value.toList) <;>
    cases isParenthesised (Text.trim value.toList) <;> simp

theorem isAlpha_of_val (h : 'a'.val ≤ c.val ∧ c.val ≤ 'z'.val) : c.isAlpha = true := by
  have hlower : c.isLower = true :=
    Bool.and_eq_true_iff.2 ⟨decide_eq_true h.1, decide_eq_true h.2⟩
  exact Bool.or_eq_true_iff.2 (.inr hlower)

theorem lt_of_isAlphanum (h : c.isAlphanum = true) : c.toNat < 128 := by
  have hle {n : UInt32} (hn : n.toNat < 128) (h : c.val ≤ n) : c.toNat < 128 :=
    Nat.lt_of_le_of_lt (UInt32.le_iff_toNat_le.1 h) hn
  rcases Bool.or_eq_true_iff.1 h with halpha | hdigit
  · rcases Bool.or_eq_true_iff.1 halpha with hupper | hlower
    · exact hle (by decide) (of_decide_eq_true hupper).2
    · exact hle (by decide) (of_decide_eq_true (Bool.and_eq_true_iff.1 hlower).2)
  · exact hle (by decide) (of_decide_eq_true (Bool.and_eq_true_iff.1 hdigit).2)

theorem Dialect.isNameStart_of_toUpper (h : isNameStart c.toUpper = true) :
    isNameStart c = true := by
  unfold Char.toUpper at h
  split at h
  · simp [isNameStart, isAlpha_of_val ‹_›]
  · exact h

theorem Dialect.isNameChar_of_toUpper (h : isNameChar c.toUpper = true) : isNameChar c = true := by
  unfold Char.toUpper at h
  split at h
  · simp [isNameChar, Char.isAlphanum, isAlpha_of_val ‹_›]
  · exact h

theorem Dialect.isNameChar_of_isAnyKeyword {words : List String}
    (hw : words.all (fun w => w.toList.all isNameChar) = true)
    (h : isAnyKeyword words cs = true) : ∀ c ∈ cs, isNameChar c = true := by
  obtain ⟨w, hmem, hfold⟩ := List.any_eq_true.1 h
  rw [beq_iff_eq] at hfold
  intro c hc
  refine isNameChar_of_toUpper (List.all_eq_true.1 (List.all_eq_true.1 hw w hmem) _ ?_)
  rw [← hfold]
  exact List.mem_map_of_mem hc

theorem Dialect.lt_of_isNameChar (h : isNameChar c = true) : c.toNat < 128 := by
  simp only [isNameChar, Bool.or_eq_true, decide_eq_true_eq] at h
  rcases h with h | rfl
  · exact lt_of_isAlphanum h
  · decide

theorem Dialect.word_of_name : ∀ n < 128,
    (isNameStart (Char.ofNat n) = true → beginsWord (Char.ofNat n) = true) ∧
      (isNameChar (Char.ofNat n) = true → continuesWord (Char.ofNat n) = true) := by
  decide +kernel

theorem Dialect.continuesWord_of_isNameChar (h : isNameChar c = true) : continuesWord c = true := by
  have hc := (word_of_name c.toNat (lt_of_isNameChar h)).2
  rw [Char.ofNat_toNat] at hc
  exact hc h

theorem Dialect.beginsWord_of_isNameStart (h : isNameStart c = true) : beginsWord c = true := by
  have hname : isNameChar c = true := by
    simp only [isNameStart, Bool.or_eq_true] at h
    rcases h with h | h <;> simp [isNameChar, Char.isAlphanum, h]
  have hc := (word_of_name c.toNat (lt_of_isNameChar hname)).1
  rw [Char.ofNat_toNat] at hc
  exact hc h

theorem unmarked_of_name (h : ∀ c ∈ cs, isNameChar c = true) (after : List Char) :
    Unmarked cs after :=
  unmarked_of_class (by decide +kernel) (by decide +kernel)
    (fun c hc => Dialect.continuesWord_of_isNameChar (h c hc)) after

theorem Unmarked.cons (hc : isUnmarked c = true) (ho : ¬OpensComment c (cs ++ after).head?)
    (h : Unmarked cs after) : Unmarked (c :: cs) after := by
  refine Source.Marks.cons ⟨by simp, hc⟩ ?_ ho h
  simpa using (Bool.and_eq_true_iff.1 hc).1

theorem unmarked_of_point (h : ∀ c ∈ cs, (c.isDigit || c = '.') = true) (after : List Char) :
    Unmarked cs after :=
  unmarked_of_class (by decide) (by decide) h after

theorem unmarked_of_skipSign (h : Unmarked (skipSign cs) after)
    (hm : (skipSign cs ++ after).head? ≠ some '-') : Unmarked cs after := by
  unfold skipSign at h hm
  split at h
  · exact .cons (by decide) (by simp [OpensComment]) h
  · exact .cons (by decide) (by simpa [OpensComment] using hm) h
  · exact h

theorem unmarked_of_isExponent (h : isExponent cs = true) : Unmarked cs [] := by
  cases cs with
  | nil => exact .nil []
  | cons c cs =>
    simp only [isExponent, Bool.and_eq_true, Bool.or_eq_true, decide_eq_true_eq, List.all_eq_true,
      Bool.not_eq_true', List.isEmpty_eq_false_iff] at h
    obtain ⟨⟨hc, hne⟩, hdigits⟩ := h
    have hcs : Unmarked cs [] := by
      refine unmarked_of_skipSign (unmarked_of_point (fun d hd => ?_) []) fun hm => ?_
      · simp [hdigits d hd]
      · rw [List.append_nil] at hm
        exact absurd (hdigits _ (List.mem_of_mem_head? hm)) (by decide)
    rcases hc with rfl | rfl <;> exact .cons (by decide) (by simp [OpensComment]) hcs

theorem Dialect.exists_of_isNumber (h : isNumber cs = true) :
    ∃ digits exponent, skipSign cs = digits ++ exponent ∧ digits ≠ [] ∧
      (∀ c ∈ digits, (c.isDigit || c = '.') = true) ∧ isExponent exponent = true := by
  have hsplit (cs : List Char) := @List.takeWhile_append_dropWhile _ Char.isDigit cs
  have hdigits (cs : List Char) : ∀ c ∈ cs.takeWhile Char.isDigit, (c.isDigit || c = '.') = true :=
    fun c hc => by simp [List.mem_takeWhile_imp hc]
  rw [isNumber] at h
  split at h
  · rename_i rest hdrop
    rw [Bool.and_eq_true] at h
    refine ⟨(skipSign cs).takeWhile Char.isDigit ++ '.' :: rest.takeWhile Char.isDigit,
      rest.dropWhile Char.isDigit, ?_, by simp, ?_, h.2⟩
    · rw [List.append_assoc, List.cons_append, hsplit, ← hdrop, hsplit]
    · exact List.forall_mem_append.2
        ⟨hdigits _, List.forall_mem_cons.2 ⟨by decide, hdigits rest⟩⟩
  · rw [Bool.and_eq_true, Bool.not_eq_true', List.isEmpty_eq_false_iff] at h
    exact ⟨_, _, (hsplit _).symm, h.1, hdigits _, h.2⟩

theorem unmarked_of_isNumber (h : isNumber cs = true) : Unmarked cs [] := by
  obtain ⟨digits, exponent, hcs, hne, hdigits, hexponent⟩ := Dialect.exists_of_isNumber h
  refine unmarked_of_skipSign ?_ ?_
  · rw [hcs]
    exact (unmarked_of_point hdigits _).append (unmarked_of_isExponent hexponent)
  · obtain ⟨c, digits, rfl⟩ := List.exists_cons_of_ne_nil hne
    rw [hcs, List.cons_append, List.cons_append, List.head?_cons]
    rintro ⟨⟩
    exact absurd (hdigits '-' (by simp)) (by decide)

theorem Dialect.eq_of_prefixedParts? (h : prefixedParts? cs = some (mark, body)) :
    cs = mark ++ '\x27' :: (body ++ ['\x27']) ∧ isLiteralPrefix mark = true ∧
      ∃ v, body = double '\x27' v := by
  rw [prefixedParts?] at h
  split at h
  · rename_i quote tail hdrop
    simp only [Option.ite_none_right_eq_some, Bool.and_eq_true, beq_iff_eq, Option.some.injEq,
      Prod.mk.injEq] at h
    obtain ⟨⟨⟨hmark, hlast⟩, hpaired⟩, rfl, rfl⟩ := h
    refine ⟨?_, hmark, exists_double_of_quotesPaired hpaired⟩
    have hquote : quote = '\x27' := by
      have hne := List.head?_dropWhile_not (fun c => decide (c ≠ '\x27')) cs
      rw [hdrop] at hne
      simpa using hne
    have hsplit := @List.takeWhile_append_dropWhile _ (fun c => decide (c ≠ '\x27')) cs
    rw [hdrop, hquote] at hsplit
    rw [← List.dropLast_append_getLast? _ hlast] at hsplit
    exact hsplit.symm
  · cases h

theorem Dialect.isBareWord_of_isLiteralPrefix (h : isLiteralPrefix mark = true) :
    isBareWord (String.ofList mark) = true := by
  rw [isBareWord, String.toList_ofList]
  rw [isLiteralPrefix, Bool.or_eq_true] at h
  rcases h with hword | hcharset
  · obtain ⟨w, hmem, hfold⟩ := List.any_eq_true.1 hword
    have hletters : ∀ w ∈ ["B", "X", "N", "E"], ∃ u, w.toList = [u] ∧ isNameStart u = true := by
      simp
      decide
    obtain ⟨u, hu, hstart⟩ := hletters w hmem
    rw [beq_iff_eq, hu, Text.foldCase, List.map_eq_singleton_iff] at hfold
    obtain ⟨c, rfl, rfl⟩ := hfold
    simp [beginsWord_of_isNameStart (isNameStart_of_toUpper hstart)]
  · simp only [Bool.and_eq_true, beq_iff_eq, decide_eq_true_eq, List.all_eq_true] at hcharset
    obtain ⟨⟨-, hhead⟩, hall⟩ := hcharset
    obtain ⟨rest, rfl⟩ := List.head?_eq_some_iff.1 hhead
    have hrest : rest.all continuesWord = true := List.all_eq_true.2 fun c hc =>
      continuesWord_of_isNameChar (hall c (List.mem_cons_of_mem _ hc))
    have hbegins : beginsWord '_' = true := beginsWord_of_isNameStart (by decide)
    simp only [hbegins, hrest, Bool.and_self]

theorem written_word_quote {s : String} (h : isBareWord s = true) {quote : Char}
    (hq : isQuote quote = true) (after : List Char) : Written [word [] s] (quote :: after) := by
  unfold isBareWord at h
  split at h
  · simp at h
  · rename_i c rest hs
    rw [Bool.and_eq_true, List.all_eq_true] at h
    obtain ⟨hc, hrest⟩ := h
    have hplain : ∀ d ∈ c :: rest, Source.isPlain d = true := by
      refine List.forall_mem_cons.2 ⟨Source.isPlain_of_class (by decide) hc, fun d hd => ?_⟩
      exact Source.isPlain_of_class (by decide) (hrest d hd)
    have hquote : isQuote c = false := Source.not_quote_of_class (by decide) hc
    have hstops : continuesWord quote = false := by
      rcases Source.isQuote_iff.1 hq with rfl | rfl | rfl <;> decide
    refine .singleton ⟨gap_nil, c, rest, hs, Scan.isGap_eq_false_of_class (by decide) hc, ?_⟩ ?_
    · rw [head?, if_neg (by simp [hquote]), number?_eq_none_of_beginsWord hc]
      simp only [hc, if_true]
      rw [List.takeWhile_append_of_pos hrest, List.dropWhile_append_of_pos hrest,
        List.takeWhile_cons_of_neg (by simp [hstops]),
        List.dropWhile_cons_of_neg (by simp [hstops]), List.append_nil, ← hs, String.ofList_toList]
      rfl
    · rw [chars_word, List.nil_append, hs]
      exact Source.uncommented_of_plain hplain _

theorem Scan.Scans.exists_head? {p p' : Position} {ts : List Token} {gap : List Char}
    (h : Scans p (c :: cs) ts p' gap) (hgap : Gap gap) (hc : isGap c = false) :
    ∃ t us, head? c cs = some t ∧ Scans (p.advance t.lexeme) t.rest us p' gap := by
  generalize hs : c :: cs = as at h
  cases h with
  | done =>
    have hblank := hgap c (by simp [← hs])
    simp [hc] at hblank
  | @token _ _ before tail _ d t us hbefore hd ht hts =>
    cases before with
    | nil =>
      rw [List.nil_append, List.cons.injEq] at hs
      obtain ⟨rfl, rfl⟩ := hs
      exact ⟨t, us, ht, hts⟩
    | cons e before =>
      rw [List.cons_append, List.cons.injEq] at hs
      have hblank := hbefore e (by simp)
      simp [← hs.1, hc] at hblank

/-- A literal with a prefix, its apostrophes in pairs, is a word and a string, unless a backslash
takes an apostrophe from its pair: then the string ends too early or not at all. -/
theorem contained_prefixed_iff (h : prefixedParts? cs = some (mark, body)) :
    Contained (String.ofList cs) ↔ escapesQuote '\x27' (body ++ ['\x27']) = false := by
  obtain ⟨rfl, hmark, v, rfl⟩ := Dialect.eq_of_prefixedParts? h
  have hword := written_word_quote (Dialect.isBareWord_of_isLiteralPrefix hmark)
    (show isQuote '\x27' = true from rfl)
  have hclose (after : List Char) (hn : after.head? ≠ some '\x27') :
      closing? false '\x27' (double '\x27' v ++ '\x27' :: after) =
        some (double '\x27' v, after) := closing?_double (by simp) (by simp) hn
  constructor
  · rintro ⟨-, ts, last, htokens, -⟩
    obtain ⟨us, q, gap, hgap, hall, -⟩ := Token.tokenize_eq_ok_iff.1 htokens
    have hfirst := (hword (double '\x27' v ++ ['\x27'])).scans .start
    rw [String.toList_ofList] at hall
    simp only [textOf_cons, textOf_nil, word, String.toList_ofList, List.nil_append,
      List.append_nil] at hfirst
    obtain ⟨vs, q', gap', -, hgap', hrest⟩ := hfirst.exists_append hall hgap
    obtain ⟨t, ws, hhead, hafter⟩ := hrest.exists_head? hgap' (by decide)
    obtain ⟨-, inside, hinside, -⟩ := Scan.head?_of_quote rfl hhead
    rcases Unpaired.of_closing? hinside ⟨v, rfl⟩ with hnil | hunpaired
    · rw [hnil] at hinside
      have happ := Source.eq_append_of_closing? hinside
      rw [List.append_left_inj] at happ
      subst happ
      exact (Source.closing?_true_eq_iff (by decide) (hclose [] (by simp))).1 hinside
    · exact absurd hgap' (hunpaired.not_gap hafter)
  · intro hescapes
    have hstring : ∃ s, Tight [⟨[], .string s, '\x27' :: double '\x27' v ++ ['\x27']⟩] := by
      have htrue (after : List Char) (hn : after.head? ≠ some '\x27') :=
        (Source.closing?_true_eq_iff (by decide) (hclose after hn)).2 hescapes
      refine ⟨String.ofList (Scan.unescape (double '\x27' v)), ?_⟩
      refine tight_literal rfl gap_nil (fun after hn => htrue after (hn.head?_ne (by decide))) ?_
      rw [Scan.literal?, decide_eq_true rfl, htrue [] (by simp)]
      rfl
    obtain ⟨s, hstring⟩ := hstring
    have hwritten : Written ([word [] (String.ofList mark)] ++
        [⟨[], .string s, '\x27' :: double '\x27' v ++ ['\x27']⟩]) [] :=
      .append (by simpa using hword (double '\x27' v ++ ['\x27'])) (hstring [] (by simp))
    have hcontained := contained_of_written hwritten (by simp)
      (by simp [word, TokenKind.isPart, TokenKind.isInner])
    simpa [word] using hcontained

theorem contained_quoteString (s : String) : Contained (Dialect.mysql.quoteString s) := by
  have hcontained := contained_of_written (tight_string s gap_nil [] (by simp)) (by simp)
    (by simp [string, TokenKind.isPart, TokenKind.isInner])
  simpa [string] using hcontained

theorem getLast?_of_prefixedParts? (h : prefixedParts? cs = some (mark, body)) :
    cs.getLast? = some '\x27' := by
  rw [(Dialect.eq_of_prefixedParts? h).1, ← List.cons_append, ← List.append_assoc,
    List.getLast?_concat]

theorem getLast?_of_isCall (h : isCall cs = true) : cs.getLast? = some ')' := by
  simp only [isCall, Bool.and_eq_true, beq_iff_eq] at h
  exact h.1.1.2

theorem getLast?_of_isParenthesised (h : isParenthesised cs = true) : cs.getLast? = some ')' := by
  simp only [isParenthesised, Bool.and_eq_true, beq_iff_eq] at h
  exact h.2

theorem unmarked_of_isVerbatim (h : isVerbatim type cs = true) (hcall : isCall cs = false) :
    Unmarked cs [] ∧ cs ≠ [] := by
  have hkeyword {words : List String} (hw : words.all (fun w => w.toList.all isNameChar) = true)
      (h : isAnyKeyword words cs = true) : Unmarked cs [] :=
    unmarked_of_name (Dialect.isNameChar_of_isAnyKeyword hw h) []
  constructor
  · rw [isVerbatim, isExpression, hcall, Bool.or_false, Bool.or_eq_true] at h
    rcases h with h | h
    · exact hkeyword (by decide +kernel) h
    · split_ifs at h
      · exact hkeyword (by decide +kernel) h
      · exact unmarked_of_isNumber (Bool.and_eq_true_iff.1 h).2
  · rintro rfl
    have hnil : isExpression [] = false ∧ isAnyKeyword ["TRUE", "FALSE", "0", "1"] [] = false ∧
        isNumber [] = false := by decide +kernel
    simp [isVerbatim, hnil] at h

theorem contained_of_not_raw (hprefixed : prefixedParts? cs = none)
    (hraw : ¬(isParenthesised cs = true ∨ isCall cs = true ∧ hasStringDefaults type = false)) :
    Contained (if Dialect.staysBare type cs then String.ofList cs
      else Dialect.mysql.quoteString value) := by
  split_ifs with hbare
  · simp only [Dialect.staysBare, hprefixed, Option.isSome_none, Bool.or_false,
      Bool.or_eq_true, Bool.and_eq_true, Bool.not_eq_true'] at hbare
    rcases hbare with (hnull | hparens) | ⟨htype, hverbatim⟩
    · refine contained_of_unmarked (unmarked_of_name
        (Dialect.isNameChar_of_isAnyKeyword (by decide +kernel) hnull) []) ?_
      rintro rfl
      exact absurd hnull (by decide)
    · exact absurd (.inl hparens) hraw
    · have hcall : isCall cs = false := by
        by_contra h
        exact hraw (.inr ⟨by simpa using h, htype⟩)
      obtain ⟨hunmarked, hne⟩ := unmarked_of_isVerbatim hverbatim hcall
      exact contained_of_unmarked hunmarked hne
  · exact contained_quoteString value

/-- A default keeps to its item in a column list unless it goes as it is and is of one of three
kinds: it has a prefix and a backslash takes one of its apostrophes, or it begins and ends as
parentheses or a call do, and does not keep to an item by itself. -/
theorem contained_defaultText_iff (type : ColumnType) (value : String) :
    (Contained (Dialect.mysql.defaultText type value) ↔
      (∀ mark body, prefixedParts? (Text.trim value.toList) = some (mark, body) →
        escapesQuote '\x27' (body ++ ['\x27']) = false) ∧
      (isParenthesised (Text.trim value.toList) = true ∨
          isCall (Text.trim value.toList) = true ∧ hasStringDefaults type = false →
        Contained (Text.trimmed value))) ∧
    (Contained (Dialect.mysql.defaultText type value) →
      ∃ ts last, Token.tokenize (Dialect.mysql.defaultText type value) = .ok (ts ++ [last]) ∧
        Enclosed ts) := by
  refine ⟨?_, Contained.enclosed⟩
  rw [Dialect.defaultText_mysql, Text.trimmed]
  generalize Text.trim value.toList = cs
  cases hprefixed : prefixedParts? cs with
  | some parts =>
    obtain ⟨mark, body⟩ := parts
    have hlast := getLast?_of_prefixedParts? hprefixed
    have hnot :
        ¬(isParenthesised cs = true ∨ isCall cs = true ∧ hasStringDefaults type = false) := by
      rintro (h | ⟨h, -⟩)
      · simp [getLast?_of_isParenthesised h] at hlast
      · simp [getLast?_of_isCall h] at hlast
    rw [if_pos (by simp [Dialect.staysBare, hprefixed]), contained_prefixed_iff hprefixed]
    simp [hnot]
  | none =>
    by_cases hraw : isParenthesised cs = true ∨ isCall cs = true ∧ hasStringDefaults type = false
    · have hbare : Dialect.staysBare type cs = true := by
        rcases hraw with h | ⟨h, htype⟩
        · simp [Dialect.staysBare, h]
        · simp [Dialect.staysBare, isVerbatim, isExpression, h, htype]
      simp [hbare, hraw]
    · have hcontained := @contained_of_not_raw _ _ value hprefixed hraw
      simp [hcontained, hraw]

theorem not_contained_defaultText :
    ¬∀ type value, Contained (Dialect.mysql.defaultText type value) := by
  intro h
  obtain ⟨-, ts, last, htokens, hts⟩ := h .varChar "(1), b INT DEFAULT (2)"
  have hkinds : (Token.tokenize (Dialect.mysql.defaultText .varChar "(1), b INT DEFAULT (2)")).map
      (fun ts => ts.map Token.kind) = .ok [.leftParen, .number "1", .rightParen, .comma,
        .word "b", .word "INT", .word "DEFAULT", .leftParen, .number "2", .rightParen, .eof] := by
    decide +kernel
  rw [htokens, Except.map, Except.ok.injEq, List.map_append] at hkinds
  have hall := congrArg List.dropLast hkinds
  simp only [List.map_cons, List.map_nil, List.dropLast_concat, List.dropLast_cons_cons,
    List.map_eq_cons_iff] at hall
  obtain ⟨a, _, rfl, ha, b, _, rfl, hb, c, _, rfl, hc, d, rest, rfl, hd, -⟩ := hall
  have hdepth := hts.comma [a, b, c] d rest rfl hd
  simp [Token.depth, ha, hb, hc] at hdepth

end SqlTables
