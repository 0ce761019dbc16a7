import SqlTables.Proofs.RoundTrip.Lexeme
import SqlTables.Proofs.Token.Head

/-! The spelling of words, numbers, names, strings and marks, and how each is read back. -/

namespace SqlTables

open Scan (Gap Delimited delimiters isGap head? beginsWord continuesWord number? magnitude?)
open Source (Uncommented isPlain isQuote closing?)
open Dialect (double enclose)

def isBareWord (s : String) : Bool :=
  match s.toList with
  | [] => false
  | c :: rest => beginsWord c && rest.all continuesWord

def isNumeral (s : String) : Bool := number? s.toList == some (s.toList, [])

namespace Lexeme

def word (gap : List Char) (s : String) : Lexeme := ⟨gap, .word s, s.toList⟩

def number (gap : List Char) (s : String) : Lexeme := ⟨gap, .number s, s.toList⟩

def name (d : Dialect) (gap : List Char) (s : String) : Lexeme :=
  ⟨gap, .quotedName s, (d.quoteName s).toList⟩

def string (gap : List Char) (s : String) : Lexeme :=
  ⟨gap, .string s, (Dialect.mysql.quoteString s).toList⟩

def member (gap : List Char) (s : String) : Lexeme :=
  ⟨gap, .string s, (enclose '\x27' s.toList).toList⟩

def mark (gap : List Char) (c : Char) : Lexeme := ⟨gap, Scan.punctuation c, [c]⟩

theorem chars_word (gap : List Char) (s : String) : (word gap s).chars = gap ++ s.toList := rfl

theorem chars_number (gap : List Char) (s : String) : (number gap s).chars = gap ++ s.toList := rfl

theorem chars_name (d : Dialect) (gap : List Char) (s : String) :
    (name d gap s).chars = gap ++ (d.quoteName s).toList := by
  rw [chars, name]

theorem chars_string (gap : List Char) (s : String) :
    (string gap s).chars = gap ++ (Dialect.mysql.quoteString s).toList := by
  rw [chars, string]

theorem chars_member (gap : List Char) (s : String) :
    (member gap s).chars = gap ++ (enclose '\x27' s.toList).toList := by
  rw [chars, member]

end Lexeme

open Lexeme

variable {gap cs ds rest after : List Char} {c : Char} {s : String} {w : Lexeme}

theorem uncommented_gap (h : Gap gap) (after : List Char) : Uncommented gap after := by
  exact Source.uncommented_of_plain (fun c hc => Source.isPlain_of_class (by decide) (h c hc)) after

theorem tight_of_head? (hg : Gap w.gap)
    (hh : ∃ c rest, w.text = c :: rest ∧ isGap c = false ∧ head? c rest = some ⟨w.kind, w.text, []⟩)
    (hu : ∀ after, Delimited after → Uncommented w.text after) : Tight [w] := by
  intro after hafter
  obtain ⟨c, rest, htext, hc, hhead⟩ := hh
  refine .singleton ⟨hg, c, rest, htext, hc, ?_⟩ ?_
  · simpa using Scan.head?_append hafter hhead
  · exact (uncommented_gap hg _).append (hu after hafter)

theorem contains_eq_false_of_lt {lo hi n : Nat} {ranges : Text.Ranges} (h : n < lo) :
    Text.Ranges.contains ((lo, hi) :: ranges) n = false := by
  simp [Text.Ranges.contains, h]

theorem not_beginsWord_of_lt (h : c.toNat < 0x41) (hd : c ≠ '$') : beginsWord c = false := by
  have hletter : Text.isLetter c = false := by
    rw [Text.isLetter, Text.Ranges.containsChar, Text.Ranges.containsChar]
    rw [Text.letterRanges, Text.addedLetterRanges, contains_eq_false_of_lt h,
      contains_eq_false_of_lt (by omega)]
    rfl
  have hu : c ≠ '_' := by
    rintro rfl
    exact absurd h (by decide)
  simp [beginsWord, hletter, hu, hd]

theorem number?_eq_none_of_beginsWord (h : beginsWord c = true) (rest : List Char) :
    number? (c :: rest) = none := by
  have hminus : c ≠ '-' := by
    rintro rfl
    exact absurd h (by decide)
  have hdigit : c.isDigit = false := by
    -- the table of letters begins after the digits
    by_contra hd
    have hrange : 48 ≤ c.toNat ∧ c.toNat ≤ 57 := by
      simpa [Char.isDigit, UInt32.le_iff_toNat_le] using hd
    have hdollar : c ≠ '$' := by
      rintro rfl
      exact absurd hrange.1 (by decide)
    rw [not_beginsWord_of_lt (by omega) hdollar] at h
    exact absurd h (by simp)
  rw [Scan.number?_eq_magnitude? (by simpa using hminus), magnitude?, Text.digits?]
  simp [hdigit]

theorem tight_word (h : isBareWord s = true) (hg : Gap gap) : Tight [word gap s] := by
  unfold isBareWord at h
  split at h
  · simp at h
  · rename_i c rest hs
    rw [Bool.and_eq_true, List.all_eq_true] at h
    obtain ⟨hc, hrest⟩ := h
    have hall : ∀ d ∈ c :: rest, continuesWord d = true :=
      List.forall_mem_cons.2 ⟨by simp [continuesWord, hc], hrest⟩
    have hplain : isQuote c = false := Source.not_quote_of_class (by decide) hc
    refine tight_of_head? hg ⟨c, rest, hs, Scan.isGap_eq_false_of_class (by decide) hc, ?_⟩ ?_
    · rw [head?, if_neg (by simp [hplain]), number?_eq_none_of_beginsWord hc]
      simp only [hc, if_true]
      have htake : rest.takeWhile continuesWord = rest := List.takeWhile_eq_self_iff.2 hrest
      have hdrop : rest.dropWhile continuesWord = [] := List.dropWhile_eq_nil_iff.2 hrest
      rw [htake, hdrop, ← hs, String.ofList_toList]
      rfl
    · intro after _
      exact Source.uncommented_of_plain
        (fun d hd => Source.isPlain_of_class (by decide) (hall d (hs ▸ hd))) after

theorem uncommented_digits? (h : Text.digits? cs = some (ds, rest)) (after : List Char) :
    Uncommented ds after :=
  Source.uncommented_of_plain
    (fun c hc => Source.isPlain_of_class (by decide) (Scan.isDigit_of_digits? h c hc)) after

theorem uncommented_minus (h : Uncommented ds after) (hd : ds ≠ [])
    (hdigit : ∀ c ∈ ds.head?, c ≠ '-') : Uncommented ('-' :: ds) after := by
  refine .cons (by decide) ?_ h
  obtain ⟨d, ds, rfl⟩ := List.exists_cons_of_ne_nil hd
  have hne := hdigit d (by simp)
  simpa [Source.OpensComment] using hne

theorem ne_minus_of_digits? (h : Text.digits? cs = some (ds, rest)) : ∀ c ∈ ds.head?, c ≠ '-' := by
  rintro c hc rfl
  have hdigit := Scan.isDigit_of_digits? h '-' (List.mem_of_mem_head? hc)
  exact absurd hdigit (by decide)

theorem uncommented_fraction? (h : Scan.fraction? cs = some (ds, rest)) (after : List Char) :
    Uncommented ds after := by
  unfold Scan.fraction? at h
  split at h
  · obtain ⟨⟨ds', r⟩, hd, he⟩ := Option.map_eq_some_iff.1 h
    simp only [Prod.mk.injEq] at he
    obtain ⟨rfl, rfl⟩ := he
    exact .cons (by decide) (by simp [Source.OpensComment]) (uncommented_digits? hd after)
  · simp at h

theorem uncommented_exponent? (h : Scan.exponent? cs = some (ds, rest)) (after : List Char) :
    Uncommented ds after := by
  unfold Scan.exponent? at h
  split at h
  · rename_i e s tail
    split_ifs at h with he hs
    · obtain ⟨⟨ds', r⟩, hd, heq⟩ := Option.map_eq_some_iff.1 h
      simp only [Prod.mk.injEq] at heq
      obtain ⟨rfl, rfl⟩ := heq
      have hdigits := uncommented_digits? hd after
      have hsign : Uncommented (s :: ds') after := by
        rcases hs with rfl | rfl
        · exact .cons (by decide) (by simp [Source.OpensComment]) hdigits
        · exact uncommented_minus hdigits (Text.eq_append_of_digits? hd).2 (ne_minus_of_digits? hd)
      rcases he with rfl | rfl <;> exact .cons (by decide) (by simp [Source.OpensComment]) hsign
    · obtain ⟨⟨ds', r⟩, hd, heq⟩ := Option.map_eq_some_iff.1 h
      simp only [Prod.mk.injEq] at heq
      obtain ⟨rfl, rfl⟩ := heq
      have hdigits := uncommented_digits? hd after
      rcases he with rfl | rfl <;> exact .cons (by decide) (by simp [Source.OpensComment]) hdigits
  · simp at h

theorem uncommented_magnitude? (h : magnitude? cs = some (ds, rest)) (after : List Char) :
    Uncommented ds after := by
  have hall : ∀ after, Uncommented ds after :=
    Scan.magnitude?_induction (P := fun ds => ∀ after, Uncommented ds after)
      (fun ha hb after => (ha _).append (hb after)) uncommented_digits? uncommented_fraction?
      uncommented_exponent? h
  exact hall after

theorem ne_minus_of_magnitude? (h : magnitude? cs = some (ds, rest)) : ∀ c ∈ ds.head?, c ≠ '-' := by
  -- both the magnitude and its digits begin the text
  obtain ⟨⟨digits, tail⟩, hd, _⟩ := Option.map_eq_some_iff.1 h
  obtain ⟨hcs, hne⟩ := Scan.eq_append_of_magnitude? h
  obtain ⟨hcs', hne'⟩ := Text.eq_append_of_digits? hd
  obtain ⟨d, ds, rfl⟩ := List.exists_cons_of_ne_nil hne
  obtain ⟨e, digits, rfl⟩ := List.exists_cons_of_ne_nil hne'
  rw [hcs', List.cons_append, List.cons_append, List.cons.injEq] at hcs
  rw [List.head?_cons, ← hcs.1]
  exact ne_minus_of_digits? hd

theorem uncommented_number? (h : number? cs = some (ds, rest)) (after : List Char) :
    Uncommented ds after := by
  unfold number? at h
  split at h
  · obtain ⟨⟨ds', r⟩, hd, he⟩ := Option.map_eq_some_iff.1 h
    simp only [Prod.mk.injEq] at he
    obtain ⟨rfl, rfl⟩ := he
    exact uncommented_minus (uncommented_magnitude? hd after) (Scan.eq_append_of_magnitude? hd).2
      (ne_minus_of_magnitude? hd)
  · exact uncommented_magnitude? h after

theorem tight_number (h : isNumeral s = true) (hg : Gap gap) : Tight [number gap s] := by
  rw [isNumeral, beq_iff_eq] at h
  obtain ⟨c, rest, hs⟩ := List.exists_cons_of_ne_nil (Scan.eq_append_of_number? h).2
  have hc : Scan.inNumber c = true := Scan.inNumber_of_number? h c (by simp [hs])
  have hquote : Source.isQuote c = false := Source.not_quote_of_class (by decide) hc
  refine tight_of_head? hg ⟨c, rest, hs, Scan.isGap_eq_false_of_class (by decide) hc, ?_⟩
    fun after _ => uncommented_number? h after
  rw [head?, if_neg (by simp [hquote]), ← hs, h]
  simp [number]

variable {quote : Char}

theorem double_cons_self (q : Char) (cs : List Char) :
    double q (q :: cs) = q :: q :: double q cs := by
  simp [double]

theorem double_cons_of_ne (h : c ≠ quote) (cs : List Char) :
    double quote (c :: cs) = c :: double quote cs := by
  simp [double, h]

theorem closing?_double {escapes : Bool} (hq : escapes = true → quote ≠ '\\')
    (hb : escapes = true → '\\' ∉ cs) (hn : after.head? ≠ some quote) :
    closing? escapes quote (double quote cs ++ quote :: after) = some (double quote cs, after) := by
  induction cs with
  | nil => exact Source.closing?_quote hq hn
  | cons c cs ih =>
    have hcs := ih fun he hm => hb he (List.mem_cons_of_mem _ hm)
    by_cases hc : c = quote
    · subst hc
      rw [double_cons_self, List.cons_append, List.cons_append, Source.closing?_doubled hq, hcs]
      rfl
    · have hslash (he : escapes = true) : c ≠ '\\' := fun h => hb he (h ▸ List.mem_cons_self ..)
      rw [double_cons_of_ne hc, List.cons_append, Source.closing?_cons_of_ne hc hslash, hcs]
      rfl

theorem closing?_escaped (hn : after.head? ≠ some '\x27') :
    closing? true '\x27' (double '\x27' (double '\\' cs) ++ '\x27' :: after) =
      some (double '\x27' (double '\\' cs), after) := by
  induction cs with
  | nil => exact Source.closing?_quote (by simp) hn
  | cons c cs ih =>
    by_cases hs : c = '\\'
    · subst hs
      rw [double_cons_self, double_cons_of_ne (by decide), double_cons_of_ne (by decide),
        List.cons_append, List.cons_append, Source.closing?_backslash, ih]
      rfl
    · rw [double_cons_of_ne hs]
      by_cases hc : c = '\x27'
      · subst hc
        rw [double_cons_self, List.cons_append, List.cons_append,
          Source.closing?_doubled (by simp), ih]
        rfl
      · rw [double_cons_of_ne hc, List.cons_append, Source.closing?_cons_of_ne hc fun _ => hs, ih]
        rfl

theorem undouble_double (quote : Char) (cs : List Char) :
    Scan.undouble quote (double quote cs) = cs := by
  induction cs with
  | nil => rfl
  | cons c cs ih =>
    by_cases hc : c = quote
    · subst hc
      simp [double_cons_self, Scan.undouble, ih]
    · rw [double_cons_of_ne hc]
      cases hd : double quote cs with
      | nil =>
        rw [hd] at ih
        simp [Scan.undouble, ← ih]
      | cons d rest =>
        rw [hd] at ih
        simp [Scan.undouble, hc, ih]

theorem unescape_cons_of_ne (hq : c ≠ '\x27') (hs : c ≠ '\\') (cs : List Char) :
    Scan.unescape (c :: cs) = c :: Scan.unescape cs := by
  cases cs with
  | nil => rfl
  | cons d rest => simp [Scan.unescape, hq, hs]

theorem unescape_double (h : '\\' ∉ cs) : Scan.unescape (double '\x27' cs) = cs := by
  induction cs with
  | nil => rfl
  | cons c cs ih =>
    rw [List.mem_cons, not_or] at h
    by_cases hc : c = '\x27'
    · subst hc
      rw [double_cons_self, Scan.unescape, if_pos ⟨rfl, rfl⟩, ih h.2]
    · rw [double_cons_of_ne hc, unescape_cons_of_ne hc (Ne.symm h.1), ih h.2]

theorem unescape_escaped (cs : List Char) :
    Scan.unescape (double '\x27' (double '\\' cs)) = cs := by
  induction cs with
  | nil => rfl
  | cons c cs ih =>
    by_cases hs : c = '\\'
    · subst hs
      rw [double_cons_self, double_cons_of_ne (by decide), double_cons_of_ne (by decide),
        Scan.unescape, if_neg (by decide), if_pos rfl, ih]
      rfl
    · rw [double_cons_of_ne hs]
      by_cases hc : c = '\x27'
      · subst hc
        rw [double_cons_self, Scan.unescape, if_pos ⟨rfl, rfl⟩, ih]
      · rw [double_cons_of_ne hc, unescape_cons_of_ne hc hs, ih]

theorem tight_literal {kind : TokenKind} {inside : List Char} (hq : isQuote quote = true)
    (hg : Gap gap)
    (hclose : ∀ after, Delimited after →
      closing? (quote ≠ '\x60') quote (inside ++ quote :: after) = some (inside, after))
    (hread : Scan.literal? quote (inside ++ [quote]) =
      some ⟨kind, quote :: inside ++ [quote], []⟩) :
    Tight [⟨gap, kind, quote :: inside ++ [quote]⟩] := by
  refine tight_of_head? hg ⟨quote, inside ++ [quote], rfl, ?_, ?_⟩ fun after hafter =>
    Source.uncommented_literal hq (hclose after hafter)
  · exact Scan.isGap_of_isQuote hq
  · rw [head?, if_pos hq]
    exact hread

/-- Whether a dialect quotes the name so that it is a name wherever it stands. In double quotes a
backslash is an escape where comments are looked for. -/
def Dialect.Quotes (d : Dialect) (s : String) : Prop :=
  match d with
  | .mysql => True
  | .postgresql => '\\' ∉ s.toList
  | .sqlite => False

theorem Dialect.quotes_mysql (s : String) : Dialect.mysql.Quotes s := trivial

theorem tight_enclosed (hq : quote ∈ ['\x60', '\x22'])
    (hs : quote = '\x22' → '\\' ∉ s.toList) (hg : Gap gap) :
    Tight [⟨gap, .quotedName s, (enclose quote s.toList).toList⟩] := by
  have hquote : isQuote quote = true ∧ quote ≠ '\x27' ∧ quote ≠ '\\' ∧ quote ∉ delimiters ∧
      (quote ≠ '\x60' → quote = '\x22') := by
    simp only [List.mem_cons, List.not_mem_nil, or_false] at hq
    rcases hq with rfl | rfl <;> decide
  obtain ⟨hquote, hne, hslash, hdelimiter, hdouble⟩ := hquote
  have hclose (escapes : Bool) (he : escapes = true → '\\' ∉ s.toList) (after : List Char)
      (h : after.head? ≠ some quote) : closing? escapes quote
        (double quote s.toList ++ quote :: after) = some (double quote s.toList, after) :=
    closing?_double (fun _ => hslash) he h
  have htext : (enclose quote s.toList).toList = quote :: double quote s.toList ++ [quote] :=
    String.toList_ofList
  rw [htext]
  refine tight_literal hquote hg (fun after h => ?_) ?_
  · exact hclose _ (fun he => hs (hdouble (by simpa using he))) after (h.head?_ne hdelimiter)
  · rw [Scan.literal?, hclose _ (fun he => absurd he (by simpa using hne)) [] (by simp)]
    simp [hne, undouble_double]

theorem tight_name {d : Dialect} (h : d.Quotes s) (hg : Gap gap) : Tight [name d gap s] := by
  cases d with
  | mysql => exact tight_enclosed (by decide) (by simp) hg
  | postgresql => exact tight_enclosed (by decide) (fun _ => h) hg
  | sqlite => exact h.elim

theorem tight_string (s : String) (hg : Gap gap) : Tight [string gap s] := by
  have htext : (Dialect.mysql.quoteString s).toList =
      '\x27' :: double '\x27' (double '\\' s.toList) ++ ['\x27'] := String.toList_ofList
  rw [string, htext]
  refine tight_literal (by decide) hg (fun after h => ?_) ?_
  · exact closing?_escaped (h.head?_ne (by decide))
  · have hread := @closing?_escaped s.toList [] (by simp)
    simp [Scan.literal?, hread, unescape_escaped]

theorem tight_member (h : '\\' ∉ s.toList) (hg : Gap gap) : Tight [member gap s] := by
  have hclose (after : List Char) (hn : after.head? ≠ some '\x27') :
      closing? true '\x27' (double '\x27' s.toList ++ '\x27' :: after) =
        some (double '\x27' s.toList, after) := closing?_double (by simp) (by simpa using h) hn
  have htext : (enclose '\x27' s.toList).toList =
      '\x27' :: double '\x27' s.toList ++ ['\x27'] := String.toList_ofList
  rw [member, htext]
  refine tight_literal (by decide) hg (fun after hn => hclose after (hn.head?_ne (by decide))) ?_
  have hread := hclose [] (by simp)
  simp [Scan.literal?, hread, unescape_double h]

theorem written_mark (hc : c ∈ ['(', ')', ',', ';', '=']) (hg : Gap gap) (after : List Char) :
    Written [mark gap c] after := by
  have hhead : isPlain c = true ∧ isGap c = false ∧ isQuote c = false ∧
      c ≠ '-' ∧ c.isDigit = false ∧ beginsWord c = false ∧ c ≠ ':' := by
    simp only [List.mem_cons, List.not_mem_nil, or_false] at hc
    rcases hc with rfl | rfl | rfl | rfl | rfl <;> decide
  obtain ⟨hplain, hgap, hquote, hminus, hdigit, hword, hcolon⟩ := hhead
  have hnumber : number? (c :: after) = none := by
    rw [Scan.number?_eq_magnitude? (by simpa using hminus), magnitude?, Text.digits?]
    simp [hdigit]
  refine .singleton ⟨hg, c, [], rfl, hgap, ?_⟩ ?_
  · simp [head?, hquote, hnumber, hword, hcolon, mark]
  · exact (uncommented_gap hg _).append
      (Source.uncommented_of_plain (by simpa [mark] using hplain) after)

theorem gap_nil : Gap [] := by simp [Gap]

theorem gap_space : Gap [' '] := by decide

theorem delimited_mark (hc : c ∈ ['(', ')', ',', ';']) (hg : Gap gap)
    (ws : List Lexeme) (after : List Char) : Delimited (textOf (mark gap c :: ws) ++ after) := by
  cases gap with
  | nil =>
    simp only [List.mem_cons, List.not_mem_nil, or_false] at hc
    rcases hc with rfl | rfl | rfl | rfl <;> exact Scan.delimited_cons.2 (by decide)
  | cons d gap => exact Scan.delimited_cons.2 (Scan.mem_delimiters_of_isGap (hg d (by simp)))

theorem Tight.sealed_mark {ws : List Lexeme} (h : Tight ws) (hc : c ∈ ['(', ')', ',', ';'])
    (hg : Gap gap) : Sealed (mark gap c :: ws) := by
  have hmem : c ∈ ['(', ')', ',', ';', '='] := List.mem_append_left ['='] hc
  exact ⟨fun after hafter => (written_mark hmem hg _).append (h after hafter),
    fun after _ => delimited_mark hc hg ws after⟩

def Lexeme.group (gap : List Char) (ws : List Lexeme) : List Lexeme :=
  mark gap '(' :: ws ++ [mark [] ')']

theorem sealed_group_of_written {ws : List Lexeme} (h : ∀ after, Written ws (')' :: after))
    (hg : Gap gap) : Sealed (group gap ws) := by
  have hopen : ∀ after, Written [mark gap '('] after := written_mark (by decide) hg
  have hclose : ∀ after, Written [mark [] ')'] after := written_mark (by decide) gap_nil
  exact ⟨fun after _ => (hopen _).append ((h after).append (hclose after)),
    fun after _ => delimited_mark (c := '(') (by decide) hg _ after⟩

theorem sealed_group {ws : List Lexeme} (h : Tight ws) (hg : Gap gap) : Sealed (group gap ws) := by
  apply sealed_group_of_written _ hg
  intro after
  exact h _ (Scan.delimited_cons.2 (by decide))

def Lexeme.separated : List Lexeme → List Lexeme
  | [] => []
  | w :: ws => w :: ws.flatMap fun v => [mark [] ',', v]

theorem tight_separated {ws : List Lexeme} (h : ∀ w ∈ ws, Tight [w]) : Tight (separated ws) := by
  cases ws with
  | nil => exact Sealed.nil.tight
  | cons w ws =>
    rw [List.forall_mem_cons] at h
    exact h.1.append (.flatMap fun v hv => (h.2 v hv).sealed_mark (by decide) gap_nil)

end SqlTables
