import SqlTables.Proofs.RoundTrip.Spelling
import SqlTables.Proofs.Token.Lossless
import SqlTables.Source.Statement

/-! Quoted names and strings at the beginning of a text. -/

namespace SqlTables

open Source (Region isQuote closing? markFrom mark segmentsOf segments withoutComments blank)
open Text (Position bytes lineCount lastLine)
open Dialect (double)

namespace Source

def statementEnd (text : String) : Nat := bytes ((segments text.toList).headD [])

theorem headD_segmentsOf_append {ms : List (Char × Region)} (h : ∀ m ∈ ms, m.2 ≠ .code)
    (ns : List (Char × Region)) :
    (segmentsOf (ms ++ ns)).headD [] = ms.map Prod.fst ++ (segmentsOf ns).headD [] := by
  induction ms with
  | nil => rfl
  | cons m ms ih =>
    rw [List.forall_mem_cons] at h
    rw [List.cons_append, segmentsOf, if_neg fun hc => h.1 hc.2.1, List.map_cons, List.cons_append,
      ← ih h.2]
    cases segmentsOf (ms ++ ns) <;> rfl

variable {quote : Char} {inside : List Char} {quoted after : String}

theorem toList_quoted_append (ht : quoted.toList = quote :: (inside ++ [quote]))
    (after : String) :
    (quoted ++ after).toList = quote :: (inside ++ quote :: after.toList) := by
  simp [ht]

theorem withoutComments_quoted (hq : isQuote quote = true)
    (ht : quoted.toList = quote :: (inside ++ [quote]))
    (h : closing? (quote ≠ '\x60') quote (inside ++ quote :: after.toList) =
      some (inside, after.toList)) :
    withoutComments (quoted ++ after) = quoted ++ withoutComments after := by
  have hs := toList_quoted_append ht after
  have hkept : (quoted.toList.map (·, Region.quoted)).map (fun m => blankChar m.1 m.2) =
      quoted.toList := by
    rw [List.map_map]
    exact List.map_id _
  have hblank : blank (quoted ++ after).toList = quoted.toList ++ blank after.toList := by
    rw [blank, mark, hs, markFrom_quoted hq h, ← ht, List.map_append, hkept]
    rfl
  rw [withoutComments, hblank, String.ofList_append, String.ofList_toList]
  rfl

theorem statementEnd_quoted (hq : isQuote quote = true)
    (ht : quoted.toList = quote :: (inside ++ [quote]))
    (h : closing? (quote ≠ '\x60') quote (inside ++ quote :: after.toList) =
      some (inside, after.toList)) :
    statementEnd (quoted ++ after) = quoted.utf8ByteSize + statementEnd after := by
  have hs := toList_quoted_append ht after
  have hms : ∀ m ∈ quoted.toList.map (·, Region.quoted), m.2 ≠ .code := by simp
  rw [statementEnd, segments, mark, hs, markFrom_quoted hq h, ← ht, headD_segmentsOf_append hms,
    Text.bytes_append, List.map_map, ← Text.bytes_toList]
  congr 2
  exact List.map_id _

end Source

/-- Whether tokenizing begins with one token that takes up a quoted text, or fails in what follows,
at a quote that nothing closes. -/
def Token.Begins (quoted : String) (kind : TokenKind) (after : String) : Prop :=
  (∃ ts, tokenize (quoted ++ after) = .ok (⟨"", kind, quoted, .start⟩ :: ts) ∧
    ∀ t ∈ ts, quoted.utf8ByteSize ≤ t.start.offset) ∨
  ∃ before c rest ts, after.toList = before ++ c :: rest ∧ isQuote c = true ∧
    Tiling (Position.advance .start quoted.toList) before (c :: rest) ts ∧
    (∀ r ∈ TokenRule.literals, r.read? (c :: rest) = none) ∧
    tokenize (quoted ++ after) = .error (.unterminatedLiteral
      (lineCount (quoted.toList ++ before)) ((lastLine (quoted.toList ++ before)).length + 1))

theorem Token.begins_of_literal? {quote : Char} {inside : List Char} {quoted after : String}
    {kind : TokenKind} (hq : isQuote quote = true)
    (ht : quoted.toList = quote :: (inside ++ [quote]))
    (h : Scan.literal? quote (inside ++ quote :: after.toList) =
      some ⟨kind, quoted.toList, after.toList⟩) : Begins quoted kind after := by
  have hs := Source.toList_quoted_append ht after
  have hc := Scan.isGap_of_isQuote hq
  have hhead : Scan.head? quote (inside ++ quote :: after.toList) =
      some ⟨kind, quoted.toList, after.toList⟩ := by
    rw [Scan.head?, if_pos hq, h]
  have hblank : Scan.Gap [] := by simp [Scan.Gap]
  cases hu : (Scan.scanFrom (Position.start.advance quoted.toList) after.toList).unterminated with
  | none =>
    obtain ⟨p, gap, hgap, hscans, _⟩ := Scan.scans_of_unterminated_eq_none hu
    have hwhole := Scan.Scans.token hblank hc hhead hscans
    rw [← hs, String.ofList_toList] at hwhole
    rw [← List.append_nil gap] at hscans
    obtain ⟨_, _, _, htiling⟩ := Tiling.of_scans hscans hgap
    refine .inl ⟨_, tokenize_eq_ok_iff.2 ⟨_, p, gap, hgap, hwhole, rfl⟩, fun t ht => ?_⟩
    rcases List.mem_append.1 ht with ht | ht
    · obtain ⟨before, _, _, hstart, _⟩ := htiling.written t ht
      rw [hstart, Position.offset_advance, Position.offset_advance, Text.bytes_toList]
      omega
    · rw [List.mem_singleton.1 ht]
      simp [endPosition]
  | some place =>
    obtain ⟨p, gap, c, rest, hgap, _, hnone, hscans, rfl⟩ :=
      Scan.scans_of_unterminated_eq_some hu
    obtain ⟨hquote, hopen⟩ := TokenRule.read?_of_head?_eq_none hnone
    obtain ⟨before, hbefore, hplace, htiling⟩ := Tiling.of_scans hscans hgap
    have hscan := Scan.scanFrom_token hblank hc hhead .start
    rw [← hs, List.nil_append] at hscan
    have hu' : (Scan.ofText (quoted ++ after)).unterminated = some (p.advance gap) := by
      rw [Scan.ofText, hscan]
      exact hu
    refine .inr ⟨before, c, rest, _, hbefore, hquote, htiling, hopen, ?_⟩
    rw [tokenize_of_unterminated_eq_some hu', hplace, ← Position.advance_append,
      Position.start_advance]

/-- Whether the readers of a text take a quoted text at its beginning as it stands. -/
structure Transparent (quoted : String) (kind : TokenKind) (after : String) : Prop where
  withoutComments_eq : withoutComments (quoted ++ after) = quoted ++ withoutComments after
  statementEnd_eq : Source.statementEnd (quoted ++ after) =
    quoted.utf8ByteSize + Source.statementEnd after
  begins : Token.Begins quoted kind after

theorem Transparent.of_closing? {quote : Char} {inside : List Char} {quoted after : String}
    {kind : TokenKind} (hq : isQuote quote = true)
    (ht : quoted.toList = quote :: (inside ++ [quote]))
    (hmarks : closing? (quote ≠ '\x60') quote (inside ++ quote :: after.toList) =
      some (inside, after.toList))
    (htokens : Scan.literal? quote (inside ++ quote :: after.toList) =
      some ⟨kind, quoted.toList, after.toList⟩) : Transparent quoted kind after where
  withoutComments_eq := Source.withoutComments_quoted hq ht hmarks
  statementEnd_eq := Source.statementEnd_quoted hq ht hmarks
  begins := Token.begins_of_literal? hq ht htokens

namespace Dialect

/-- Of any text, the name or the string that MySQL quotes it as is read back as that text, whatever
follows it but the quote itself. -/
theorem transparent_mysql (value after : String) :
    (after.toList.head? ≠ some '\x60' →
        Transparent (mysql.quoteName value) (.quotedName value) after) ∧
      (after.toList.head? ≠ some '\x27' →
        Transparent (mysql.quoteString value) (.string value) after) := by
  constructor
  · intro hafter
    have hclose : closing? false '\x60' (double '\x60' value.toList ++ '\x60' :: after.toList) =
        some (double '\x60' value.toList, after.toList) :=
      closing?_double (by simp) (by simp) hafter
    have ht : (mysql.quoteName value).toList =
        '\x60' :: (double '\x60' value.toList ++ ['\x60']) := String.toList_ofList
    refine .of_closing? (by decide) ht hclose ?_
    simp [Scan.literal?, hclose, undouble_double, ht]
  · intro hafter
    have hclose := @closing?_escaped value.toList after.toList hafter
    have ht : (mysql.quoteString value).toList =
        '\x27' :: (double '\x27' (double '\\' value.toList) ++ ['\x27']) := String.toList_ofList
    refine .of_closing? (by decide) ht hclose ?_
    simp [Scan.literal?, hclose, unescape_escaped, ht]

theorem transparent_mysql_quotes :
    Transparent (mysql.quoteName "`\\'-- ;\n") (.quotedName "`\\'-- ;\n") "\\'; -- `" ∧
      Transparent (mysql.quoteString "\\'';\n\\") (.string "\\'';\n\\") "`' #" :=
  ⟨(transparent_mysql _ _).1 (by decide), (transparent_mysql _ _).2 (by decide)⟩

end Dialect

end SqlTables
