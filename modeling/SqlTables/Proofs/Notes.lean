import SqlTables.Proofs.RoundTrip.Listing
import SqlTables.Proofs.Source.Ending
import SqlTables.Proofs.Token.Kinds

/-! Notes in the script of a table. One of them has the name of the table in it, as it is. A script
with notes has the tokens of the script without them if that line is a comment and nothing else, as
it is for every name that has no line feed, and for any other name it has not. -/

namespace SqlTables

open Lexeme
open Scan (Gap isGap continuesWord scanFrom)
open Source (OnlyComments blank blankFrom blockEnd modeAfter)

variable {t : Table} {o : Options} {name : String} {cs : List Char}

structure Table.WithoutComments (t : Table) : Prop where
  table : t.comment = none
  fields : ∀ f ∈ t.fields, f.comment = none

def ruleLine : List Char := noteLine "----------------------------"

def titleLine (name : String) : List Char := noteLine (name ++ " 表结构")

def statementText (o : Options) (t : Table) : List Char :=
  dropLine o t ++ (((Creation.createTable o t).render o.dialect).toList ++
    (trailing o t).flatMap fun s => '\n' :: (s.render o.dialect).toList)

theorem createTable_includeComments (h : t.WithoutComments) (o : Options) (notes : Bool) :
    Creation.createTable { o with includeComments := notes } t = Creation.createTable o t := by
  have hcolumns : t.fields.map (Creation.columnDefinition { o with includeComments := notes } t) =
      t.fields.map (Creation.columnDefinition o t) := by
    refine List.map_congr_left fun f hf => ?_
    have hcomment : (Creation.effectiveField o f).comment = none := h.fields f hf
    have hoptions : Creation.columnOptions { o with includeComments := notes } t
          (Creation.effectiveField o f) =
        Creation.columnOptions o t (Creation.effectiveField o f) := by
      simp only [Creation.columnOptions, hcomment]
      split <;> simp [Creation.inlinesPrimaryKey]
    exact congrArg (fun xs => { Creation.columnDefinition o t f with options := xs }) hoptions
  have hsettings : Creation.tableOptions { o with includeComments := notes } t =
      Creation.tableOptions o t := by
    simp [Creation.tableOptions, h.table]
  simp only [Creation.createTable, hcolumns, hsettings]
  rfl

theorem trailing_includeComments (h : t.WithoutComments) (o : Options) (notes : Bool) :
    trailing { o with includeComments := notes } t = trailing o t := by
  have hnone := commentStatements_eq_nil h.table h.fields
  rw [trailing, trailing, hnone, hnone]
  rfl

theorem toList_tableScript_includeComments (h : t.WithoutComments) (o : Options) (notes : Bool) :
    (Creation.tableScript { o with includeComments := notes } t).toList =
      (if notes then ruleLine ++ (titleLine t.name ++ ruleLine) else []) ++ statementText o t := by
  rw [toList_tableScript_trailing, createTable_includeComments h, trailing_includeComments h]
  cases notes <;> simp [headingNotes, ruleLine, titleLine, statementText, dropLine]

def kindsOf (cs : List Char) : Option (List TokenKind) := (scanFrom .start (blank cs)).kinds?

theorem getLast?_noteLine (note : String) : (noteLine note).getLast? = some '\n' :=
  List.getLast?_concat

theorem getLast?_titleLine (name : String) : (titleLine name).getLast? = some '\n' :=
  getLast?_noteLine _

theorem onlyComments_noteLine {note : String} (h : '\n' ∉ note.toList) :
    OnlyComments (noteLine note) :=
  Source.onlyComments_lineComment (by simpa using h)

theorem onlyComments_ruleLine : OnlyComments ruleLine := onlyComments_noteLine (by decide)

theorem kindsOf_onlyComments_append (h : OnlyComments cs) (hl : cs.getLast? = some '\n')
    (after : List Char) : kindsOf (cs ++ after) = kindsOf after := by
  rw [kindsOf, h.blank_append hl, Scan.kinds?_gap_append h.1]
  rfl

theorem kindsOf_heading (h : OnlyComments (titleLine name)) (after : List Char) :
    kindsOf (ruleLine ++ (titleLine name ++ ruleLine) ++ after) = kindsOf after := by
  rw [List.append_assoc, List.append_assoc,
    kindsOf_onlyComments_append onlyComments_ruleLine (getLast?_noteLine _),
    kindsOf_onlyComments_append h (getLast?_titleLine name),
    kindsOf_onlyComments_append onlyComments_ruleLine (getLast?_noteLine _)]

theorem kindsOf_title (name : String) (after : List Char) :
    kindsOf (ruleLine ++ (titleLine name ++ ruleLine) ++ after) =
      (scanFrom .start (blank (titleLine name) ++
        blankFrom (modeAfter .code (titleLine name)) (ruleLine ++ after))).kinds? := by
  rw [List.append_assoc, List.append_assoc,
    kindsOf_onlyComments_append onlyComments_ruleLine (getLast?_noteLine _), kindsOf,
    Source.blank_line (getLast?_titleLine name)]

def bareOptions (drop ifNotExists : Bool) : Options where
  includeDropTable := drop
  includeIfNotExists := ifNotExists
  includeCharset := false

def bareTable (name : String) : Table := { name := name }

theorem withoutComments_bareTable (name : String) : (bareTable name).WithoutComments :=
  ⟨rfl, by simp [bareTable]⟩

def bareLexemes (drop ifNotExists : Bool) (name : String) : List Lexeme :=
  definitionLexemes [] (bareOptions drop ifNotExists) (bareTable name) []

theorem statementText_bareTable (drop ifNotExists : Bool) (name : String) :
    statementText (bareOptions drop ifNotExists) (bareTable name) =
      textOf (bareLexemes drop ifNotExists name) := by
  have htext : textOf (bareLexemes drop ifNotExists name) = _ := textOf_definition rfl
  rw [htext, statementText, trailing_eq_nil rfl, List.flatMap_nil, List.append_nil]

theorem kindsOf_bareTable (drop ifNotExists : Bool) (name : String) :
    kindsOf (statementText (bareOptions drop ifNotExists) (bareTable name)) =
      some ((bareLexemes drop ifNotExists name).map (·.kind)) := by
  have hsets : ∀ s ∈ Creation.tableOptions (bareOptions drop ifNotExists) (bareTable name),
      Sets (settingLexemes s) (settingOf s) := by
    intro s hs
    obtain rfl : s = .engine "InnoDB" := List.mem_singleton.1 hs
    refine sets_settingLexemes fun v hv => ?_
    obtain rfl : "InnoDB" = v := Option.some.inj hv
    decide
  have htight : Tight (bareLexemes drop ifNotExists name) :=
    tight_definitionLexemes (by simp) hsets (Dialect.quotes_mysql name) gap_nil
  rw [statementText_bareTable]
  exact (htight [] (by simp)).kinds?_eq

theorem exists_statementText_bareTable (name : String) : ∃ rest, ∀ ifNotExists : Bool,
    statementText (bareOptions false ifNotExists) (bareTable name) =
      ("CREATE TABLE " ++ if ifNotExists then "IF NOT EXISTS " else "").toList ++
        '\x60' :: rest := by
  have hquoted : (Dialect.mysql.quoteName name).toList =
      '\x60' :: (Dialect.double '\x60' name.toList ++ ['\x60']) := by
    simp [Dialect.quoteName, Dialect.enclose]
  refine ⟨(Dialect.double '\x60' name.toList ++ ['\x60']) ++ (" (" ++ ",".intercalate [] ++ "\n)" ++
    String.join [" " ++ (Script.TableOption.engine "InnoDB").render .mysql] ++ ";").toList, ?_⟩
  intro ifNotExists
  have hdrop : dropLine (bareOptions false ifNotExists) (bareTable name) = [] := rfl
  have hcreate : Creation.createTable (bareOptions false ifNotExists) (bareTable name) =
      ⟨name, ifNotExists, [], [], [.engine "InnoDB"]⟩ := rfl
  have hdialect : (bareOptions false ifNotExists).dialect = .mysql := rfl
  rw [statementText, trailing_eq_nil hdialect, hdrop, hcreate, hdialect, render_createTable]
  simp only [List.map_nil, List.append_nil, List.map_cons, String.toList_append, hquoted,
    List.append_assoc, List.cons_append, List.flatMap_nil, List.nil_append]

theorem newline_mem_of_blank {g r : List Char} {c : Char} (hl : cs.getLast? = some '\n')
    (h : blank cs = g ++ c :: r) (hc : isGap c = false) : '\n' ∈ r := by
  have hlast : (blank cs).getLast? = some '\n' := by
    have hfst := Source.map_fst_markFrom true .code cs
    rw [← hfst, List.getLast?_map, Option.map_eq_some_iff] at hl
    obtain ⟨⟨d, region⟩, hm, rfl⟩ := hl
    rw [Source.blank, Source.mark, List.getLast?_map, hm]
    simp [Source.blankChar]
  rw [h, List.getLast?_append_of_ne_nil _ (by simp)] at hlast
  cases r with
  | nil =>
    obtain rfl : c = '\n' := by simpa using hlast
    cases hc
  | cons d r =>
    rw [List.getLast?_cons_cons] at hlast
    exact List.mem_of_getLast? hlast

theorem takeWhile_line {r : List Char} (h : '\n' ∈ r) (after : List Char) :
    (r ++ after).takeWhile continuesWord = r.takeWhile continuesWord := by
  obtain ⟨as, bs, rfl⟩ := List.append_of_mem h
  have hline (rest : List Char) : (as ++ '\n' :: rest).takeWhile continuesWord =
      as.takeWhile continuesWord :=
    (Scan.takeWhile_append (Scan.delimited_cons.2 (by decide)) (by decide) as).1
  rw [List.append_assoc, List.cons_append, hline, hline]

section

variable (h : ∀ drop ifNotExists : Bool,
  kindsOf (ruleLine ++ (titleLine name ++ ruleLine) ++
      statementText (bareOptions drop ifNotExists) (bareTable name)) =
    kindsOf (statementText (bareOptions drop ifNotExists) (bareTable name)))

include h

theorem gap_blank_titleLine : Gap (blank (titleLine name)) := by
  by_contra hgap
  have hfirst : Gap ((blank (titleLine name)).takeWhile isGap) :=
    fun _ => List.mem_takeWhile_imp
  have happ := List.takeWhile_append_dropWhile (p := isGap) (l := blank (titleLine name))
  cases hdrop : (blank (titleLine name)).dropWhile isGap with
  | nil => exact hgap (List.dropWhile_eq_nil_iff.1 hdrop)
  | cons c r =>
    have hc : isGap c = false := Scan.isGap_of_dropWhile hdrop
    rw [hdrop] at happ
    have hline := newline_mem_of_blank (getLast?_titleLine name) happ.symm hc
    have hword (drop : Bool) (w : String) (ks : List TokenKind)
        (hk : (bareLexemes drop false name).map (·.kind) = .word w :: ks) :
        w = String.ofList (c :: r.takeWhile continuesWord) := by
      have hkinds := h drop false
      rw [kindsOf_title, kindsOf_bareTable, hk, ← happ, List.append_assoc,
        List.cons_append] at hkinds
      rw [Scan.eq_of_kinds?_eq_word hfirst hc hkinds, takeWhile_line hline]
    have hboth := (hword true "DROP" _ rfl).trans (hword false "CREATE" _ rfl).symm
    exact absurd hboth (by decide)

theorem onlyComments_titleLine : OnlyComments (titleLine name) := by
  by_contra hc
  have hgap := gap_blank_titleLine h
  have hmode := Source.modeAfter_eq_blockComment (getLast?_titleLine name) hgap hc
  obtain ⟨rest, hrest⟩ := exists_statementText_bareTable name
  have hkinds (ifNotExists : Bool) : some ((bareLexemes false ifNotExists name).map (·.kind)) =
      (scanFrom .start (blankFrom .blockComment ('\x60' :: rest))).kinds? := by
    have hopening : ¬blockEnd <:+: ruleLine ++
        ("CREATE TABLE " ++ if ifNotExists then "IF NOT EXISTS " else "").toList := by
      cases ifNotExists <;> decide
    have hquote : ('\x60' :: rest).head? ≠ some '/' := by simp
    obtain ⟨gap, hg, hblank⟩ := Source.blankFrom_blockComment hopening hquote
    rw [← kindsOf_bareTable, ← h, kindsOf_title, hmode, Scan.kinds?_gap_append hgap, hrest,
      ← List.append_assoc, hblank, Scan.kinds?_gap_append hg]
  have hboth := (hkinds true).trans (hkinds false).symm
  cases hboth

end

namespace Creation

theorem kinds_tableScript_iff (h : t.WithoutComments) (o : Options) :
    Token.kinds (tableScript { o with includeComments := true } t) =
        Token.kinds (tableScript { o with includeComments := false } t) ↔
      kindsOf (ruleLine ++ (titleLine t.name ++ ruleLine) ++ statementText o t) =
        kindsOf (statementText o t) := by
  rw [Token.kinds_eq_iff, toList_tableScript_includeComments h,
    toList_tableScript_includeComments h]
  rfl

theorem onlyComments_of_kinds (h : ∀ o : Options, ∃ noted plain,
    single { o with includeComments := true } (bareTable name) = .ok noted ∧
      single { o with includeComments := false } (bareTable name) = .ok plain ∧
      Token.kinds noted = Token.kinds plain) : OnlyComments (titleLine name) := by
  refine onlyComments_titleLine fun drop ifNotExists => ?_
  have hvalid : (bareTable name).validate = .ok () := rfl
  obtain ⟨noted, plain, hnoted, hplain, hkinds⟩ := h (bareOptions drop ifNotExists)
  rw [single, hvalid, Except.ok.injEq] at hnoted hplain
  rw [← hnoted, ← hplain] at hkinds
  exact (kinds_tableScript_iff (withoutComments_bareTable name) _).1 hkinds

/-- Notes are only comments in the scripts of all tables of a name if the line with the name is only
a comment, and else there is a table whose script has other tokens with them. -/
theorem kinds_single_iff (name : String) :
    ((∀ (t : Table) (o : Options), t.name = name → t.validate = .ok () → t.WithoutComments →
        ∃ noted plain, single { o with includeComments := true } t = .ok noted ∧
          single { o with includeComments := false } t = .ok plain ∧
          Token.kinds noted = Token.kinds plain) ↔ OnlyComments (titleLine name)) ∧
      ('\n' ∉ name.toList → OnlyComments (titleLine name)) := by
  refine ⟨⟨fun h => onlyComments_of_kinds fun o => ?_, ?_⟩, fun hn => ?_⟩
  · exact h (bareTable name) o rfl rfl (withoutComments_bareTable name)
  · rintro hc t o rfl hv ht
    refine ⟨_, _, by rw [single, hv], by rw [single, hv], ?_⟩
    exact (kinds_tableScript_iff ht o).2 (kindsOf_heading hc _)
  · exact onlyComments_noteLine (by simpa using hn)

theorem not_kinds_single : ¬∀ (t : Table) (o : Options), t.validate = .ok () →
    t.WithoutComments → ∃ noted plain, single { o with includeComments := true } t = .ok noted ∧
      single { o with includeComments := false } t = .ok plain ∧
      Token.kinds noted = Token.kinds plain := by
  intro h
  have hc : OnlyComments (titleLine "a\nCREATE TABLE b (c INT);") :=
    onlyComments_of_kinds fun o => h (bareTable _) o rfl (withoutComments_bareTable _)
  exact absurd hc (by decide)

end Creation

end SqlTables
