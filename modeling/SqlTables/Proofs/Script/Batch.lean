import SqlTables.Proofs.Schema.Validity
import SqlTables.Proofs.Script.Whole
import SqlTables.Proofs.Unplaced

/-! A script for many tables divides into their definitions, and each of these is read as the script
of its table is. -/

namespace SqlTables

open Source Lexeme

variable {o : Options} {t : Table} {ts : List Table}

/-- Whether the head of a script and its character set leave the script in one piece. -/
structure Options.Separable (o : Options) : Prop where
  dialect : o.dialect = .mysql
  version : '\n' ∉ o.version.toList
  generatedAt : ∀ time, o.generatedAt = some time → '\n' ∉ time.toList
  charset : o.includeCharset = true → Bare o.charset ∧ Bare o.collation

namespace Creation

def kept : Script.Statement → List Source.Statement
  | .createTable c => [⟨(c.render .mysql).toList, false⟩]
  | _ => []

def Divided (s : Script.Statement) : Prop := Divides (s.render .mysql).toList (kept s)

theorem divided_note {text : String} (h : '\n' ∉ text.toList) : Divided (.note text) := by
  have htext : ((Script.Statement.note text).render .mysql).toList =
      '-' :: '-' :: (' ' :: text.toList) := by
    change ("-- " ++ text).toList = _
    simp
  rw [Divided, htext]
  exact divides_note (by simpa using h)

theorem separated_semicolon (after : List Char) : Separated (';' :: after) := by
  intro c hc
  cases hc
  decide

theorem divides_other {c : Char} {w cs : List Char} (hh : (w ++ ' ' :: cs).head? = some c)
    (hc : Text.isBlank c = false) (hw : w.all isWordChar = true)
    (hn : Text.foldCase w ≠ "CREATE".toList) (h : Whole (w ++ ' ' :: cs)) :
    Divides (w ++ ' ' :: cs ++ [';']) [] := by
  have hdivides := divides_statement hh hc (h [';'] (separated_semicolon []))
  have hother : isTableDefinition (w ++ ' ' :: cs ++ [';']) = false := by
    rw [List.append_assoc]
    exact isTableDefinition_eq_false hw hn (cs ++ [';'])
  rwa [hother, if_neg (by simp)] at hdivides

theorem divided_createTable (ho : o.dialect = .mysql) (h : t.Separable o) :
    Divided (.createTable (createTable o t)) := by
  have hdefinition : isTableDefinition
      ("CREATE TABLE ".toList ++ (body (createTable o t)).toList ++ [';']) = true := by
    rw [List.append_assoc]
    exact isTableDefinition_createTable ((body (createTable o t)).toList ++ [';'])
  have hdivides := divides_statement rfl (by decide)
    (whole_createTable ho h [';'] (separated_semicolon []))
  rw [hdefinition, if_pos rfl, ← toList_render_createTable] at hdivides
  exact hdivides

theorem divided_dropTable (name : String) : Divided (.dropTable name true) := by
  have hwords : Inert "DROP TABLE IF EXISTS ".toList := by decide
  have hwhole := (hwords.append (whole_quoteName name)).whole
  have htext : "DROP TABLE IF EXISTS ".toList =
      "DROP".toList ++ ' ' :: "TABLE IF EXISTS ".toList := rfl
  rw [Divided, render_dropTable, String.toList_append, String.toList_append, htext,
    List.append_assoc "DROP".toList, List.cons_append]
  rw [htext, List.append_assoc, List.cons_append] at hwhole
  exact divides_other rfl (by decide) (by decide) (by decide) hwhole

theorem divided_setNames {charset collation : String} (hcs : Bare charset) (hco : Bare collation) :
    Divided (.setNames charset collation) := by
  have hnames : Inert "NAMES ".toList := by decide
  have hset : Inert "SET ".toList := by decide
  have hcollate : Inert " COLLATE ".toList := by decide
  have hwhole := (hset.append (hnames.append ((whole_of_bare hcs).append
    (hcollate.append (whole_of_bare hco)))).whole).whole
  have htext : ((Script.Statement.setNames charset collation).render .mysql).toList =
      "SET".toList ++ ' ' :: ("NAMES ".toList ++ (charset.toList ++ (" COLLATE ".toList ++
        collation.toList))) ++ [';'] := by
    change ("SET NAMES " ++ charset ++ " COLLATE " ++ collation ++ ";").toList = _
    simp only [String.toList_append, List.append_assoc, List.cons_append]
    rfl
  rw [Divided, htext]
  exact divides_other rfl (by decide) (by decide) (by decide) hwhole

theorem divided_foreignKeyChecks (enabled : Bool) : Divided (foreignKeyChecks enabled) := by
  have hwords : Inert ("SET".toList ++ ' ' :: ("FOREIGN_KEY_CHECKS = ".toList ++
      (if enabled then "1" else "0").toList)) := by
    cases enabled <;> decide
  have hdivides := divides_other rfl (by decide) (by decide) (by decide) hwords.trailing.whole
  cases enabled <;> exact hdivides

theorem divides_render (ss : List Script.Statement) (h : ∀ s ∈ ss, Divided s) :
    Divides (Script.render .mysql ss).toList (ss.flatMap kept) := by
  have hlines := divides_intercalate h
  rw [Script.render, String.toList_intercalate, List.map_map]
  exact hlines

theorem divided_notes {notes : List String} (h : ∀ n ∈ notes, '\n' ∉ n.toList) :
    ∀ s ∈ notes.map Script.Statement.note, Divided s := by
  intro s hs
  obtain ⟨n, hn, rfl⟩ := List.mem_map.1 hs
  exact divided_note (h n hn)

theorem flatMap_kept_notes (notes : List String) :
    (notes.map Script.Statement.note).flatMap kept = [] := by
  simp [List.flatMap_map, kept]

def headerNotes (o : Options) (count : Nat) : List String :=
  ["----------------------------", "Target: " ++ o.dialect.title ++ " " ++ o.version,
    "Tables: " ++ toString count]
    ++ o.generatedAt.toList.map ("Generated at: " ++ ·)
    ++ ["----------------------------"]

theorem newline_notMem_headerNotes (ho : o.Separable) (count : Nat) :
    ∀ n ∈ headerNotes o count, '\n' ∉ n.toList := by
  have hcount : '\n' ∉ ("Tables: " ++ toString count).toList := by
    rw [String.toList_append, List.mem_append, not_or]
    exact ⟨by decide, fun hm => absurd (isDigit_toString count '\n' hm) (by decide)⟩
  intro n hn
  simp only [headerNotes, ho.dialect, List.mem_append, List.mem_cons, List.not_mem_nil, or_false,
    List.mem_map, Option.mem_toList] at hn
  rcases hn with ((rfl | rfl | rfl) | ⟨time, htime, rfl⟩) | rfl
  · decide
  · simp [ho.version, Dialect.title]
  · exact hcount
  · simp [ho.generatedAt time htime]
  · decide

theorem divides_header (ho : o.Separable) (count : Nat) :
    Divides (Script.render .mysql (header o count)).toList [] := by
  have hnotes : header o count = (headerNotes o count).map .note := by
    simp [header, headerNotes, rule, Function.comp_def]
  rw [hnotes, ← flatMap_kept_notes (headerNotes o count)]
  exact divides_render _ (divided_notes (newline_notMem_headerNotes ho count))

theorem divides_prologue (ho : o.Separable) :
    Divides (Script.render .mysql (prologue o)).toList [] := by
  have hdivided : ∀ s ∈ prologue o, Divided s := by
    unfold prologue
    cases hc : o.includeCharset with
    | false => simp [divided_foreignKeyChecks]
    | true =>
      have hbare := ho.charset hc
      simp [divided_foreignKeyChecks, divided_setNames hbare.1 hbare.2]
  have hkept : (prologue o).flatMap kept = [] := by
    unfold prologue
    split_ifs <;> rfl
  rw [← hkept]
  exact divides_render _ hdivided

theorem divides_tableScript (ho : o.dialect = .mysql) (h : t.Separable o) :
    Divides (tableScript o t).toList
      [⟨((createTable o t).render .mysql).toList, false⟩] := by
  have hdivided : ∀ s ∈ statements o t, Divided s := by
    intro s hs
    rw [statements_eq ho, List.mem_append, List.mem_append, List.mem_singleton] at hs
    rcases hs with (hs | hs) | rfl
    · exact divided_notes (newline_notMem_headingNotes h.name) s hs
    · rw [List.mem_singleton.1 (List.mem_ite_nil_right.1 hs).2]
      exact divided_dropTable t.name
    · exact divided_createTable ho h
  have hkept : (statements o t).flatMap kept =
      [⟨((createTable o t).render .mysql).toList, false⟩] := by
    rw [statements_eq ho, List.flatMap_append, List.flatMap_append, flatMap_kept_notes]
    split_ifs <;> rfl
  rw [← hkept, tableScript, ho]
  exact divides_render _ hdivided

theorem statements_sections {α : Type} {f : α → List Char} {g : α → List Source.Statement}
    {xs : List α} (h : ∀ x ∈ xs, Divides (f x) (g x)) (after : List Char) :
    Source.statements (blank (xs.flatMap (fun x => f x ++ ['\n', '\n']) ++ after)) =
      xs.flatMap g ++ Source.statements (blank after) := by
  induction xs with
  | nil => rfl
  | cons x xs ih =>
    rw [List.forall_mem_cons] at h
    have hblank := divides_nil (xs.flatMap (fun x => f x ++ ['\n', '\n']) ++ after)
    have htext : (x :: xs).flatMap (fun x => f x ++ ['\n', '\n']) ++ after =
        f x ++ '\n' :: ([] ++ '\n' :: (xs.flatMap (fun x => f x ++ ['\n', '\n']) ++ after)) := by
      simp
    rw [htext, h.1, hblank, ih h.2, List.nil_append, List.flatMap_cons, List.append_assoc]

def keptSections (o : Options) (ts : List Table) : List (String × List Source.Statement) :=
  [(Script.render .mysql (header o ts.length), []), (Script.render .mysql (prologue o), [])]
    ++ ts.map fun t => (tableScript o t, [⟨((createTable o t).render .mysql).toList, false⟩])

theorem sections_eq (ho : o.dialect = .mysql) (ts : List Table) : sections o ts =
    (keptSections o ts).map (·.1) ++ [Script.render .mysql [foreignKeyChecks true]] := by
  simp [sections, keptSections, ho, Function.comp_def]

theorem statements_batch (ho : o.Separable) (hts : ∀ t ∈ ts, t.Separable o) :
    Source.statements (blank ("\n\n".intercalate (sections o ts)).toList) =
      ts.map fun t => ⟨((createTable o t).render .mysql).toList, false⟩ := by
  have hsections : ∀ x ∈ keptSections o ts, Divides x.1.toList x.2 := by
    intro x hx
    simp only [keptSections, List.mem_append, List.mem_cons, List.not_mem_nil, or_false,
      List.mem_map] at hx
    rcases hx with (rfl | rfl) | ⟨t, ht, rfl⟩
    · exact divides_header ho ts.length
    · exact divides_prologue ho
    · exact divides_tableScript ho.dialect (hts t ht)
  have hlast :
      Source.statements (blank (Script.render .mysql [foreignKeyChecks true]).toList) = [] := by
    decide
  have hkept : (keptSections o ts).flatMap (·.2) =
      ts.map fun t => ⟨((createTable o t).render .mysql).toList, false⟩ := by
    simp [keptSections, List.flatMap_map, ← List.map_eq_flatMap]
  have hall := statements_sections hsections
    (Script.render .mysql [foreignKeyChecks true]).toList
  rw [hlast, List.append_nil, hkept] at hall
  rw [String.toList_intercalate, sections_eq ho.dialect, List.map_append, List.map_singleton,
    intercalate_append_singleton, List.map_map, List.flatMap_map]
  exact hall

theorem textOf_createLexemes (gap : List Char) (o : Options) (t : Table) :
    textOf (createLexemes gap o t) = gap ++ (dropLine o t ++ "CREATE".toList) := by
  rw [dropLine, render_dropTable]
  unfold createLexemes
  split_ifs <;> simp [textOf_words, word, name, Lexeme.mark]

theorem uncommented_statement {cs : List Char} (h : Whole cs) (after : List Char) :
    Uncommented (cs ++ [';']) after := by
  have hbody : Uncommented cs ([';'] ++ after) := (h _ (separated_semicolon after)).uncommented
  exact hbody.append (uncommented_of_plain (List.all_eq_true.1 (by decide)) after)

theorem uncommented_definition (ho : o.dialect = .mysql) (h : t.Separable o) :
    Uncommented (dropLine o t ++ ((createTable o t).render .mysql).toList) [] := by
  have hcreate : Uncommented ((createTable o t).render .mysql).toList [] := by
    rw [toList_render_createTable]
    exact uncommented_statement (whole_createTable ho h) []
  have hdrop (after : List Char) : Uncommented
      (((Script.Statement.dropTable t.name true).render .mysql).toList ++ ['\n']) after := by
    have hwords : Inert "DROP TABLE IF EXISTS ".toList := by decide
    have hstatement := uncommented_statement (hwords.append (whole_quoteName t.name)).whole
    rw [render_dropTable, String.toList_append, String.toList_append]
    exact (hstatement _).append (uncommented_of_plain (List.all_eq_true.1 (by decide)) after)
  rw [dropLine, ho]
  split_ifs
  · exact (hdrop _).append hcreate
  · rwa [List.nil_append]

theorem afterCreateTable?_append {skipped : List Token}
    (h : ∀ u ∈ skipped, u.kind ≠ .eof ∧ u.isKeyword "CREATE" = false) (rest : List Token) :
    Draft.afterCreateTable? (skipped ++ rest) = Draft.afterCreateTable? rest := by
  induction skipped with
  | nil => rfl
  | cons u us ih =>
    rw [List.forall_mem_cons] at h
    rw [List.cons_append, Draft.afterCreateTable?, if_neg h.1.1, h.1.2, if_neg (by simp), ih h.2]

theorem afterCreateTable?_congr {u v : Token} (hu : u.isKeyword "CREATE" = true)
    (hv : v.isKeyword "CREATE" = true) (rest : List Token) :
    Draft.afterCreateTable? (u :: rest) = Draft.afterCreateTable? (v :: rest) := by
  rw [Draft.afterCreateTable?, if_neg (Declaration.ne_eof_of_isKeyword hu), if_pos hu,
    Draft.afterCreateTable?, if_neg (Declaration.ne_eof_of_isKeyword hv), if_pos hv]

theorem tokensAt_createLexemes (gap : List Char) (o : Options) (t : Table) (p : Text.Position) :
    ∃ skipped u, tokensAt p (createLexemes gap o t) = skipped ++ [u] ∧
      (∀ v ∈ skipped, v.kind ≠ .eof ∧ v.isKeyword "CREATE" = false) ∧
      u.isKeyword "CREATE" = true := by
  unfold createLexemes
  split_ifs
  · refine ⟨[_, _, _, _, _, _], _, rfl, ?_, rfl⟩
    simp only [List.forall_mem_cons]
    refine ⟨⟨?_, rfl⟩, ⟨?_, rfl⟩, ⟨?_, rfl⟩, ⟨?_, rfl⟩, ⟨?_, rfl⟩, ⟨?_, rfl⟩, by simp⟩
    all_goals exact TokenKind.noConfusion
  · exact ⟨[], _, rfl, by simp, rfl⟩

theorem afterCreateTable?_createLexemes (gap : List Char) (o : Options) (t : Table)
    (p q : Text.Position) (rest : List Token) :
    Draft.afterCreateTable? (tokensAt p [word [] "CREATE"] ++ rest) =
      Draft.afterCreateTable? (tokensAt q (createLexemes gap o t) ++ rest) := by
  obtain ⟨skipped, u, htokens, hskipped, hu⟩ := tokensAt_createLexemes gap o t q
  rw [htokens, List.append_assoc, afterCreateTable?_append hskipped]
  exact afterCreateTable?_congr rfl hu rest

theorem sameButPlaces_of_createLexemes {gap c : List Char} {text text' : String}
    (hn : o.dialect.Quotes t.name) (hg : Scan.Gap gap)
    (h : text.toList = textOf [word [] "CREATE"] ++ ' ' :: c)
    (h' : text'.toList = textOf (createLexemes gap o t) ++ ' ' :: c) :
    SameButPlaces (Table.parseStatement text) (Table.parseStatement text') := by
  have hdelimited : Scan.Delimited (' ' :: c) := Scan.delimited_cons.2 (by decide)
  have hcreate : Tight [word [] "CREATE"] := tight_word (by decide) gap_nil
  have hscan := (hcreate _ hdelimited).scans .start
  have hscan' := (tight_createLexemes hn hg _ hdelimited).scans .start
  rw [← h] at hscan
  rw [← h'] at hscan'
  exact Table.parseStatement_congr hscan hscan'
    (afterCreateTable?_createLexemes gap o t .start .start)

theorem sameButPlaces_parse (ho : o.dialect = .mysql) (h : t.Separable o) :
    SameButPlaces (Table.parseStatement ((createTable o t).render .mysql))
      (Table.parse (tableScript o t)) := by
  obtain ⟨gap, hgap, hblank⟩ := blank_noteLines (newline_notMem_headingNotes (o := o) h.name)
    (dropLine o t ++ ((createTable o t).render .mysql).toList)
  have hcreate : "CREATE TABLE ".toList = "CREATE".toList ++ ' ' :: "TABLE ".toList := rfl
  have hword : textOf [word [] "CREATE"] = "CREATE".toList := rfl
  refine sameButPlaces_of_createLexemes (o := o) (t := t)
    (c := "TABLE ".toList ++ (body (createTable o t)).toList ++ [';'])
    (ho ▸ Dialect.quotes_mysql t.name) hgap ?_ ?_
  · rw [toList_render_createTable, hcreate, hword]
    simp only [List.append_assoc, List.cons_append]
  · rw [Source.withoutComments, String.toList_ofList, toList_tableScript ho, hblank,
      blank_of_uncommented (uncommented_definition ho h), textOf_createLexemes,
      toList_render_createTable, hcreate]
    simp only [List.append_assoc, List.cons_append]

end Creation

namespace Table

/-- A script divides into one result for each of its tables, which is that of the table's own
script but for the places that an error gives. -/
theorem parseScript_batch (ho : o.Separable) (hts : ∀ t ∈ ts, t.Separable o) :
    ∃ script, Creation.batch o ts = .ok script ∧
      List.Forall₂ (fun result t => ∃ sql, Creation.single o t = .ok sql ∧
        SameButPlaces result (parse sql)) (parseScript script) ts := by
  have hfault : Creation.batchFault? ts = none := by
    rw [Creation.batchFault?, List.findSome?_eq_none_iff]
    exact fun t ht => fault?_of_validate (hts t ht).valid
  refine ⟨"\n\n".intercalate (Creation.sections o ts), ?_, ?_⟩
  · rw [Creation.batch, hfault]
  · rw [parseScript, Creation.statements_batch ho hts, List.map_map, List.forall₂_map_left_iff,
      List.forall₂_same]
    intro t ht
    have hsingle : Creation.single o t = .ok (Creation.tableScript o t) := by
      rw [Creation.single, (hts t ht).valid]
    refine ⟨Creation.tableScript o t, hsingle, ?_⟩
    have hparse := Creation.sameButPlaces_parse ho.dialect (hts t ht)
    rw [Function.comp_apply, String.ofList_toList]
    exact hparse

def hostile : List Table := [
  { name := "t`; DROP TABLE u; -- "
    comment := some "*/ it's;\n# \\"
    fields := [
      { name := "CREATE TABLE v (;\n", type := .custom "GEOMETRY", default := some "'); --" },
      { name := "\"", type := .enum, members := ["/*", "a;\n'"], default := some "(1 - 1)",
        onUpdate := some "NOW()", comment := some "`" }]
    indexes := [⟨"k';", .normal, ["\""]⟩]
    foreignKeys := [⟨"--", ["\""], "#", ["/*"], some "SET NULL", none⟩]
    checks := [⟨some ";\n", "1 - 1 < 2 * 3 / 4"⟩] },
  { name := "/*" }]

theorem separable_hostile_fields : ∀ t ∈ hostile, ∀ f ∈ t.fields, f.Separable := by
  simp only [hostile, List.forall_mem_cons, List.not_mem_nil, false_implies, implies_true,
    and_true]
  refine ⟨?_, ?_⟩
  all_goals
    refine ⟨?_, by decide, ?_, ?_⟩
    all_goals
      intro v hv
      cases hv
    all_goals decide +kernel

theorem separable_hostile : ∀ t ∈ hostile, t.Separable {} := by
  have hvalid : ∀ t ∈ hostile, t.validate = .ok () := by decide
  have hname : ∀ t ∈ hostile, '\n' ∉ t.name.toList := by decide
  have hactions : ∀ t ∈ hostile, ∀ k ∈ t.foreignKeys, ∀ a ∈ k.onDelete.toList ++ k.onUpdate.toList,
      Bare a := by decide
  have hchecks : ∀ t ∈ hostile, ∀ c ∈ t.checks, Bare c.expression := by decide
  have hsettings : ∀ t ∈ hostile, ∀ v ∈ t.bareSettings {}, Bare v := by decide
  intro t ht
  refine ⟨hvalid t ht, hname t ht, separable_hostile_fields t ht, fun k hk a ha => ?_,
    hchecks t ht, hsettings t ht⟩
  exact hactions t ht k hk a (by simpa using ha)

theorem separable_options : Options.Separable {} :=
  ⟨rfl, by decide, by simp, by decide⟩

theorem parseScript_batch_hostile :
    Options.Separable {} ∧ (∀ t ∈ hostile, t.Separable {}) ∧
      ∃ script, Creation.batch {} hostile = .ok script ∧
        List.Forall₂ (fun result t => ∃ sql, Creation.single {} t = .ok sql ∧
          SameButPlaces result (parse sql)) (parseScript script) hostile :=
  ⟨separable_options, separable_hostile, parseScript_batch separable_options separable_hostile⟩

end Table

end SqlTables
