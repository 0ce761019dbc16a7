import SqlTables.Parse
import SqlTables.Proofs.RoundTrip.Clauses
import SqlTables.Proofs.RoundTrip.Settings

/-! A table's definition as its script has it: what opens it, the lines of its column list and the
settings after that. What is read of it is a draft of the clauses and settings. -/

namespace SqlTables

open Declaration Lexeme
open Text (Position)

variable {o : Options} {t : Table}

def joined : List (List Lexeme) → List Lexeme
  | [] => []
  | l :: ls => l ++ ls.flatMap (mark [] ',' :: ·)

theorem joined_cons_cons (l m : List Lexeme) (ls : List (List Lexeme)) :
    joined (l :: m :: ls) = l ++ mark [] ',' :: joined (m :: ls) := rfl

theorem sealed_joined {ls : List (List Lexeme)} (h : ∀ l ∈ ls, Sealed l) : Sealed (joined ls) := by
  cases ls with
  | nil => exact .nil
  | cons l ls =>
    rw [List.forall_mem_cons] at h
    exact h.1.append (.flatMap fun m hm => (h.2 m hm).tight.sealed_mark (by decide) gap_nil)

theorem textOf_joined (ls : List (List Lexeme)) :
    textOf (joined ls) = [','].intercalate (ls.map textOf) := by
  cases ls with
  | nil => rfl
  | cons l ls =>
    rw [joined, textOf_append, List.map_cons, intercalate_cons, List.flatMap_map, textOf_flatMap]
    rfl

theorem items?_joined {b : List Lexeme × Clause} {bs : List (List Lexeme × Clause)}
    (h : ∀ d ∈ b :: bs, Declares d.1 d.2) {closing : Token} (hc : closing.kind = .rightParen)
    (p : Position) (ts : List Token) :
    ∃ items, items? 0 (tokensAt p (joined ((b :: bs).map (·.1))) ++ closing :: ts) =
      some (items, ts) ∧ Draft.clauses items = .ok ((b :: bs).map (·.2)) := by
  induction bs generalizing b p with
  | nil =>
    have hb := h b (by simp)
    refine ⟨[⟨tokensAt p b.1, closing⟩], ?_, ?_⟩
    · rw [List.map_singleton, joined, List.flatMap_nil, List.append_nil, hb.enclosed p,
        items?_close hc]
      simp [prepend]
    · simp [Draft.clauses, hb.read p, Clause.Reading.clause?, Except.map]
  | cons d bs ih =>
    rw [List.forall_mem_cons] at h
    obtain ⟨items, hitems, hclauses⟩ := ih h.2
      ((p.advance (textOf b.1)).advance (mark [] ',').chars)
    have hcomma (q : Position) : ((mark [] ',').token q).kind = .comma := rfl
    refine ⟨⟨tokensAt p b.1, (mark [] ',').token (p.advance (textOf b.1))⟩ :: items, ?_, ?_⟩
    · rw [List.map_cons, List.map_cons, joined_cons_cons, tokensAt_append, List.append_assoc,
        h.1.enclosed p, tokensAt_cons, List.cons_append, items?_comma (hcomma _),
        ← List.map_cons, hitems]
      simp [prepend]
    · rw [Draft.clauses, h.1.read p]
      simp [Clause.Reading.clause?, hclauses, Except.map]

namespace Draft

theorem foldl_add_columns {cs : List Column}
    (h : ∀ c ∈ cs, ∀ table, c.foreignKeys table = [] ∧ c.checks = []) (d : Draft) :
    (cs.map Clause.column).foldl add d =
      { d with table := { d.table with fields := d.table.fields ++ cs.map (·.field) } } := by
  have hforeign : cs.flatMap (·.foreignKeys d.table.name) = [] :=
    List.flatMap_eq_nil_iff.2 fun c hc => (h c hc _).1
  have hchecks : cs.flatMap (·.checks) = [] :=
    List.flatMap_eq_nil_iff.2 fun c hc => (h c hc d.table.name).2
  rw [foldl_add]
  simp [Function.comp_def, List.flatMap_map, Clause.column?, Clause.primaryKey?,
    Clause.addedIndex?, Clause.foreignKeys, Clause.checks, hforeign, hchecks]

theorem foldl_add_indexes {α : Type} (kind : α → IndexKind) (name : α → Option String)
    (columns : α → List String) (xs : List α) (d : Draft) :
    (xs.map fun x => Clause.index (kind x) (name x) (columns x)).foldl add d =
      { d with
        table := {
          d.table with
          indexes := d.table.indexes ++ xs.map fun x =>
            ⟨(name x).getD (defaultIndexName (kind x) (columns x)), kind x, columns x⟩ } } := by
  rw [foldl_add]
  simp [Function.comp_def, List.flatMap_map, Clause.column?, Clause.primaryKey?,
    Clause.addedIndex?, Clause.foreignKeys, Clause.checks]

theorem foldl_add_foreignKeys {ks : List ForeignKey} (d : Draft) :
    (ks.map fun k => Clause.foreignKey (some k.name) k.fields (reference k)).foldl add d =
      { d with table := { d.table with foreignKeys := d.table.foreignKeys ++ ks } } := by
  rw [foldl_add]
  simp [Function.comp_def, List.flatMap_map, Clause.column?, Clause.primaryKey?,
    Clause.addedIndex?, Clause.foreignKeys, Clause.checks, reference]

theorem foldl_add_checks {cs : List Check} (d : Draft) :
    (cs.map fun c => Clause.check c.name c.expression).foldl add d =
      { d with table := { d.table with checks := d.table.checks ++ cs } } := by
  rw [foldl_add]
  simp [Function.comp_def, List.flatMap_map, Clause.column?, Clause.primaryKey?,
    Clause.addedIndex?, Clause.foreignKeys, Clause.checks]

end Draft

def primaryKeyLines (d : Dialect) (t : Table) : List (List Lexeme × Clause) :=
  if t.primaryKeyFields.isEmpty then []
  else [(primaryKeyLexemes d (keyColumns t), .primaryKey (keyColumns t))]

theorem declares_primaryKeyLines {d : Dialect} (h : ∀ f ∈ t.fields, d.Quotes f.name) :
    ∀ b ∈ primaryKeyLines d t, Declares b.1 b.2 := by
  intro b hb
  rw [primaryKeyLines, List.mem_ite_nil_left, List.mem_singleton] at hb
  obtain ⟨hp, rfl⟩ := hb
  refine declares_primaryKey (by simpa [keyColumns] using hp) fun column hc => ?_
  obtain ⟨f, hf, rfl⟩ := List.mem_map.1 hc
  exact h f (List.mem_filter.1 hf).1

theorem textOf_primaryKeyLines (h : Creation.inlinesPrimaryKey o t = false) (d : Dialect) :
    (primaryKeyLines d t).map (fun b => textOf b.1) =
      (Creation.primaryKey o t).map fun c => lineGap ++ (c.render d).toList := by
  rw [primaryKeyLines, Creation.primaryKey, h, Bool.or_false]
  split_ifs
  · rfl
  · rw [List.map_singleton, List.map_singleton, textOf_primaryKeyLexemes]
    rfl

theorem foldl_add_primaryKeyLines (dialect : Dialect) (t : Table) (d : Draft) :
    ((primaryKeyLines dialect t).map (·.2)).foldl Draft.add d =
      { d with primaryKey := d.primaryKey ++ keyColumns t } := by
  rw [primaryKeyLines]
  split_ifs with hp
  · rw [List.isEmpty_iff] at hp
    simp [keyColumns, hp]
  · rfl

def createLexemes (gap : List Char) (o : Options) (t : Table) : List Lexeme :=
  if o.includeDropTable then word gap "DROP" :: (words ["TABLE", "IF", "EXISTS"]
      ++ ([name o.dialect [' '] t.name] ++ [mark [] ';', word ['\n'] "CREATE"]))
    else [word gap "CREATE"]

def openingLexemes (gap : List Char) (o : Options) (t : Table) : List Lexeme :=
  createLexemes gap o t
    ++ (words (if o.includeIfNotExists then ["TABLE", "IF", "NOT", "EXISTS"] else ["TABLE"])
      ++ ([name o.dialect [' '] t.name] ++ [mark [' '] '(']))

def closingLexemes (o : Options) (t : Table) : List Lexeme :=
  mark ['\n'] ')' :: ((Creation.tableOptions o t).flatMap settingLexemes ++ [mark [] ';'])

def definitionLexemes (gap : List Char) (o : Options) (t : Table)
    (lines : List (List Lexeme × Clause)) : List Lexeme :=
  openingLexemes gap o t ++ (joined (lines.map (·.1)) ++ closingLexemes o t)

theorem sealed_mark {gap : List Char} {c : Char} (hc : c ∈ ['(', ')', ',', ';'])
    (hg : Scan.Gap gap) : Sealed [mark gap c] := Sealed.nil.tight.sealed_mark hc hg

section

variable (hname : o.dialect.Quotes t.name) {gap : List Char} (hg : Scan.Gap gap)

include hname hg

theorem tight_createLexemes : Tight (createLexemes gap o t) := by
  have hcreate : Tight [word ['\n'] "CREATE"] := tight_word (by decide) (by decide)
  have hdrop : Sealed (words ["TABLE", "IF", "EXISTS"]
      ++ ([name o.dialect [' '] t.name] ++ [mark [] ';', word ['\n'] "CREATE"])) :=
    (sealed_words (by decide)).append ((sealed_name hname).append
      (hcreate.sealed_mark (by decide) gap_nil))
  unfold createLexemes
  split_ifs
  · exact (tight_word (by decide) hg : Tight [word gap "DROP"]).append hdrop
  · exact tight_word (by decide) hg

theorem tight_openingLexemes : Tight (openingLexemes gap o t) := by
  have htable : Sealed (words (if o.includeIfNotExists then ["TABLE", "IF", "NOT", "EXISTS"]
      else ["TABLE"])) := by
    split_ifs <;> exact sealed_words (by decide)
  have hopening : Sealed ([name o.dialect [' '] t.name] ++ [mark [' '] '(']) :=
    (sealed_name hname).append (sealed_mark (by decide) gap_space)
  exact (tight_createLexemes hname hg).append (htable.append hopening)

end

variable {lines : List (List Lexeme × Clause)} (hlines : ∀ b ∈ lines, Declares b.1 b.2)
  (hsettings : ∀ s ∈ Creation.tableOptions o t, Sets (settingLexemes s) (settingOf s))

include hlines hsettings in
theorem tight_definitionLexemes (hname : o.dialect.Quotes t.name) {gap : List Char}
    (hg : Scan.Gap gap) : Tight (definitionLexemes gap o t lines) := by
  have hlist : Sealed (joined (lines.map (·.1))) := by
    refine sealed_joined fun l hl => ?_
    obtain ⟨b, hb, rfl⟩ := List.mem_map.1 hl
    exact (hlines b hb).sealed
  have hall : Sealed ((Creation.tableOptions o t).flatMap settingLexemes) :=
    .flatMap fun s hs => (hsettings s hs).sealed
  have hclosing : Sealed (closingLexemes o t) :=
    (hall.append (sealed_mark (by decide) gap_nil)).tight.sealed_mark (by decide) (by decide)
  exact (tight_openingLexemes hname hg).append (hlist.append hclosing)

theorem header?_openingLexemes (gap : List Char) (o : Options) (t : Table) (p : Position)
    (ts : List Token) :
    ∃ opening, Draft.header? (tokensAt p (openingLexemes gap o t) ++ ts) =
      some (t.name, opening, ts) := by
  unfold openingLexemes createLexemes
  split_ifs <;> exact ⟨_, rfl⟩

include hsettings in
theorem tokensAt_closingLexemes (p : Position) (after : List Token) :
    ∃ closing rest, closing.kind = .rightParen ∧
      tokensAt p (closingLexemes o t) ++ after = closing :: rest ∧
      Setting.readAll rest = (Creation.tableOptions o t).map settingOf := by
  have hsemicolon (q : Position) : Setting.readAll ((mark [] ';').token q :: after) = [] := by
    rw [Setting.readAll, if_pos (.inl rfl)]
  rw [closingLexemes, tokensAt_cons, tokensAt_append, List.cons_append, List.append_assoc]
  refine ⟨_, _, rfl, rfl, ?_⟩
  rw [readAll_settingLexemes hsettings, tokensAt_cons, tokensAt_nil,
    List.singleton_append, hsemicolon, List.append_nil]

include hlines hsettings in
theorem read_definitionLexemes (hne : lines ≠ []) (gap : List Char) (p : Position)
    (after : List Token) :
    Draft.read (tokensAt p (definitionLexemes gap o t lines) ++ after) =
      .ok (Draft.ofClauses t.name (lines.map (·.2))
        ((Creation.tableOptions o t).map settingOf)) := by
  -- a list of no lines would be read as one empty item
  obtain ⟨b, bs, rfl⟩ := List.exists_cons_of_ne_nil hne
  rw [definitionLexemes, tokensAt_append, tokensAt_append, List.append_assoc, List.append_assoc]
  obtain ⟨closing, rest, hparen, htokens, hread⟩ := tokensAt_closingLexemes hsettings
    ((p.advance (textOf (openingLexemes gap o t))).advance
      (textOf (joined ((b :: bs).map (·.1))))) after
  obtain ⟨items, hitems, hclauses⟩ := items?_joined hlines hparen
    (p.advance (textOf (openingLexemes gap o t))) rest
  rw [htokens]
  obtain ⟨opening, hheader⟩ := header?_openingLexemes gap o t p
    (tokensAt (p.advance (textOf (openingLexemes gap o t))) (joined ((b :: bs).map (·.1))) ++
      closing :: rest)
  rw [Draft.read, Draft.Definition.read, hheader]
  simp only [hitems, hclauses, hread]

theorem textOf_definitionLexemes (gap : List Char) (o : Options) (t : Table)
    (lines : List (List Lexeme × Clause)) :
    textOf (definitionLexemes gap o t lines) = gap ++ textOf (definitionLexemes [] o t lines) := by
  unfold definitionLexemes openingLexemes createLexemes
  split_ifs <;> simp [word]

theorem render_createTable (d : Dialect) (c : Script.CreateTable) : c.render d =
    "CREATE TABLE " ++ (if c.ifNotExists then "IF NOT EXISTS " else "") ++ d.quoteName c.table
      ++ " (" ++ ",".intercalate ((c.columns.map (·.render d) ++
        c.constraints.map (·.render d)).map ("\n\t" ++ ·))
      ++ "\n)" ++ String.join (c.options.map fun o => " " ++ o.render d) ++ ";" := rfl

theorem render_dropTable (d : Dialect) (table : String) :
    (Script.Statement.dropTable table true).render d =
      "DROP TABLE IF EXISTS " ++ d.quoteName table ++ ";" := rfl

def dropLine (o : Options) (t : Table) : List Char :=
  if o.includeDropTable then
    ((Script.Statement.dropTable t.name true).render o.dialect).toList ++ ['\n']
  else []

theorem textOf_tableOptions (o : Options) (t : Table) :
    textOf ((Creation.tableOptions o t).flatMap settingLexemes) =
      (String.join ((Creation.tableOptions o t).map
        fun s => " " ++ s.render o.dialect)).toList := by
  by_cases ho : o.dialect = .mysql
  · rw [textOf_flatMap_settingLexemes, ho]
  · rw [Creation.tableOptions, if_pos ho]
    rfl

theorem textOf_definition (h : lines.map (fun b => textOf b.1) =
      ((Creation.createTable o t).columns.map (·.render o.dialect) ++
        (Creation.createTable o t).constraints.map (·.render o.dialect)).map
          fun s => ("\n\t" ++ s).toList) :
    textOf (definitionLexemes [] o t lines) =
      dropLine o t ++ ((Creation.createTable o t).render o.dialect).toList := by
  have hlist : textOf (joined (lines.map (·.1))) =
      (",".intercalate (((Creation.createTable o t).columns.map (·.render o.dialect) ++
        (Creation.createTable o t).constraints.map (·.render o.dialect)).map
          ("\n\t" ++ ·))).toList := by
    rw [textOf_joined, List.map_map, String.toList_intercalate, List.map_map]
    simp only [Function.comp_def]
    rw [h]
    rfl
  have hexists : (Creation.createTable o t).ifNotExists = o.includeIfNotExists := rfl
  have hname : (Creation.createTable o t).table = t.name := rfl
  have hoptions : (Creation.createTable o t).options = Creation.tableOptions o t := rfl
  rw [definitionLexemes, textOf_append, textOf_append, hlist, closingLexemes, textOf_cons,
    textOf_append, textOf_tableOptions, render_createTable, dropLine, render_dropTable, hexists,
    hname, hoptions]
  unfold openingLexemes createLexemes
  split_ifs <;> simp [textOf_words, word, name, mark]

def headingNotes (o : Options) (t : Table) : List String :=
  if o.includeComments then
    ["----------------------------", t.name ++ " 表结构", "----------------------------"]
  else []

def noteLine (note : String) : List Char := '-' :: '-' :: (' ' :: note.toList) ++ ['\n']

def trailing (o : Options) (t : Table) : List Script.Statement :=
  (Creation.keyPlan o t).indexes.map .createIndex ++ Creation.commentStatements o t

theorem commentStatements_eq_nil (h : t.comment = none) (hf : ∀ f ∈ t.fields, f.comment = none)
    (o : Options) : Creation.commentStatements o t = [] := by
  have hfields : t.fields.flatMap (fun f => f.comment.toList.map
      (Script.Statement.commentOnColumn t.name f.name)) = [] := by
    rw [List.flatMap_eq_nil_iff]
    intro f hmem
    rw [hf f hmem]
    rfl
  rw [Creation.commentStatements, h, hfields]
  split_ifs <;> rfl

theorem statements_eq_trailing (o : Options) (t : Table) :
    Creation.statements o t = (headingNotes o t).map .note
      ++ (if o.includeDropTable then [.dropTable t.name true] else [])
      ++ .createTable (Creation.createTable o t) :: trailing o t := by
  have hheading : Creation.heading o t = (headingNotes o t).map .note := by
    unfold Creation.heading headingNotes
    split_ifs <;> rfl
  rw [Creation.statements, hheading, trailing]
  simp only [List.append_assoc, List.cons_append, List.nil_append]

theorem toList_tableScript_trailing (o : Options) (t : Table) :
    (Creation.tableScript o t).toList = (headingNotes o t).flatMap noteLine ++
      (dropLine o t ++ (((Creation.createTable o t).render o.dialect).toList ++
        (trailing o t).flatMap fun s => '\n' :: (s.render o.dialect).toList)) := by
  have hnote : (fun n => ((Script.Statement.note n).render o.dialect).toList ++ ['\n']) =
      noteLine := by
    funext n
    change ("-- " ++ n).toList ++ ['\n'] = noteLine n
    simp [noteLine]
  have hcreate : (Script.Statement.createTable (Creation.createTable o t)).render o.dialect =
      (Creation.createTable o t).render o.dialect := rfl
  rw [Creation.tableScript, Script.render, statements_eq_trailing, String.toList_intercalate,
    List.map_map, List.map_append, List.map_cons]
  change List.intercalate ['\n'] _ = _
  rw [intercalate_append_cons, List.map_append, List.flatMap_append, List.append_assoc,
    List.map_map, List.flatMap_map]
  simp only [Function.comp_apply, hnote, hcreate, dropLine]
  split_ifs <;> simp [List.flatMap_map]

theorem blank_noteLines {ns : List String} (h : ∀ n ∈ ns, '\n' ∉ n.toList) (after : List Char) :
    ∃ gap, Scan.Gap gap ∧
      Source.blank (ns.flatMap noteLine ++ after) = gap ++ Source.blank after := by
  induction ns with
  | nil => exact ⟨[], gap_nil, rfl⟩
  | cons n ns ih =>
    rw [List.forall_mem_cons] at h
    obtain ⟨gap, hgap, hblank⟩ := ih h.2
    have hn : '\n' ∉ ' ' :: n.toList := by simpa using h.1
    have hs : (n :: ns).flatMap noteLine ++ after =
        '-' :: '-' :: (' ' :: n.toList) ++ '\n' :: (ns.flatMap noteLine ++ after) := by
      simp [noteLine]
    refine ⟨List.replicate ((' ' :: n.toList).length + 2) ' ' ++ '\n' :: gap, ?_, ?_⟩
    · intro c hc
      rcases List.mem_append.1 hc with hc | hc
      · rw [List.eq_of_mem_replicate hc]
        rfl
      · rcases List.mem_cons.1 hc with rfl | hc
        · rfl
        · exact hgap c hc
    · rw [hs, Source.blank_lineComment hn, hblank]
      simp

theorem newline_notMem_headingNotes (hn : '\n' ∉ t.name.toList) :
    ∀ n ∈ headingNotes o t, '\n' ∉ n.toList := by
  unfold headingNotes
  split_ifs <;> simp [hn]

theorem parse_of_noteLines {ns : List String} (hns : ∀ n ∈ ns, '\n' ∉ n.toList)
    (ws : List Char → List Lexeme) (hws : ∀ gap, Scan.Gap gap → Written (ws gap) [])
    (htext : ∀ gap, textOf (ws gap) = gap ++ textOf (ws [])) {d : Draft}
    (hread : ∀ gap last, Draft.read (tokensAt .start (ws gap) ++ [last]) = .ok d) {text : String}
    (h : text.toList = ns.flatMap noteLine ++ textOf (ws [])) :
    Table.parse text = d.settle.mapError .schema := by
  -- blanking makes the notes part of the gap before the first word and leaves the rest as it is
  obtain ⟨gap, hgap, hblank⟩ := blank_noteLines hns (textOf (ws []))
  have hwithout : Source.withoutComments text = String.ofList (textOf (ws gap)) := by
    rw [Source.withoutComments, h, hblank, Source.blank_of_uncommented (hws [] gap_nil).uncommented,
      htext gap]
  have hscans := (hws gap hgap).scans .start
  rw [List.append_nil] at hscans
  have htokens := Token.tokenize_eq_ok_iff.2 ⟨_, _, [], gap_nil,
    (String.toList_ofList (l := textOf (ws gap))).symm ▸ hscans, rfl⟩
  rw [Table.parse, hwithout, Table.parseStatement, htokens]
  simp only [hread]

end SqlTables
