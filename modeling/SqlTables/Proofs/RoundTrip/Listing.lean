import SqlTables.Proofs.RoundTrip.Definition
import SqlTables.Proofs.RoundTrip.Keys

/-! The definition of a table for MySQL, line by line, and the draft that is read of its script. -/

namespace SqlTables

open Declaration Lexeme

variable {t : Table} {o : Options}

def tableLines (o : Options) (t : Table) : List (List Lexeme × Clause) :=
  t.fields.map (fun f => ((f.written o).columnLexemes lineGap, .column (f.written o).column))
    ++ primaryKeyLines .mysql t
    ++ (Creation.inlineKeys t).map (fun i => (keyLexemes i, .index i.kind (some i.name) i.fields))
    ++ t.foreignKeys.map (fun k =>
      (foreignKeyLexemes k, .foreignKey (some k.name) k.fields (reference k)))
    ++ t.checks.map fun c => (checkLexemes c, .check c.name c.expression)

theorem declares_tableLines (h : t.Plain) :
    ∀ b ∈ tableLines o t, Declares b.1 b.2 := by
  intro b hb
  simp only [tableLines, List.mem_append, List.mem_map] at hb
  rcases hb with (((⟨f, hf, rfl⟩ | hp) | ⟨i, hi, rfl⟩) | ⟨k, hk, rfl⟩) | ⟨c, hc, rfl⟩
  · exact declares_column ((h.fields f hf).written o)
  · exact declares_primaryKeyLines (fun f _ => Dialect.quotes_mysql f.name) b hp
  · exact declares_key (fields_ne_nil_of_mem_inlineKeys h hi)
  · exact declares_foreignKey (h.foreignKeys k hk)
  · exact declares_check (h.checks c hc)

theorem textOf_tableLines (ho : o.dialect = .mysql) (h : t.Plain) :
    (tableLines o t).map (fun b => textOf b.1) =
      ((Creation.createTable o t).columns.map (·.render .mysql) ++
        (Creation.createTable o t).constraints.map (·.render .mysql)).map
          fun s => ("\n\t" ++ s).toList := by
  have hline (s : String) : ("\n\t" ++ s).toList = lineGap ++ s.toList := by simp [lineGap]
  have hfields : t.fields.map (fun f => textOf ((f.written o).columnLexemes lineGap)) =
      t.fields.map fun f =>
        lineGap ++ ((Creation.columnDefinition o t f).render .mysql).toList :=
    List.map_congr_left fun f hf => textOf_columnLexemes ho t (h.fields f hf) lineGap
  have hforeign : t.foreignKeys.map (fun k => textOf (foreignKeyLexemes k)) =
      t.foreignKeys.map fun k =>
        lineGap ++ ((Script.Constraint.foreignKey k).render .mysql).toList :=
    List.map_congr_left fun k hk => textOf_foreignKeyLexemes (h.foreignKeys k hk)
  have hchecks : t.checks.map (fun c => textOf (checkLexemes c)) =
      t.checks.map fun c => lineGap ++ ((Script.Constraint.check c).render .mysql).toList :=
    List.map_congr_left fun c hc => textOf_checkLexemes (h.checks c hc)
  have hinline : Creation.inlinesPrimaryKey o t = false := by simp [Creation.inlinesPrimaryKey, ho]
  have hprimary := textOf_primaryKeyLines hinline .mysql
  simp only [tableLines, Creation.createTable, Creation.constraints, Creation.keyPlan, ho,
    Creation.inlinePlan, List.map_append, List.map_map, Function.comp_def, hline, hfields, hprimary,
    hforeign, hchecks, textOf_keyLexemes, List.append_assoc]

theorem trailing_eq_nil (ho : o.dialect = .mysql) (t : Table) : trailing o t = [] := by
  have hkeys : (Creation.keyPlan o t).indexes = [] := by
    rw [Creation.keyPlan, ho]
    rfl
  have hcomments : Creation.commentStatements o t = [] := by
    simp [Creation.commentStatements, ho]
  rw [trailing, hkeys, hcomments, List.map_nil, List.append_nil]

theorem statements_eq (ho : o.dialect = .mysql) (t : Table) :
    Creation.statements o t = (headingNotes o t).map .note
      ++ (if o.includeDropTable then [.dropTable t.name true] else [])
      ++ [.createTable (Creation.createTable o t)] := by
  rw [statements_eq_trailing, trailing_eq_nil ho]

theorem toList_tableScript (ho : o.dialect = .mysql) (t : Table) :
    (Creation.tableScript o t).toList = (headingNotes o t).flatMap noteLine ++
      (dropLine o t ++ ((Creation.createTable o t).render .mysql).toList) := by
  rw [toList_tableScript_trailing, trailing_eq_nil ho, List.flatMap_nil, List.append_nil, ho]

variable (h : t.Plain)
  (hv : ∀ v ∈ t.bareSettings o, isBareWord v = true ∨ isNumeral v = true)

include hv in
theorem sets_tableOptions :
    ∀ s ∈ Creation.tableOptions o t, Sets (settingLexemes s) (settingOf s) :=
  fun _ hs => sets_settingLexemes fun v hx => hv v (mem_bareSettings hs hx)

include h hv in
theorem parse_tableScript (ho : o.dialect = .mysql) : Table.parse (Creation.tableScript o t) =
    (Draft.ofClauses t.name ((tableLines o t).map (·.2))
      ((Creation.tableOptions o t).map settingOf)).settle.mapError .schema := by
  have hlines := declares_tableLines (o := o) h
  have hname : o.dialect.Quotes t.name := ho ▸ Dialect.quotes_mysql t.name
  have hne : tableLines o t ≠ [] := by
    obtain ⟨f, fs, hf⟩ := List.exists_cons_of_ne_nil h.nonempty
    simp [tableLines, hf]
  refine parse_of_noteLines (newline_notMem_headingNotes (o := o) h.name)
    (fun gap => definitionLexemes gap o t (tableLines o t)) (fun gap hgap => ?_)
    (fun gap => textOf_definitionLexemes gap o t _) (fun gap last => ?_) ?_
  · exact tight_definitionLexemes hlines (sets_tableOptions hv) hname hgap [] (by simp)
  · exact read_definitionLexemes hlines (sets_tableOptions hv) hne gap .start [last]
  · rw [toList_tableScript ho, textOf_definition (ho ▸ textOf_tableLines ho h), ho]

end SqlTables
