import SqlTables.Creation.Script
import SqlTables.Proofs.Migration

/-! Migrations with nothing to do. If a migration has no text, the tables before and after are
created by the same script, as far as their keys are the same: PostgreSQL columns are compared by
what stands in their definitions, and keys do not. -/

namespace SqlTables

namespace Script

variable {d : Dialect}

theorem eq_empty_of_intercalate {separator : String} (hs : separator ≠ "") {lines : List String}
    (h : separator.intercalate lines = "") : ∀ line ∈ lines, line = "" := by
  match lines with
  | [] => simp
  | [line] => simpa using h
  | line :: other :: lines =>
    rw [String.intercalate_cons_cons, String.append_eq_empty_iff, String.append_eq_empty_iff] at h
    exact absurd h.1.2 hs

theorem eq_nil_of_alterTable {table : String} {operations : List Operation}
    (h : alterTable d table operations = "") : operations = [] := by
  cases operations with
  | nil => rfl
  | cons operation operations =>
    have hline := eq_empty_of_intercalate (by decide) h _ (List.mem_cons_self ..)
    simp only [String.append_eq_empty_iff] at hline
    exact absurd hline.1.1.1.1 (by decide)

end Script

namespace Migration

open Creation (columnDefinition)
open Script (ColumnDefinition Operation Statement)

variable {o : Options} {old new : Table}

def keyColumns (t : Table) : List String × List String × List String :=
  (t.primaryKeyFields.map (·.name), Creation.uniqueColumns t, Creation.indexedColumns t)

theorem Step.render_ne_empty {step : Step} {s : Statement} (h : s ∈ step.statements o new)
    (d : Dialect) : s.render d ≠ "" := by
  cases step with
  | add f => simp [Step.statements] at h
  | drop column => simp [Step.statements] at h
  | change before after =>
    simp only [Step.statements, changeStatements] at h
    split at h
    · simp at h
    · split_ifs at h
      · rw [List.mem_singleton.1 h]
        intro htext
        exact absurd (String.append_eq_empty_iff.1 htext).2 (by decide)
      · simp at h
    · rw [List.mem_singleton.1 h]
      intro htext
      exact absurd (String.append_eq_empty_iff.1 htext).1 (by decide)

theorem eq_nil_of_script_eq_empty (h : script o old new = "") :
    ∀ step ∈ steps old new, step.operations o old new = [] ∧ step.statements o new = [] := by
  have htexts : ∀ s ∈ statements o old new, s.render o.dialect = "" := by
    intro s hs
    exact Script.eq_empty_of_intercalate (by decide) h _ (List.mem_map_of_mem hs)
  rw [statements] at htexts
  have hoperations : operations o old new = [] := by
    by_contra hne
    have htext := htexts (.alterTable new.name (operations o old new)) (by simp [hne])
    exact hne (Script.eq_nil_of_alterTable htext)
  intro step hstep
  refine ⟨List.flatMap_eq_nil_iff.1 hoperations step hstep, ?_⟩
  rw [List.eq_nil_iff_forall_not_mem]
  intro s hs
  have hmem : s ∈ (steps old new).flatMap (·.statements o new) :=
    List.mem_flatMap.2 ⟨step, hstep, hs⟩
  exact Step.render_ne_empty hs _ (htexts s (List.mem_append_right _ hmem))

theorem eq_of_stepwise_eq_nil {before after : ColumnDefinition} (h : stepwise before after = [])
    (hn : before.name = after.name) (ho : before.options = after.options) : before = after := by
  obtain ⟨name, type, nullable, default, options⟩ := before
  obtain ⟨name', type', nullable', default', options'⟩ := after
  simp only [stepwise, List.append_eq_nil_iff, ite_eq_right_iff, List.cons_ne_nil, imp_false,
    not_not] at h
  simp_all

theorem agree_of_script_eq_empty (h : script o old new = "") {before after : Field}
    (hbefore : old.field? after.name = some before) (hafter : after ∈ new.fields) :
    (o.dialect = .mysql → before = after) ∧
      (o.dialect = .postgresql → columnDefinition o old before = columnDefinition o new after ∧
        (o.includeComments = true → before.comment = after.comment)) := by
  have hname : before.name = after.name := (Table.mem_of_field? hbefore).2
  by_cases he : before = after
  · subst he
    exact ⟨fun _ => rfl, fun hd => ⟨columnDefinition_congr (by simp [hd]) .., fun _ => rfl⟩⟩
  have hstep : fieldStep? old after = some (.change before after) := by
    simp [fieldStep?, hbefore, he]
  obtain ⟨hoperations, hstatements⟩ := eq_nil_of_script_eq_empty h (.change before after)
    (List.mem_append_left _ (List.mem_filterMap.2 ⟨after, hafter, hstep⟩))
  simp only [Step.operations, changeOperations] at hoperations
  simp only [Step.statements, changeStatements] at hstatements
  refine ⟨fun hd => ?_, fun hd => ?_⟩
  · simp [hd] at hoperations
  · simp only [hd] at hoperations hstatements
    have hoptions := columnDefinition_options hd old before
    rw [← columnDefinition_options hd new after] at hoptions
    refine ⟨eq_of_stepwise_eq_nil hoperations hname hoptions, fun hc => ?_⟩
    by_contra hne
    simp [hc, hne] at hstatements

theorem map_eq_map_of_names {α : Type} {g h : Field → α} {fs gs : List Field}
    (hnames : fs.map (·.name) = gs.map (·.name))
    (heq : ∀ before ∈ fs, ∀ after ∈ gs, before.name = after.name → g before = h after) :
    fs.map g = gs.map h := by
  induction fs generalizing gs with
  | nil =>
    cases gs with
    | nil => rfl
    | cons g gs => simp at hnames
  | cons f fs ih =>
    cases gs with
    | nil => simp at hnames
    | cons g gs =>
      rw [List.map_cons, List.map_cons, List.cons.injEq] at hnames
      rw [List.map_cons, List.map_cons, heq f (List.mem_cons_self ..) g (List.mem_cons_self ..)
        hnames.1, ih hnames.2 fun before hb after ha =>
          heq before (List.mem_cons_of_mem _ hb) after (List.mem_cons_of_mem _ ha)]

theorem primaryKey_postgresql (ho : o.dialect = .postgresql) (t : Table) :
    Creation.primaryKey o t =
      if (t.primaryKeyFields.map (·.name)).isEmpty then []
      else [.primaryKey (t.primaryKeyFields.map (·.name))] := by
  have hinline : Creation.inlinesPrimaryKey o t = false := by
    simp [Creation.inlinesPrimaryKey, ho]
  rw [Creation.primaryKey, hinline, Bool.or_false, List.isEmpty_map]

theorem constraints_congr (ho : o.dialect = .postgresql)
    (hrest : new = { old with fields := new.fields }) (hkeys : keyColumns old = keyColumns new) :
    Creation.constraints o old = Creation.constraints o new ∧
      Creation.keyPlan o old = Creation.keyPlan o new := by
  simp only [keyColumns, Prod.mk.injEq] at hkeys
  obtain ⟨hprimary, hunique, hindexed⟩ := hkeys
  have hindexes : old.indexes = new.indexes := by rw [hrest]
  have hforeign : old.foreignKeys = new.foreignKeys := by rw [hrest]
  have hchecks : old.checks = new.checks := by rw [hrest]
  have hname : old.name = new.name := by rw [hrest]
  have hplan : Creation.keyPlan o old = Creation.keyPlan o new := by
    simp only [Creation.keyPlan, ho, Creation.uniqueConstraints, Creation.standaloneIndexes,
      Creation.standaloneIndex, hunique, hindexed, hindexes, hname]
  refine ⟨?_, hplan⟩
  rw [Creation.constraints, Creation.constraints, primaryKey_postgresql ho,
    primaryKey_postgresql ho, hprimary, hplan, hforeign, hchecks]

theorem commentStatements_congr (ho : o.dialect = .postgresql)
    (hrest : new = { old with fields := new.fields })
    (hcomments : o.includeComments = true →
      old.fields.map (fun f => (f.name, f.comment)) =
        new.fields.map fun f => (f.name, f.comment)) :
    Creation.commentStatements o old = Creation.commentStatements o new := by
  have hname : old.name = new.name := by rw [hrest]
  have hcomment : old.comment = new.comment := by rw [hrest]
  have hfields (t : Table) : (t.fields.flatMap fun f =>
        f.comment.toList.map (Statement.commentOnColumn t.name f.name)) =
      (t.fields.map fun f => (f.name, f.comment)).flatMap fun c =>
        c.2.toList.map (.commentOnColumn t.name c.1) := by
    rw [List.flatMap_map]
  unfold Creation.commentStatements
  by_cases hc : o.includeComments = true
  · rw [if_pos ⟨ho, hc⟩, if_pos ⟨ho, hc⟩, hfields, hfields, hcomments hc, hname, hcomment]
  · rw [if_neg fun h => hc h.2, if_neg fun h => hc h.2]

/-- Tables with the same keys are created alike if the migration from one to the other has no
text. -/
theorem single_eq_of_script_eq_empty (ho : o.dialect = .mysql ∨ o.dialect = .postgresql)
    (hold : old.validate = .ok ()) (hnew : new.validate = .ok ())
    (hrest : new = { old with fields := new.fields }) (hnames : old.fieldNames = new.fieldNames)
    (hkeys : o.dialect = .postgresql → keyColumns old = keyColumns new)
    (h : script o old new = "") : Creation.single o old = Creation.single o new := by
  have hnodup := Table.nodup_fieldNames_of_validate hold
  have hagree : ∀ before ∈ old.fields, ∀ after ∈ new.fields, before.name = after.name →
      (o.dialect = .mysql → before = after) ∧
        (o.dialect = .postgresql → columnDefinition o old before = columnDefinition o new after ∧
          (o.includeComments = true → before.comment = after.comment)) :=
    fun before hb after ha he =>
      agree_of_script_eq_empty h (he ▸ find?_name_of_mem hnodup hb) ha
  rw [Creation.single, Creation.single, hold, hnew]
  refine congrArg Except.ok ?_
  rcases ho with ho | ho
  · have hfields := map_eq_map_of_names (g := id) (h := id) hnames
      fun before hb after ha he => (hagree before hb after ha he).1 ho
    rw [List.map_id, List.map_id] at hfields
    rw [hrest, ← hfields]
  · have hcolumns := map_eq_map_of_names hnames
      fun before hb after ha he => ((hagree before hb after ha he).2 ho).1
    have hcomments (hc : o.includeComments = true) := map_eq_map_of_names
      (g := fun f => (f.name, f.comment)) (h := fun f => (f.name, f.comment)) hnames
      fun before hb after ha he => Prod.ext he (((hagree before hb after ha he).2 ho).2 hc)
    obtain ⟨hconstraints, hplan⟩ := constraints_congr ho hrest (hkeys ho)
    have hname : old.name = new.name := by rw [hrest]
    have hcreate : Creation.createTable o old = Creation.createTable o new := by
      simp only [Creation.createTable, Creation.tableOptions, ho, hname, hcolumns, hconstraints]
      rfl
    rw [Creation.tableScript, Creation.tableScript, Creation.statements, Creation.statements,
      hcreate, hplan, commentStatements_congr ho hrest hcomments, Creation.heading,
      Creation.heading, hname]

def visits : Table where
  name := "visits"
  fields := [
    { name := "id", type := .int, length := some 11, nullable := false, inPrimaryKey := true },
    { name := "page", type := .bigInt, comment := some "which", unsigned := true, unique := true }]
  indexes := [⟨"idx_visits", .normal, ["page", "id"]⟩]

def visitsRevised : Table where
  name := "visits"
  fields := [
    { name := "id", type := .int, nullable := false, inPrimaryKey := true },
    { name := "page", type := .bigInt, comment := some "which", unsigned := true, unique := true,
      onUpdate := some "0" }]
  indexes := [⟨"idx_visits", .normal, ["page", "id"]⟩]

theorem single_eq_of_script_eq_empty_visits :
    visits.fields ≠ visitsRevised.fields ∧
      script { dialect := .postgresql } visits visitsRevised = "" ∧
      Creation.single { dialect := .postgresql } visits =
        Creation.single { dialect := .postgresql } visitsRevised := by
  have hscript : script { dialect := .postgresql } visits visitsRevised = "" := by decide
  exact ⟨by decide, hscript, single_eq_of_script_eq_empty (.inr rfl) (by decide) (by decide)
    (by decide) (by decide) (fun _ => by decide) hscript⟩

/-- A unique key is no part of a column's definition, so no migration adds it. -/
theorem not_single_eq_of_script_eq_empty :
    ¬∀ (o : Options) (old new : Table), o.dialect = .mysql ∨ o.dialect = .postgresql →
      old.validate = .ok () → new.validate = .ok () → new = { old with fields := new.fields } →
      old.fieldNames = new.fieldNames → script o old new = "" →
      Creation.single o old = Creation.single o new := by
  intro h
  have hsame := h { dialect := .postgresql }
    { name := "t", fields := [{ name := "a", type := .int }] }
    { name := "t", fields := [{ name := "a", type := .int, unique := true }] } (.inr rfl)
    (by decide) (by decide) (by decide) (by decide) (by decide)
  revert hsame
  decide +kernel

end Migration

end SqlTables
