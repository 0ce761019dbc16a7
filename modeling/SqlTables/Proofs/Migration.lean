import SqlTables.Migration
import SqlTables.Proofs.Schema.Validity

/-! Migrations run on the columns of a table. Run on the columns of the old table, the operations
of a migration all apply and leave exactly the columns of the new one. -/

namespace SqlTables.Script

def Operation.column : Operation → String
  | .addColumn c | .modifyColumn c => c.name
  | .dropColumn column | .setType column _ | .setNotNull column _ | .setDefault column _ => column

def Statement.operations : Statement → List Operation
  | .alterTable _ operations => operations
  | _ => []

end SqlTables.Script

namespace SqlTables.Migration

open Creation (columnDefinition effectiveField columnOptions)
open Script (ColumnDefinition Operation Statement)

abbrev Columns := String → Option ColumnDefinition

def columnsOf (o : Options) (t : Table) : Columns :=
  fun name => (t.field? name).map (columnDefinition o t)

namespace Columns

def set (m : Columns) (name : String) (definition : Option ColumnDefinition) : Columns :=
  fun other => if other = name then definition else m other

def update? (m : Columns) (name : String) (change : ColumnDefinition → ColumnDefinition) :
    Option Columns :=
  (m name).map fun c => m.set name (some (change c))

/-- Runs an operation. A column to add has to be new and any other has to be there. -/
def run? (m : Columns) : Operation → Option Columns
  | .addColumn c => if (m c.name).isNone then some (m.set c.name (some c)) else none
  | .modifyColumn c => m.update? c.name fun _ => c
  | .dropColumn column => (m column).map fun _ => m.set column none
  | .setType column type => m.update? column fun c => { c with type := type }
  | .setNotNull column notNull => m.update? column fun c => { c with nullable := !notNull }
  | .setDefault column value => m.update? column fun c => { c with default := value }

def runAll? (m : Columns) (operations : List Operation) : Option Columns :=
  operations.foldlM run? m

theorem set_self {m : Columns} {name : String} {c : Option ColumnDefinition} (h : m name = c) :
    m.set name c = m := by
  funext other
  unfold set
  split_ifs with he
  · rw [he, h]
  · rfl

theorem set_set (m : Columns) (name : String) (c c' : Option ColumnDefinition) :
    (m.set name c).set name c' = m.set name c' := by
  funext other
  unfold set
  split_ifs <;> rfl

theorem set_apply_self (m : Columns) (name : String) (c : Option ColumnDefinition) :
    m.set name c name = c := by
  simp [set]

theorem set_apply_of_ne (m : Columns) {name other : String} (c : Option ColumnDefinition)
    (h : other ≠ name) : m.set name c other = m other := by
  simp [set, h]

theorem update?_of_eq {m : Columns} {name : String} {c : ColumnDefinition} (h : m name = some c)
    (change : ColumnDefinition → ColumnDefinition) :
    m.update? name change = some (m.set name (some (change c))) := by
  simp [update?, h]

theorem runAll?_append (m : Columns) (as bs : List Operation) :
    m.runAll? (as ++ bs) = (m.runAll? as).bind fun m' => m'.runAll? bs := by
  simp [runAll?, List.foldlM_append]

theorem runAll?_singleton (m : Columns) (a : Operation) : m.runAll? [a] = m.run? a := by
  simp [runAll?]

end Columns

open Columns

variable {o : Options} {old new : Table}

theorem columnDefinition_name (o : Options) (t : Table) (f : Field) :
    (columnDefinition o t f).name = f.name := rfl

theorem columnDefinition_congr (ho : o.dialect ≠ .sqlite) (t t' : Table) (f : Field) :
    columnDefinition o t f = columnDefinition o t' f := by
  cases hd : o.dialect with
  | sqlite => exact absurd hd ho
  | mysql | postgresql => simp [columnDefinition, columnOptions, hd]

theorem columnDefinition_options (ho : o.dialect = .postgresql) (t : Table) (f : Field) :
    (columnDefinition o t f).options = [] := by
  simp [columnDefinition, columnOptions, ho]

theorem runAll?_component {m : Columns} {name : String} {c c' : ColumnDefinition}
    (h : m name = some c) {differs : Prop} [Decidable differs] {operation : Operation}
    (hrun : m.run? operation = some (m.set name (some c'))) (hsame : ¬differs → c = c') :
    m.runAll? (if differs then [operation] else []) = some (m.set name (some c')) := by
  split_ifs with hd
  · rw [runAll?_singleton, hrun]
  · rw [← hsame hd, set_self h]
    rfl

theorem runAll?_stepwise {m : Columns} {before after : ColumnDefinition}
    (h : m after.name = some before) (hn : before.name = after.name)
    (ho : before.options = after.options) :
    m.runAll? (stepwise before after) = some (m.set after.name (some after)) := by
  obtain ⟨name, type, nullable, default, options⟩ := before
  obtain ⟨name', type', nullable', default', options'⟩ := after
  dsimp only at h hn ho
  subst hn ho
  have htype : m.runAll? (if type ≠ type' then [.setType name type'] else []) =
      some (m.set name (some ⟨name, type', nullable, default, options⟩)) :=
    runAll?_component h (update?_of_eq h _) (by simp +contextual)
  have hnull : (m.set name (some ⟨name, type', nullable, default, options⟩)).runAll?
        (if nullable ≠ nullable' then [.setNotNull name (!nullable')] else []) =
      some (m.set name (some ⟨name, type', nullable', default, options⟩)) := by
    rw [← set_set m name _ (some ⟨name, type', nullable', default, options⟩)]
    refine runAll?_component (set_apply_self ..) ?_ (by simp +contextual)
    rw [run?, update?_of_eq (set_apply_self ..), Bool.not_not]
  have hdefault : (m.set name (some ⟨name, type', nullable', default, options⟩)).runAll?
        (if default ≠ default' then [.setDefault name default'] else []) =
      some (m.set name (some ⟨name, type', nullable', default', options⟩)) := by
    rw [← set_set m name _ (some ⟨name, type', nullable', default', options⟩)]
    exact runAll?_component (set_apply_self ..) (update?_of_eq (set_apply_self ..) _)
      (by simp +contextual)
  simp only [stepwise]
  -- each component is set on top of those before it
  rw [runAll?_append, runAll?_append, htype, Option.bind_some, hnull, Option.bind_some, hdefault]

def fieldOperations (o : Options) (old new : Table) (f : Field) : List Operation :=
  (fieldStep? old f).toList.flatMap (·.operations o old new)

theorem runAll?_fieldOperations (ho : o.dialect ≠ .sqlite) {m : Columns} {f : Field}
    (h : m f.name = columnsOf o old f.name) :
    m.runAll? (fieldOperations o old new f) =
      some (m.set f.name (some (columnDefinition o new f))) := by
  unfold columnsOf at h
  unfold fieldOperations fieldStep?
  cases hf : old.field? f.name with
  | none =>
    rw [hf, Option.map_none] at h
    simp [Step.operations, runAll?, run?, columnDefinition_name, h]
  | some before =>
    rw [hf, Option.map_some] at h
    have hname : before.name = f.name := (Table.mem_of_field? hf).2
    by_cases he : before = f
    · rw [he, columnDefinition_congr ho old new] at h
      simp [he, runAll?, set_self h]
    · simp only [he, if_false, Option.toList_some, List.flatMap_cons, List.flatMap_nil,
        List.append_nil, Step.operations, changeOperations]
      cases hd : o.dialect with
      | sqlite => exact absurd hd ho
      | mysql => simp only [runAll?_singleton, run?, columnDefinition_name, update?_of_eq h]
      | postgresql =>
        refine runAll?_stepwise h hname ?_
        rw [columnDefinition_options hd, columnDefinition_options hd]

def overlay (o : Options) (new : Table) (fields : List Field) (m : Columns) : Columns :=
  fields.foldl (fun m f => m.set f.name (some (columnDefinition o new f))) m

theorem overlay_apply_of_not_mem {fields : List Field} {name : String}
    (h : name ∉ fields.map (·.name)) (m : Columns) : overlay o new fields m name = m name := by
  induction fields generalizing m with
  | nil => rfl
  | cons f fields ih =>
    rw [List.map_cons, List.mem_cons, not_or] at h
    exact (ih h.2 _).trans (set_apply_of_ne m _ h.1)

theorem overlay_apply_of_mem {fields : List Field} (hn : (fields.map (·.name)).Nodup) {f : Field}
    (hf : f ∈ fields) (m : Columns) :
    overlay o new fields m f.name = some (columnDefinition o new f) := by
  induction fields generalizing m with
  | nil => simp at hf
  | cons g fields ih =>
    rw [List.map_cons, List.nodup_cons] at hn
    rcases List.mem_cons.1 hf with rfl | hf
    · exact (overlay_apply_of_not_mem hn.1 _).trans (set_apply_self ..)
    · exact ih hn.2 hf _

theorem runAll?_fields (ho : o.dialect ≠ .sqlite) {fields : List Field}
    (hn : (fields.map (·.name)).Nodup) {m : Columns}
    (h : ∀ f ∈ fields, m f.name = columnsOf o old f.name) :
    m.runAll? (fields.flatMap (fieldOperations o old new)) = some (overlay o new fields m) := by
  induction fields generalizing m with
  | nil => rfl
  | cons f fields ih =>
    rw [List.map_cons, List.nodup_cons] at hn
    rw [List.flatMap_cons, runAll?_append,
      runAll?_fieldOperations ho (h f (List.mem_cons_self ..)), Option.bind_some]
    -- names differ, so the columns still to come stand as in the old table
    refine ih hn.2 fun g hg => ?_
    have hne : g.name ≠ f.name := fun he => hn.1 (he ▸ List.mem_map_of_mem hg)
    rw [set_apply_of_ne _ _ hne, h g (List.mem_cons_of_mem _ hg)]

theorem runAll?_drops {names : List String} (hn : names.Nodup) {m : Columns}
    (h : ∀ name ∈ names, (m name).isSome = true) :
    m.runAll? (names.map .dropColumn) =
      some fun name => if name ∈ names then none else m name := by
  induction names generalizing m with
  | nil => simp [runAll?]
  | cons name names ih =>
    rw [List.nodup_cons] at hn
    obtain ⟨c, hc⟩ := Option.isSome_iff_exists.1 (h name (List.mem_cons_self ..))
    have hrest : ∀ other ∈ names, (m.set name none other).isSome = true := by
      intro other ho
      have hne : other ≠ name := fun he => hn.1 (he ▸ ho)
      rw [set_apply_of_ne _ _ hne]
      exact h other (List.mem_cons_of_mem _ ho)
    have hstep : m.run? (.dropColumn name) = some (m.set name none) := by simp [run?, hc]
    rw [List.map_cons, ← List.singleton_append, runAll?_append, runAll?_singleton, hstep,
      Option.bind_some, ih hn.2 hrest]
    refine congrArg some (funext fun other => ?_)
    by_cases he : other = name
    · simp [he, set_apply_self]
    · simp [he, set_apply_of_ne]

def dropped (old new : Table) : List String :=
  (old.fields.filter fun f => !new.hasField f.name).map (·.name)

theorem mem_dropped_iff {name : String} :
    name ∈ dropped old new ↔ name ∈ old.fieldNames ∧ name ∉ new.fieldNames := by
  unfold dropped Table.fieldNames
  constructor
  · intro h
    obtain ⟨f, hf, rfl⟩ := List.mem_map.1 h
    obtain ⟨hm, hh⟩ := List.mem_filter.1 hf
    refine ⟨List.mem_map_of_mem hm, fun hn => ?_⟩
    rw [Table.hasField_iff_mem.2 hn] at hh
    exact absurd hh (by simp)
  · rintro ⟨h, hn⟩
    obtain ⟨f, hf, rfl⟩ := List.mem_map.1 h
    refine List.mem_map_of_mem (List.mem_filter.2 ⟨hf, ?_⟩)
    rw [Bool.not_eq_true', Bool.eq_false_iff]
    exact fun hh => hn (Table.hasField_iff_mem.1 hh)

theorem operations_eq (o : Options) (old new : Table) :
    operations o old new =
      new.fields.flatMap (fieldOperations o old new) ++ (dropped old new).map .dropColumn := by
  have hdrops (fs : List Field) : (fs.map fun f => Step.drop f.name).flatMap
      (·.operations o old new) = (fs.map (·.name)).map .dropColumn := by
    induction fs with
    | nil => rfl
    | cons f fs ih =>
      rw [List.map_cons, List.flatMap_cons, ih]
      rfl
  have hsteps (fs : List Field) : (fs.filterMap (fieldStep? old)).flatMap
      (·.operations o old new) = fs.flatMap (fieldOperations o old new) := by
    induction fs with
    | nil => rfl
    | cons f fs ih =>
      rw [List.flatMap_cons, ← ih, fieldOperations]
      cases hf : fieldStep? old f with
      | none => simp [hf]
      | some step => simp [hf]
  rw [operations, steps, List.flatMap_append, hsteps, hdrops, dropped]

theorem runAll?_operations (ho : o.dialect ≠ .sqlite) (hold : old.validate = .ok ())
    (hnew : new.validate = .ok ()) :
    (columnsOf o old).runAll? (operations o old new) = some (columnsOf o new) := by
  have hnodup := Table.nodup_fieldNames_of_validate hnew
  have hdropped : (dropped old new).Nodup :=
    (Table.nodup_fieldNames_of_validate hold).sublist (List.filter_sublist.map _)
  rw [operations_eq, runAll?_append, runAll?_fields ho hnodup fun _ _ => rfl, Option.bind_some,
    runAll?_drops hdropped]
  · refine congrArg some (funext fun name => ?_)
    simp only [mem_dropped_iff]
    -- a name is of the new table, or dropped, or of neither table
    by_cases hn : name ∈ new.fieldNames
    · obtain ⟨f, hf, rfl⟩ := List.mem_map.1 hn
      have hfind : new.field? f.name = some f := find?_name_of_mem hnodup hf
      simp [hn, overlay_apply_of_mem hnodup hf, columnsOf, hfind]
    · rw [overlay_apply_of_not_mem hn, columnsOf, columnsOf, Table.field?_eq_none_iff.2 hn]
      by_cases hm : name ∈ old.fieldNames
      · simp [hn, hm]
      · simp [hm, Table.field?_eq_none_iff.2 hm]
  · intro name hd
    obtain ⟨hm, hn⟩ := mem_dropped_iff.1 hd
    obtain ⟨f, hf, rfl⟩ := List.mem_map.1 hm
    rw [overlay_apply_of_not_mem hn, columnsOf, Option.isSome_map]
    exact List.find?_isSome.2 ⟨f, hf, by simp⟩

theorem flatMap_operations_statements (o : Options) (old new : Table) :
    (statements o old new).flatMap Statement.operations = operations o old new := by
  have hstep (step : Step) : (step.statements o new).flatMap Statement.operations = [] := by
    cases step with
    | add f => rfl
    | drop column => rfl
    | change before after =>
      simp only [Step.statements, changeStatements]
      split
      · rfl
      · split_ifs <;> rfl
      · rfl
  have hrest :
      ((steps old new).flatMap (·.statements o new)).flatMap Statement.operations = [] := by
    rw [List.flatMap_assoc]
    simp only [hstep]
    simp
  rw [statements, List.flatMap_append, hrest, List.append_nil]
  cases operations o old new <;> simp [Statement.operations]

theorem column_of_mem_stepwise {before after : ColumnDefinition} {op : Operation}
    (h : op ∈ stepwise before after) : op.column = after.name := by
  simp only [stepwise, List.mem_append] at h
  rcases h with (h | h) | h
  all_goals
    split_ifs at h
    · rw [List.mem_singleton.1 h]
      rfl
    · simp at h

theorem column_of_mem_fieldOperations {f : Field} {op : Operation}
    (h : op ∈ fieldOperations o old new f) : op.column = f.name ∧ old.field? f.name ≠ some f := by
  unfold fieldOperations fieldStep? at h
  cases hf : old.field? f.name with
  | none =>
    simp only [hf, Option.toList_some, List.flatMap_cons, List.flatMap_nil, List.append_nil,
      Step.operations, List.mem_singleton] at h
    rw [h]
    exact ⟨rfl, by simp⟩
  | some before =>
    simp only [hf] at h
    by_cases he : before = f
    · simp [he] at h
    · simp only [he, if_false, Option.toList_some, List.flatMap_cons, List.flatMap_nil,
        List.append_nil, Step.operations, changeOperations] at h
      refine ⟨?_, by simpa using he⟩
      cases hd : o.dialect with
      | sqlite => simp [hd] at h
      | mysql =>
        simp only [hd, List.mem_singleton] at h
        rw [h]
        rfl
      | postgresql =>
        simp only [hd] at h
        exact column_of_mem_stepwise h

theorem column_ne_of_mem_operations (hold : old.validate = .ok ()) (hnew : new.validate = .ok ())
    {op : Operation} (hop : op ∈ operations o old new) {f : Field} (hf : f ∈ old.fields)
    (hf' : f ∈ new.fields) : op.column ≠ f.name := by
  have hkept : old.field? f.name = some f :=
    find?_name_of_mem (Table.nodup_fieldNames_of_validate hold) hf
  intro he
  rw [operations_eq, List.mem_append] at hop
  rcases hop with hop | hop
  · obtain ⟨g, hg, hop⟩ := List.mem_flatMap.1 hop
    obtain ⟨hname, hne⟩ := column_of_mem_fieldOperations hop
    -- both tables have one column of the name, so the operation would be for `f` itself
    have hsame : g = f := by
      have hg' := find?_name_of_mem (Table.nodup_fieldNames_of_validate hnew) hg
      rw [← hname, he, find?_name_of_mem (Table.nodup_fieldNames_of_validate hnew) hf'] at hg'
      exact (Option.some.inj hg').symm
    exact hne (hsame ▸ hkept)
  · obtain ⟨name, hname, rfl⟩ := List.mem_map.1 hop
    rw [show (Operation.dropColumn name).column = name from rfl] at he
    exact (mem_dropped_iff.1 hname).2 (he ▸ List.mem_map_of_mem hf')

/-- In MySQL and PostgreSQL a migration of valid tables applies, an operation at a time, to the
columns of the old table, leaves those of the new one and passes over the columns they share. -/
theorem runAll?_statements (ho : o.dialect = .mysql ∨ o.dialect = .postgresql)
    (hold : old.validate = .ok ()) (hnew : new.validate = .ok ()) :
    (columnsOf o old).runAll? ((statements o old new).flatMap Statement.operations) =
        some (columnsOf o new) ∧
      ∀ op ∈ (statements o old new).flatMap Statement.operations,
        ∀ f ∈ old.fields, f ∈ new.fields → op.column ≠ f.name := by
  have hsqlite : o.dialect ≠ .sqlite := by
    rcases ho with ho | ho <;> simp [ho]
  rw [flatMap_operations_statements]
  refine ⟨runAll?_operations hsqlite hold hnew, fun op hop f hf hf' => ?_⟩
  exact column_ne_of_mem_operations hold hnew hop hf hf'

def accounts : Table where
  name := "accounts"
  fields := [
    { name := "id", type := .int, nullable := false },
    { name := "email", type := .varChar, length := some 80 },
    { name := "phone", type := .text }]

def accountsRevised : Table where
  name := "accounts"
  fields := [
    { name := "id", type := .int, nullable := false },
    { name := "joined", type := .date },
    { name := "email", type := .text, nullable := false }]

theorem runAll?_statements_accounts :
    (statements { dialect := .postgresql } accounts accountsRevised).flatMap Statement.operations =
        [.addColumn ⟨"joined", "DATE", true, none, []⟩, .setType "email" "TEXT",
          .setNotNull "email" true, .dropColumn "phone"] ∧
      (columnsOf { dialect := .postgresql } accounts).runAll?
          ((statements { dialect := .postgresql } accounts accountsRevised).flatMap
            Statement.operations) =
        some (columnsOf { dialect := .postgresql } accountsRevised) :=
  ⟨by decide, (runAll?_statements (.inr rfl) (by decide) (by decide)).1⟩

end SqlTables.Migration
