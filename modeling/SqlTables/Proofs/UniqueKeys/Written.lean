import SqlTables.Proofs.Indexes.Standalone
import SqlTables.Proofs.RoundTrip.Keys
import SqlTables.Proofs.UniqueKeys.Lines

/-! The script of a table of integers for PostgreSQL, and the draft that is read from it. -/

namespace SqlTables

open Declaration Lexeme
open Creation (standaloneIndex standaloneIndexes uniqueColumns)
open Dialect (postgresql)

variable {t : Table} {o : Options}

def isIdentifier (s : String) : Bool := s.toList.all fun c => c.isAlphanum || c == '_'

/-- Whether a table has integer columns and keys over them, and nothing else to state. -/
structure Table.OfIntegers (t : Table) : Prop where
  name : isIdentifier t.name = true
  fieldNames : ∀ f ∈ t.fields, isIdentifier f.name = true
  indexNames : ∀ i ∈ t.indexes, isIdentifier i.name = true
  fields : ∀ f ∈ t.fields, f.type = .int ∧ f.default = none ∧ f.comment = none
  foreignKeys : t.foreignKeys = []
  checks : t.checks = []
  comment : t.comment = none

theorem notMem_of_isIdentifier {s : String} (h : isIdentifier s = true) {c : Char}
    (hc : (c.isAlphanum || c == '_') = false) : c ∉ s.toList := by
  intro hm
  have hcs := List.all_eq_true.1 h c hm
  rw [hc] at hcs
  exact Bool.noConfusion hcs

theorem quotes_of_isIdentifier {s : String} (h : isIdentifier s = true) :
    postgresql.Quotes s :=
  notMem_of_isIdentifier h (by decide)

theorem isIdentifier_append {s u : String} (hs : isIdentifier s = true)
    (hu : isIdentifier u = true) : isIdentifier (s ++ u) = true := by
  rw [isIdentifier, String.toList_append, List.all_append, Bool.and_eq_true]
  exact ⟨hs, hu⟩

theorem isIdentifier_intercalate {sep : String} (h : isIdentifier sep = true) {ss : List String}
    (hs : ∀ s ∈ ss, isIdentifier s = true) : isIdentifier (sep.intercalate ss) = true := by
  rw [isIdentifier, String.toList_intercalate]
  cases ss with
  | nil => rfl
  | cons s ss =>
    rw [List.forall_mem_cons] at hs
    rw [List.map_cons, intercalate_cons, List.all_append, Bool.and_eq_true, List.all_flatMap,
      List.all_map]
    refine ⟨hs.1, List.all_eq_true.2 fun u hu => ?_⟩
    rw [Function.comp_apply, List.all_append, Bool.and_eq_true]
    exact ⟨h, hs.2 u hu⟩

theorem exists_of_mem_standaloneIndexes (hv : t.validate = .ok ()) {i : Script.CreateIndex}
    (h : i ∈ standaloneIndexes o t) : ∃ columns method, i = standaloneIndex o t columns method ∧
      (∀ column ∈ columns, column ∈ t.fieldNames) ∧ ∀ m ∈ method, m = "GIST" := by
  have hmem := List.mem_of_find?_eq_some (Creation.mem_firstOfName_iff.1 h).2
  simp only [List.mem_append, List.mem_map, List.mem_filter, Creation.indexedColumns] at hmem
  rcases hmem with ⟨j, ⟨hj, -⟩, rfl⟩ | ⟨_, ⟨f, ⟨hf, -⟩, rfl⟩, rfl⟩
  · refine ⟨_, _, rfl, (Table.validate_eq_ok_iff.1 hv).2.2.1 j hj, fun m hm => ?_⟩
    unfold Creation.indexMethod at hm
    split_ifs at hm
    · exact (Option.mem_some.1 hm).symm
    · simp at hm
  · refine ⟨_, _, rfl, fun column hc => ?_, by simp⟩
    rw [List.mem_singleton.1 hc]
    exact List.mem_map_of_mem hf

variable (ht : t.OfIntegers) (hv : t.validate = .ok ())

include ht in
theorem isIdentifier_of_mem_fieldNames {column : String} (h : column ∈ t.fieldNames) :
    isIdentifier column = true := by
  obtain ⟨f, hf, rfl⟩ := List.mem_map.1 h
  exact ht.fieldNames f hf

include ht hv in
theorem sealed_standaloneIndexes : Sealed ((standaloneIndexes o t).flatMap indexLexemes) := by
  refine .flatMap fun i hi => ?_
  obtain ⟨columns, method, rfl, hcolumns, hmethod⟩ := exists_of_mem_standaloneIndexes hv hi
  have hnames (column : String) (hc : column ∈ columns) : isIdentifier column = true :=
    isIdentifier_of_mem_fieldNames ht (hcolumns column hc)
  have hname : isIdentifier (t.name ++ "_" ++ "_".intercalate columns) = true :=
    isIdentifier_append (isIdentifier_append ht.name (by decide))
      (isIdentifier_intercalate (by decide) hnames)
  refine sealed_indexLexemes (quotes_of_isIdentifier hname) (quotes_of_isIdentifier ht.name)
    (fun column hc => quotes_of_isIdentifier (hnames column hc)) fun m hm => ?_
  rw [hmethod m hm]
  decide

include ht in
theorem trailing_eq (ho : o.dialect = .postgresql) :
    trailing o t = (standaloneIndexes o t).map .createIndex := by
  have hcomments := commentStatements_eq_nil ht.comment (fun f hf => (ht.fields f hf).2.2) o
  rw [trailing, hcomments, List.append_nil, Creation.keyPlan, ho]

def uniqueLines (t : Table) : List (List Lexeme × Clause) :=
  (uniqueColumns t).map (fun column =>
      (uniqueLexemes none [column], .index .unique none [column]))
    ++ (t.indexes.filter (·.kind == .unique)).map fun i =>
      (uniqueLexemes (some i.name) i.fields, .index .unique (some i.name) i.fields)

def integerLines (o : Options) (t : Table) : List (List Lexeme × Clause) :=
  t.fields.map (fun f => (integerLexemes o f, .column (integerColumn o f)))
    ++ primaryKeyLines .postgresql t ++ uniqueLines t

include ht hv in
theorem declares_integerLines (hi : ∀ i ∈ t.indexes, i.fields ≠ []) :
    ∀ b ∈ integerLines o t, Declares b.1 b.2 := by
  have hquotes (column : String) (hc : column ∈ t.fieldNames) : postgresql.Quotes column :=
    quotes_of_isIdentifier (isIdentifier_of_mem_fieldNames ht hc)
  have hfield (f : Field) (hf : f ∈ t.fields) : postgresql.Quotes f.name :=
    hquotes f.name (List.mem_map_of_mem hf)
  intro b hb
  simp only [integerLines, uniqueLines, List.mem_append, List.mem_map, List.mem_filter] at hb
  rcases hb with (⟨f, hf, rfl⟩ | hp) | ⟨column, hc, rfl⟩ | ⟨i, ⟨hmem, -⟩, rfl⟩
  · exact declares_integer (hfield f hf) o
  · exact declares_primaryKeyLines hfield b hp
  · obtain ⟨f, hf, -, -, rfl⟩ := mem_uniqueColumns.1 hc
    exact declares_unique (by simp) (by simp) (by simpa using hfield f hf)
  · refine declares_unique (hi i hmem) ?_ fun column hc => ?_
    · simpa using quotes_of_isIdentifier (ht.indexNames i hmem)
    · exact hquotes column ((Table.validate_eq_ok_iff.1 hv).2.2.1 i hmem column hc)

include ht in
theorem textOf_integerLines (ho : o.dialect = .postgresql) :
    (integerLines o t).map (fun b => textOf b.1) =
      ((Creation.createTable o t).columns.map (·.render .postgresql) ++
        (Creation.createTable o t).constraints.map (·.render .postgresql)).map
          fun s => ("\n\t" ++ s).toList := by
  have hline (s : String) : ("\n\t" ++ s).toList = lineGap ++ s.toList := by simp [lineGap]
  have hfields : t.fields.map (fun f => textOf (integerLexemes o f)) = t.fields.map fun f =>
      lineGap ++ ((Creation.columnDefinition o t f).render .postgresql).toList :=
    List.map_congr_left fun f hf =>
      textOf_integerLexemes ho t (ht.fields f hf).1 (ht.fields f hf).2.1
  have hinline : Creation.inlinesPrimaryKey o t = false := by simp [Creation.inlinesPrimaryKey, ho]
  have hprimary := textOf_primaryKeyLines hinline .postgresql
  simp only [integerLines, uniqueLines, Creation.createTable, Creation.constraints,
    Creation.keyPlan, ho, Creation.uniqueConstraints, ht.foreignKeys, ht.checks, List.map_append,
    List.map_map, Function.comp_def, hline, hfields, hprimary, textOf_uniqueLexemes, List.map_nil,
    List.append_nil, List.append_assoc]

include ht hv in
theorem parse_integerScript (ho : o.dialect = .postgresql) (hne : t.fields ≠ [])
    (hi : ∀ i ∈ t.indexes, i.fields ≠ []) : Table.parse (Creation.tableScript o t) =
      (Draft.ofClauses t.name ((integerLines o t).map (·.2)) []).settle.mapError .schema := by
  have hlines := declares_integerLines (o := o) ht hv hi
  have hsettings : Creation.tableOptions o t = [] := by simp [Creation.tableOptions, ho]
  have hsets : ∀ s ∈ Creation.tableOptions o t, Sets (settingLexemes s) (settingOf s) := by
    simp [hsettings]
  have hname : o.dialect.Quotes t.name := ho ▸ quotes_of_isIdentifier ht.name
  have hlines' : integerLines o t ≠ [] := by
    obtain ⟨f, fs, hf⟩ := List.exists_cons_of_ne_nil hne
    simp [integerLines, hf]
  have hindexes := sealed_standaloneIndexes (o := o) ht hv
  refine parse_of_noteLines (newline_notMem_headingNotes (o := o)
    (notMem_of_isIdentifier ht.name (by decide)))
    (fun gap => definitionLexemes gap o t (integerLines o t) ++
      (standaloneIndexes o t).flatMap indexLexemes) (fun gap hgap => ?_) (fun gap => ?_)
    (fun gap last => ?_) ?_
  · exact ((tight_definitionLexemes hlines hsets hname hgap).append hindexes) [] (by simp)
  · rw [textOf_append, textOf_definitionLexemes, textOf_append, List.append_assoc]
  · have hread := read_definitionLexemes hlines hsets hlines' gap .start
      (tokensAt (Text.Position.start.advance (textOf (definitionLexemes gap o t
        (integerLines o t)))) ((standaloneIndexes o t).flatMap indexLexemes) ++ [last])
    rw [tokensAt_append, List.append_assoc, hread, hsettings]
    rfl
  · have htext := textOf_definition (o := o) (ho ▸ textOf_integerLines ht ho)
    rw [toList_tableScript_trailing, trailing_eq ht ho, textOf_append, htext, textOf_flatMap,
      List.flatMap_map, ho, List.append_assoc]
    simp only [textOf_indexLexemes]
    rfl

end SqlTables
