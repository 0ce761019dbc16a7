import SqlTables.Proofs.Migration

/-! Comments of columns in PostgreSQL migrations. They are statements of their own, after the
operations, and follow from the columns that are in both tables: a column that is added comes
without its comment. -/

namespace SqlTables

def Table.commentOf (t : Table) (column : String) : Option String :=
  (t.field? column).bind (·.comment)

namespace Migration

open Script (Statement)

variable {o : Options} {old new : Table} {f : Field}

def commentOn (t : Table) (f : Field) : Statement :=
  .commentOnColumn t.name f.name (f.comment.getD "")

/-- Whether each column whose comment is not the one before has its comment set. -/
def CarriesComments (o : Options) (old new : Table) : Prop :=
  ∀ f ∈ new.fields, f.comment ≠ old.commentOf f.name → commentOn new f ∈ statements o old new

def recommented (old : Table) (f : Field) : Bool :=
  match old.field? f.name with
  | none => false
  | some before => before.comment ≠ f.comment

theorem recommented_iff :
    recommented old f = true ↔ f.name ∈ old.fieldNames ∧ f.comment ≠ old.commentOf f.name := by
  rw [recommented, Table.commentOf]
  cases hf : old.field? f.name with
  | none => simp [Table.field?_eq_none_iff.1 hf]
  | some before =>
    obtain ⟨hmem, hname⟩ := Table.mem_of_field? hf
    have hold : f.name ∈ old.fieldNames := hname ▸ List.mem_map_of_mem hmem
    simp only [hold, Option.bind_some, decide_eq_true_eq, true_and]
    exact ne_comm

theorem flatMap_fieldStep? (hd : o.dialect = .postgresql) (hc : o.includeComments = true)
    (old new : Table) (f : Field) :
    (fieldStep? old f).toList.flatMap (·.statements o new) =
      if recommented old f then [commentOn new f] else [] := by
  unfold fieldStep? recommented
  cases old.field? f.name with
  | none => rfl
  | some before =>
    by_cases he : before = f
    · simp [he]
    · simp [he, Step.statements, changeStatements, hd, hc, commentOn]

theorem flatMap_filterMap_fieldStep? (hd : o.dialect = .postgresql)
    (hc : o.includeComments = true) (old new : Table) (fs : List Field) :
    (fs.filterMap (fieldStep? old)).flatMap (·.statements o new) =
      (fs.filter (recommented old)).map (commentOn new) := by
  induction fs with
  | nil => rfl
  | cons f fs ih =>
    have hstep := flatMap_fieldStep? hd hc old new f
    have hcons : ((f :: fs).filterMap (fieldStep? old)) =
        (fieldStep? old f).toList ++ fs.filterMap (fieldStep? old) := by
      rw [List.filterMap_cons]
      cases fieldStep? old f <;> rfl
    rw [hcons, List.flatMap_append, hstep, ih, List.filter_cons]
    split_ifs <;> rfl

theorem flatMap_drop (o : Options) (new : Table) (columns : List String) :
    (columns.map Step.drop).flatMap (·.statements o new) = [] := by
  rw [List.flatMap_map, List.flatMap_eq_nil_iff]
  exact fun _ _ => rfl

theorem statements_eq (hd : o.dialect = .postgresql) (hc : o.includeComments = true)
    (old new : Table) : statements o old new =
      (if (operations o old new).isEmpty then [] else [.alterTable new.name (operations o old new)])
        ++ (new.fields.filter (recommented old)).map (commentOn new) := by
  have hdrops := flatMap_drop o new (dropped old new)
  rw [dropped, List.map_map] at hdrops
  rw [statements, steps, List.flatMap_append, flatMap_filterMap_fieldStep? hd hc]
  exact congrArg _ ((congrArg _ hdrops).trans (List.append_nil _))

theorem commentOn_mem_statements (hd : o.dialect = .postgresql) (hc : o.includeComments = true) :
    commentOn new f ∈ statements o old new ↔
      ∃ g ∈ new.fields, recommented old g = true ∧ commentOn new g = commentOn new f := by
  rw [statements_eq hd hc, List.mem_append, List.mem_map]
  simp only [List.mem_filter, and_assoc, or_iff_right_iff_imp]
  intro h
  -- an alteration is no comment
  split_ifs at h
  · cases h
  · cases List.mem_singleton.1 h

/-- A comment that is not the one before is set if the column was there before, so a migration
carries the comments exactly if the columns that it adds have none. -/
theorem carriesComments_iff (hd : o.dialect = .postgresql) (hc : o.includeComments = true)
    (old new : Table) :
    (∀ f ∈ new.fields, f.comment ≠ old.commentOf f.name →
      (commentOn new f ∈ statements o old new ↔ f.name ∈ old.fieldNames)) ∧
    (CarriesComments o old new ↔
      ∀ f ∈ new.fields, f.name ∉ old.fieldNames → f.comment = none) := by
  have hcolumn (f : Field) (hf : f ∈ new.fields) (hne : f.comment ≠ old.commentOf f.name) :
      commentOn new f ∈ statements o old new ↔ f.name ∈ old.fieldNames := by
    rw [commentOn_mem_statements hd hc]
    constructor
    · rintro ⟨g, -, hg, hsame⟩
      have hname : g.name = f.name := by
        rw [commentOn, commentOn, Statement.commentOnColumn.injEq] at hsame
        exact hsame.2.1
      exact hname ▸ (recommented_iff.1 hg).1
    · intro hold
      exact ⟨f, hf, recommented_iff.2 ⟨hold, hne⟩, rfl⟩
  refine ⟨hcolumn, ?_⟩
  have hnew {f : Field} (hold : f.name ∉ old.fieldNames) : old.commentOf f.name = none := by
    rw [Table.commentOf, Table.field?_eq_none_iff.2 hold, Option.bind_none]
  constructor
  · intro h f hf hold
    by_contra hne
    have hmem := h f hf (hnew hold ▸ hne)
    exact hold ((hcolumn f hf (hnew hold ▸ hne)).1 hmem)
  · intro h f hf hne
    refine (hcolumn f hf hne).2 ?_
    by_contra hold
    exact hne ((h f hf hold).trans (hnew hold).symm)

theorem carriesComments_visits : CarriesComments { dialect := .postgresql }
    { name := "visits"
      fields := [{ name := "id", type := .int, comment := some "key" },
        { name := "page", type := .bigInt }] }
    { name := "visits"
      fields := [{ name := "day", type := .date }, { name := "id", type := .int },
        { name := "page", type := .bigInt, comment := some "which" }] } :=
  (carriesComments_iff rfl rfl _ _).2.2 (by decide)

theorem not_carriesComments : ¬∀ (o : Options) (old new : Table), o.dialect = .postgresql →
    o.includeComments = true → old.validate = .ok () → new.validate = .ok () →
    CarriesComments o old new := by
  intro h
  have hcarries := h { dialect := .postgresql }
    { name := "t", fields := [{ name := "a", type := .int }] }
    { name := "t"
      fields := [{ name := "a", type := .int },
        { name := "b", type := .int, comment := some "x" }] }
    rfl rfl (by decide) (by decide) { name := "b", type := .int, comment := some "x" }
    (by decide) (by decide)
  revert hcarries
  decide +kernel

end Migration

end SqlTables
