import SqlTables.Proofs.Indexes.Standalone
import SqlTables.Proofs.RoundTrip.Keys

/-! What is kept of the keys of a table that are not all stated inside it. Unique keys are
constraints and none is lost. The other lists of columns have indexes of their own, and one is lost
when a list before it is joined to the same name. -/

namespace SqlTables.Creation

variable {o : Options} {t : Table} {columns : List String}

namespace KeyPlan

def HasUnique (p : KeyPlan) (columns : List String) : Prop :=
  ∃ name, .unique name columns ∈ p.constraints

def HasIndex (p : KeyPlan) (table : String) (columns : List String) : Prop :=
  ∃ i ∈ p.indexes, i.table = table ∧ i.columns = columns

structure CoversUnique (p : KeyPlan) (t : Table) : Prop where
  uniqueIndexes : ∀ i ∈ t.indexes, i.kind = .unique → p.HasUnique i.fields
  uniqueFields : ∀ f ∈ t.fields, f.unique = true → f.inPrimaryKey = false → p.HasUnique [f.name]

structure Covers (p : KeyPlan) (t : Table) : Prop extends p.CoversUnique t where
  indexes : ∀ i ∈ t.indexes, i.kind ≠ .unique → p.HasIndex t.name i.fields
  indexedFields : ∀ f ∈ t.fields, f.indexed = true → p.HasIndex t.name [f.name]

end KeyPlan

theorem mem_standaloneColumns_iff : columns ∈ standaloneColumns t ↔
    (∃ i ∈ t.indexes, i.kind ≠ .unique ∧ i.fields = columns) ∨
      ∃ f ∈ t.fields, f.indexed = true ∧ [f.name] = columns := by
  simp [standaloneColumns, indexedColumns, and_assoc]

theorem keyPlan_of_ne_mysql (ho : o.dialect ≠ .mysql) (t : Table) :
    keyPlan o t = ⟨uniqueConstraints t, standaloneIndexes o t⟩ := by
  unfold keyPlan
  split
  · exact absurd ‹_› ho
  · rfl

theorem coversUnique_uniqueConstraints (t : Table) (is : List Script.CreateIndex) :
    (⟨uniqueConstraints t, is⟩ : KeyPlan).CoversUnique t where
  uniqueIndexes i hi hkind := by
    have hmem : i ∈ t.indexes.filter (·.kind == .unique) :=
      List.mem_filter.2 ⟨hi, beq_iff_eq.2 hkind⟩
    exact ⟨some i.name, List.mem_append_right _ (List.mem_map_of_mem hmem)⟩
  uniqueFields f hf hunique hprimary := by
    have hmem := mem_uniqueColumns.2 ⟨f, hf, hunique, hprimary, rfl⟩
    exact ⟨none, List.mem_append_left _ (List.mem_map_of_mem hmem)⟩

theorem covers_iff {p : KeyPlan} (h : p.CoversUnique t) :
    p.Covers t ↔ ∀ columns ∈ standaloneColumns t, p.HasIndex t.name columns := by
  constructor
  · intro hp columns hmem
    rcases mem_standaloneColumns_iff.1 hmem with ⟨i, hi, hkind, rfl⟩ | ⟨f, hf, hindexed, rfl⟩
    · exact hp.indexes i hi hkind
    · exact hp.indexedFields f hf hindexed
  · intro hp
    refine ⟨h, fun i hi hkind => hp _ ?_, fun f hf hindexed => hp _ ?_⟩
    · exact mem_standaloneColumns_iff.2 (.inl ⟨i, hi, hkind, rfl⟩)
    · exact mem_standaloneColumns_iff.2 (.inr ⟨f, hf, hindexed, rfl⟩)

theorem hasIndex_iff {constraints : List Script.Constraint} :
    (⟨constraints, standaloneIndexes o t⟩ : KeyPlan).HasIndex t.name columns ↔
      (standaloneColumns t).find? (fun other => "_".intercalate other = "_".intercalate columns) =
        some columns := by
  rw [← exists_mem_standaloneIndexes_iff (o := o)]
  refine exists_congr fun i => and_congr_right fun hi => ?_
  simp [table_of_mem_standaloneIndexes hi]

theorem forall_find?_eq_some_iff {css : List (List String)} :
    (∀ cs ∈ css, css.find? (fun other => "_".intercalate other = "_".intercalate cs) = some cs) ↔
      ∀ cs ∈ css, ∀ ds ∈ css, "_".intercalate cs = "_".intercalate ds → cs = ds := by
  constructor
  · intro h cs hc ds hd heq
    have hfirst := h cs hc
    rw [heq, h ds hd] at hfirst
    exact (Option.some.inj hfirst).symm
  · intro h cs hc
    have hfound : (css.find? fun other => "_".intercalate other = "_".intercalate cs).isSome :=
      List.find?_isSome.2 ⟨cs, hc, decide_eq_true rfl⟩
    obtain ⟨ds, hd⟩ := Option.isSome_iff_exists.1 hfound
    have heq : "_".intercalate ds = "_".intercalate cs := by simpa using List.find?_some hd
    rw [hd, h ds (List.mem_of_find?_eq_some hd) cs hc heq]

/-- All unique keys are kept, and all other keys if and only if no two lists of columns are joined
to the same name; of those that are, the first alone has its index. -/
theorem covers_keyPlan_iff (ho : o.dialect ≠ .mysql) (t : Table) :
    (keyPlan o t).CoversUnique t ∧
      (∀ columns, (keyPlan o t).HasIndex t.name columns ↔ (standaloneColumns t).find?
        (fun other => "_".intercalate other = "_".intercalate columns) = some columns) ∧
      ((keyPlan o t).Covers t ↔ ∀ cs ∈ standaloneColumns t, ∀ ds ∈ standaloneColumns t,
        "_".intercalate cs = "_".intercalate ds → cs = ds) := by
  rw [keyPlan_of_ne_mysql ho]
  have hunique := coversUnique_uniqueConstraints t (standaloneIndexes o t)
  refine ⟨hunique, fun columns => hasIndex_iff, ?_⟩
  simp only [covers_iff hunique, hasIndex_iff, forall_find?_eq_some_iff]

def joined (third : String) : Table where
  name := "t"
  fields := [{ name := "a", type := .int }, { name := "b", type := .int },
    { name := third, type := .int }]
  indexes := [⟨"x", .normal, ["a", "b"]⟩, ⟨"y", .normal, [third]⟩]

theorem covers_keyPlan_iff_joined : Dialect.sqlite ≠ .mysql ∧
    (keyPlan { dialect := .sqlite } (joined "c")).Covers (joined "c") :=
  ⟨by decide, (covers_keyPlan_iff (o := { dialect := .sqlite }) (by decide) (joined "c")).2.2.2
    (by decide)⟩

theorem not_covers_keyPlan : ¬∀ (o : Options) (t : Table), o.dialect ≠ .mysql →
    t.validate = .ok () → (keyPlan o t).Covers t := by
  intro h
  have hcovers := h { dialect := .postgresql } (joined "a_b") (by decide) (by decide)
  obtain ⟨i, hi, -, hcolumns⟩ := hcovers.indexes ⟨"y", .normal, ["a_b"]⟩ (by decide) (by decide)
  have honly : standaloneIndexes { dialect := .postgresql } (joined "a_b") =
      [standaloneIndex { dialect := .postgresql } (joined "a_b") ["a", "b"] none] := by
    decide
  rw [keyPlan_of_ne_mysql (by decide), honly] at hi
  obtain rfl := List.mem_singleton.1 hi
  exact absurd hcolumns (by decide)

end SqlTables.Creation
