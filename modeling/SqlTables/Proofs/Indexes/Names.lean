import Mathlib.Data.List.Pairwise
import SqlTables.Creation.Script
import SqlTables.Proofs.Indexes.Coverage
import SqlTables.Proofs.Schema.Validity

/-! The names of the indexes that a whole script creates. Within a table they are distinct. Two
tables share one when the name of a table, with an underscore and more after it, is the name of the
other, and columns of the first make up for what is missing. -/

namespace SqlTables

open Script (CreateIndex Statement)

variable {o : Options} {t a b : Table} {ts : List Table}

def Script.Statement.createdIndex? : Statement → Option CreateIndex
  | .createIndex i => some i
  | _ => none

/-- Whether an index of the first table has the name of one of the second, whose own name is the
longer one. -/
def Table.Overlaps (a b : Table) : Prop :=
  ∃ rest, b.name = a.name ++ "_" ++ rest ∧
    ∃ cs ∈ Creation.standaloneColumns a, ∃ ds ∈ Creation.standaloneColumns b,
      "_".intercalate cs = rest ++ "_" ++ "_".intercalate ds

theorem Table.not_overlaps_self (t : Table) : ¬t.Overlaps t := by
  rintro ⟨rest, h, -⟩
  have hlength := congrArg String.length h
  have hunderscore : "_".length = 1 := rfl
  rw [String.length_append, String.length_append] at hlength
  omega

namespace Creation

def batchSections (o : Options) (ts : List Table) : List (List Statement) :=
  header o ts.length :: ts.map (statements o)

def createdIndexes (o : Options) (ts : List Table) : List CreateIndex :=
  (batchSections o ts).flatten.filterMap (·.createdIndex?)

theorem batch_eq_ok (ho : o.dialect ≠ .mysql) (hv : ∀ t ∈ ts, t.validate = .ok ()) :
    batch o ts =
      .ok ("\n\n".intercalate ((batchSections o ts).map (Script.render o.dialect))) := by
  have hfault : batchFault? ts = none := by
    rw [batchFault?, List.findSome?_eq_none_iff]
    exact fun t ht => Table.fault?_of_validate (hv t ht)
  rw [batch, hfault, sections, if_neg ho, batchSections, List.map_cons, List.map_map]
  rfl

theorem createdIndex?_header (o : Options) (count : Nat) :
    (header o count).filterMap (·.createdIndex?) = [] := by
  rw [List.filterMap_eq_nil_iff]
  intro s hs
  simp only [header, List.mem_append, List.mem_map, List.mem_cons, List.not_mem_nil,
    or_false] at hs
  rcases hs with ((rfl | rfl | rfl) | ⟨_, -, rfl⟩) | rfl <;> rfl

theorem createdIndex?_statements (o : Options) (t : Table) :
    (statements o t).filterMap (·.createdIndex?) = (keyPlan o t).indexes := by
  have hheading : (heading o t).filterMap (·.createdIndex?) = [] := by
    unfold heading
    split_ifs <;> rfl
  have hdrop : (if o.includeDropTable then [Statement.dropTable t.name true] else []).filterMap
      (·.createdIndex?) = [] := by
    split_ifs <;> rfl
  have hcomments : (commentStatements o t).filterMap (·.createdIndex?) = [] := by
    rw [List.filterMap_eq_nil_iff]
    unfold commentStatements
    split_ifs
    · intro s hs
      simp only [List.mem_append, List.mem_map, List.mem_flatMap] at hs
      rcases hs with ⟨_, -, rfl⟩ | ⟨_, -, _, -, rfl⟩ <;> rfl
    · simp
  have hindexes (is : List CreateIndex) :
      (is.map Statement.createIndex).filterMap (·.createdIndex?) = is := by
    rw [List.filterMap_map]
    exact List.filterMap_some
  simp only [statements, List.filterMap_append, hheading, hdrop, hcomments, hindexes,
    List.nil_append, List.append_nil]
  rfl

theorem createdIndexes_eq (ho : o.dialect ≠ .mysql) (ts : List Table) :
    createdIndexes o ts = ts.flatMap (standaloneIndexes o) := by
  have hsection (t : Table) :
      (statements o t).filterMap (·.createdIndex?) = standaloneIndexes o t := by
    rw [createdIndex?_statements, keyPlan_of_ne_mysql ho]
  rw [createdIndexes, batchSections, List.flatten_cons, List.filterMap_append,
    createdIndex?_header, List.nil_append, List.filterMap_flatten, List.map_map, List.flatMap]
  simp only [Function.comp_def, hsection]

theorem exists_of_concat_eq_append {s u k : List Char} (hne : u ≠ s)
    (h : u ++ ['_'] = s ++ ['_'] ++ k) : ∃ rest, u = s ++ ['_'] ++ rest ∧ k = rest ++ ['_'] := by
  rcases List.eq_nil_or_concat k with rfl | ⟨rest, c, rfl⟩
  · rw [List.append_nil] at h
    exact absurd (List.append_cancel_right h) hne
  · rw [List.concat_eq_append, ← List.append_assoc] at h
    obtain ⟨hu, hc⟩ := List.append_inj' h rfl
    exact ⟨rest, hu, by rw [List.concat_eq_append, hc]⟩

theorem append_underscore_eq_iff {s u v w : String} (hne : s ≠ u) :
    s ++ "_" ++ v = u ++ "_" ++ w ↔
      (∃ rest, u = s ++ "_" ++ rest ∧ v = rest ++ "_" ++ w) ∨
        ∃ rest, s = u ++ "_" ++ rest ∧ w = rest ++ "_" ++ v := by
  have hchars : s.toList ≠ u.toList := fun h => hne (String.toList_injective h)
  constructor
  · intro h
    have hlist : (s.toList ++ ['_']) ++ v.toList = (u.toList ++ ['_']) ++ w.toList := by
      simpa using congrArg String.toList h
    rcases List.append_eq_append_iff.1 hlist with ⟨k, hk, hv⟩ | ⟨k, hk, hw⟩
    · obtain ⟨rest, hu, rfl⟩ := exists_of_concat_eq_append hchars.symm hk
      refine .inl ⟨String.ofList rest, String.toList_injective ?_, String.toList_injective ?_⟩
      · simpa using hu
      · simpa using hv
    · obtain ⟨rest, hs, rfl⟩ := exists_of_concat_eq_append hchars hk
      refine .inr ⟨String.ofList rest, String.toList_injective ?_, String.toList_injective ?_⟩
      · simpa using hs
      · simpa using hw
  · rintro (⟨rest, rfl, rfl⟩ | ⟨rest, rfl, rfl⟩) <;> simp only [String.append_assoc]

theorem disjoint_names_iff (hne : a.name ≠ b.name) :
    List.Disjoint ((standaloneIndexes o a).map (·.name)) ((standaloneIndexes o b).map (·.name)) ↔
      ¬a.Overlaps b ∧ ¬b.Overlaps a := by
  simp only [List.disjoint_left, mem_names_standaloneIndexes_iff]
  constructor
  · intro h
    refine ⟨?_, ?_⟩
    · rintro ⟨rest, hname, cs, hcs, ds, hds, heq⟩
      refine h ⟨cs, hcs, rfl⟩ ⟨ds, hds, ?_⟩
      exact (append_underscore_eq_iff hne).2 (.inl ⟨rest, hname, heq⟩)
    · rintro ⟨rest, hname, ds, hds, cs, hcs, heq⟩
      refine h ⟨cs, hcs, rfl⟩ ⟨ds, hds, ?_⟩
      exact (append_underscore_eq_iff hne).2 (.inr ⟨rest, hname, heq⟩)
  · rintro ⟨hab, hba⟩ name ⟨cs, hcs, rfl⟩ ⟨ds, hds, heq⟩
    rcases (append_underscore_eq_iff hne).1 heq with ⟨rest, hname, hrest⟩ | ⟨rest, hname, hrest⟩
    · exact hab ⟨rest, hname, cs, hcs, ds, hds, hrest⟩
    · exact hba ⟨rest, hname, ds, hds, cs, hcs, hrest⟩

/-- The script for the tables is that of its sections, and the names of the indexes that it creates
are distinct if and only if no table overlaps another one. -/
theorem nodup_createdIndexes_iff (ho : o.dialect ≠ .mysql)
    (hv : ∀ t ∈ ts, t.validate = .ok ()) (hn : (ts.map (·.name)).Nodup) :
    batch o ts =
        .ok ("\n\n".intercalate ((batchSections o ts).map (Script.render o.dialect))) ∧
      (((createdIndexes o ts).map (·.name)).Nodup ↔ ∀ a ∈ ts, ∀ b ∈ ts, ¬a.Overlaps b) := by
  refine ⟨batch_eq_ok ho hv, ?_⟩
  have hwithin (t : Table) : ((standaloneIndexes o t).map (·.name)).Nodup := nodup_firstOfName [] _
  have hts : ts.Nodup := .of_map _ hn
  have hne {a b : Table} (ha : a ∈ ts) (hb : b ∈ ts) (hab : a ≠ b) : a.name ≠ b.name :=
    fun h => hab (List.inj_on_of_nodup_map hn ha hb h)
  rw [createdIndexes_eq ho, List.map_flatMap, List.nodup_flatMap]
  simp only [hwithin, implies_true, true_and]
  have hsymm : Std.Symm
      (Function.onFun List.Disjoint fun t => (standaloneIndexes o t).map (·.name)) :=
    ⟨fun _ _ h => h.symm⟩
  constructor
  · intro hdisjoint a ha b hb
    rcases eq_or_ne a b with rfl | hab
    · exact a.not_overlaps_self
    · exact ((disjoint_names_iff (hne ha hb hab)).1 (hdisjoint.forall ha hb hab)).1
  · intro hover
    refine hts.pairwise_of_forall_ne fun a ha b hb hab => ?_
    exact (disjoint_names_iff (hne ha hb hab)).2 ⟨hover a ha b hb, hover b hb a ha⟩

def pair (column : String) : List Table := [
  { name := "a", fields := [{ name := column, type := .int, indexed := true }] },
  { name := "a_b", fields := [{ name := "c", type := .int, indexed := true }] }]

theorem nodup_createdIndexes_iff_pair :
    Dialect.postgresql ≠ .mysql ∧ (∀ t ∈ pair "c", t.validate = .ok ()) ∧
      ((pair "c").map (·.name)).Nodup ∧
      ((createdIndexes { dialect := .postgresql } (pair "c")).map (·.name)).Nodup := by
  have hvalid : ∀ t ∈ pair "c", t.validate = .ok () := by decide
  have hnames : ((pair "c").map (·.name)).Nodup := by decide
  refine ⟨by decide, hvalid, hnames,
    (nodup_createdIndexes_iff (o := { dialect := .postgresql }) (by decide) hvalid hnames).2.2 ?_⟩
  have hcolumns : ∀ t ∈ pair "c", ∀ cs ∈ standaloneColumns t, cs = ["c"] := by decide
  rintro a ha b - ⟨rest, -, cs, hcs, ds, -, heq⟩
  -- the name of the one column has no underscore in it
  rw [hcolumns a ha cs hcs] at heq
  have hmem := congrArg (fun s : String => decide ('_' ∈ s.toList)) heq
  simp at hmem

theorem not_nodup_createdIndexes : ¬∀ (o : Options) (ts : List Table), o.dialect ≠ .mysql →
    (∀ t ∈ ts, t.validate = .ok ()) → (ts.map (·.name)).Nodup →
      ((createdIndexes o ts).map (·.name)).Nodup := by
  intro h
  have hnodup := h { dialect := .postgresql } (pair "b_c") (by decide) (by decide) (by decide)
  rw [createdIndexes_eq (by decide)] at hnodup
  exact absurd hnodup (by decide)

end Creation

end SqlTables
