import Mathlib.Data.List.Forall2
import Mathlib.Tactic.Tauto
import SqlTables.Draft.Settle
import SqlTables.Proofs.Schema.Validity

/-! Settling a draft. Each pass is described by the table that it leaves; together they lose no key,
and a unique key over one column ends up as an index on the primary key and as a flag elsewhere. -/

namespace SqlTables

variable {t u : Table} {i : Index} {is js kept : List Index} {column : String}

def Table.folds (t : Table) (i : Index) : Bool :=
  t.fields.any fun f => !f.inPrimaryKey && i.isUniqueOn f.name

def Table.declaresUnique (t : Table) (column : String) : Bool :=
  t.fields.any (fun f => f.name = column && f.unique) || t.indexes.any (·.isUniqueOn column)

theorem isUniqueOn_iff : i.isUniqueOn column = true ↔ i.kind = .unique ∧ i.fields = [column] := by
  simp [Index.isUniqueOn]

theorem eq_of_isUniqueOn {other : String} (h : i.isUniqueOn column = true)
    (ho : i.isUniqueOn other = true) : column = other := by
  rw [isUniqueOn_iff] at h ho
  simpa using h.2.symm.trans ho.2

theorem map_name_map (change : Field → Field) (h : ∀ f, (change f).name = f.name)
    (fs : List Field) : (fs.map change).map (·.name) = fs.map (·.name) := by
  rw [List.map_map]
  exact List.map_congr_left fun f _ => h f

theorem fieldNames_modifyField (t : Table) (column : String) {change : Field → Field}
    (h : ∀ f, (change f).name = f.name) :
    (t.modifyField column change).fieldNames = t.fieldNames := by
  change (Table.modifyField.go column change t.fields).map (·.name) = t.fields.map (·.name)
  induction t.fields with
  | nil => rfl
  | cons f fs ih =>
    rw [Table.modifyField.go]
    split
    · simp [h]
    · simp [ih]

theorem fields_modifyField (hn : (t.fields.map (·.name)).Nodup) (column : String)
    (change : Field → Field) : t.modifyField column change =
      { t with fields := t.fields.map fun f => if f.name = column then change f else f } := by
  have hgo (fs : List Field) (hn : (fs.map (·.name)).Nodup) :
      Table.modifyField.go column change fs =
        fs.map fun f => if f.name = column then change f else f := by
    induction fs with
    | nil => rfl
    | cons f fs ih =>
      rw [List.map_cons, List.nodup_cons] at hn
      rw [Table.modifyField.go, List.map_cons]
      split_ifs with hc
      · have hkeep : fs.map (fun f => if f.name = column then change f else f) = fs := by
          rw [List.map_congr_left (g := id), List.map_id]
          intro g hg
          have hne : g.name ≠ column := by
            intro he
            exact hn.1 (List.mem_map.2 ⟨g, hg, he.trans hc.symm⟩)
          simp [hne]
        rw [hkeep]
      · rw [ih hn.2]
  rw [Table.modifyField, hgo _ hn]

theorem fieldNames_flagPrimaryKey {columns : List String}
    (h : Draft.flagPrimaryKey t columns = .ok u) :
    u.fieldNames = t.fieldNames ∧ ∀ column ∈ columns, column ∈ t.fieldNames := by
  induction columns generalizing t with
  | nil =>
    rw [Draft.flagPrimaryKey, Except.ok.injEq] at h
    simp [h]
  | cons column columns ih =>
    rw [Draft.flagPrimaryKey] at h
    split_ifs at h with hc
    obtain ⟨hnames, hrest⟩ := ih h
    have hkey : (t.modifyField column Field.asPrimaryKey).fieldNames = t.fieldNames :=
      fieldNames_modifyField t column fun _ => rfl
    rw [hkey] at hnames hrest
    exact ⟨hnames, List.forall_mem_cons.2 ⟨Table.hasField_iff_mem.1 hc, hrest⟩⟩

theorem flagPrimaryKey_eq_ok {columns : List String} (hn : (t.fields.map (·.name)).Nodup)
    (hc : ∀ column ∈ columns, column ∈ t.fieldNames) : Draft.flagPrimaryKey t columns =
      .ok { t with fields := t.fields.map fun f =>
        if f.name ∈ columns then f.asPrimaryKey else f } := by
  induction columns generalizing t with
  | nil => simp [Draft.flagPrimaryKey]
  | cons column columns ih =>
    rw [List.forall_mem_cons] at hc
    have hnames := map_name_map (fun f => if f.name = column then f.asPrimaryKey else f)
      (fun f => by split_ifs <;> rfl) t.fields
    rw [Draft.flagPrimaryKey, if_pos (Table.hasField_iff_mem.2 hc.1), fields_modifyField hn, ih]
    · simp only [List.map_map, Function.comp_def, List.mem_cons]
      congr 2
      -- a column that is listed twice is flagged twice, to the same effect
      refine List.map_congr_left fun f _ => ?_
      by_cases hf : f.name = column <;> by_cases hm : f.name ∈ columns <;>
        simp [hf, hm, Field.asPrimaryKey]
    · rwa [hnames]
    · intro c hm
      rw [Table.fieldNames, hnames]
      exact hc.2 c hm

theorem eraseDups_of_nodup {l : List Index} (h : l.Nodup) : l.eraseDups = l := by
  induction l with
  | nil => rfl
  | cons i l ih =>
    rw [List.nodup_cons] at h
    have hkeep : l.filter (fun j => !j == i) = l := by
      rw [List.filter_eq_self]
      rintro j hj
      have hne : j ≠ i := fun he => h.1 (he ▸ hj)
      simpa using hne
    rw [List.eraseDups_cons, hkeep, ih h.2]

theorem eraseDups_append_cons_of_mem (hi : i ∈ kept) (is : List Index) :
    (kept ++ i :: is).eraseDups = (kept ++ is).eraseDups := by
  simp [List.eraseDups_append, List.removeAll, hi]

theorem distinctIndexes_eq_ok_iff (hk : (kept.map (·.name)).Nodup) :
    Draft.distinctIndexes kept is = .ok js ↔
      (∀ i ∈ is, ∀ j ∈ kept ++ is, j.name = i.name → j = i) ∧ js = (kept ++ is).eraseDups := by
  induction is generalizing kept with
  | nil => simp [Draft.distinctIndexes, eraseDups_of_nodup (List.Nodup.of_map _ hk), eq_comm]
  | cons i is ih =>
    rw [Draft.distinctIndexes, List.forall_mem_cons]
    split
    · rename_i hnone
      have hnew : ∀ j ∈ kept, j.name ≠ i.name := by simpa using hnone
      have hk' : ((kept ++ [i]).map (·.name)).Nodup := by
        rw [List.map_append, List.nodup_append]
        refine ⟨hk, by simp, ?_⟩
        simpa using hnew
      have happend : kept ++ i :: is = kept ++ [i] ++ is := by simp
      rw [ih hk', ← happend]
      refine ⟨fun ⟨hrest, hjs⟩ => ⟨⟨fun j hj hname => ?_, hrest⟩, hjs⟩,
        fun ⟨⟨_, hrest⟩, hjs⟩ => ⟨hrest, hjs⟩⟩
      rcases List.mem_append.1 hj with hj | hj
      · exact absurd hname (hnew j hj)
      · rcases List.mem_cons.1 hj with rfl | hj
        · rfl
        · exact (hrest j hj i (by simp) hname.symm).symm
    · rename_i seen hseen
      have hmem : seen ∈ kept := List.mem_of_find?_eq_some hseen
      have hname : seen.name = i.name := by simpa using List.find?_some hseen
      split_ifs with hi
      · subst hi
        have hmems (j : Index) : j ∈ kept ++ seen :: is ↔ j ∈ kept ++ is := by
          simp only [List.mem_append, List.mem_cons]
          constructor
          · rintro (hj | rfl | hj)
            · exact .inl hj
            · exact .inl hmem
            · exact .inr hj
          · rintro (hj | hj)
            · exact .inl hj
            · exact .inr (.inr hj)
        rw [ih hk, eraseDups_append_cons_of_mem hmem]
        simp only [hmems]
        refine ⟨fun ⟨hrest, hjs⟩ => ⟨⟨fun j hj hname => ?_, hrest⟩, hjs⟩,
          fun ⟨⟨_, hrest⟩, hjs⟩ => ⟨hrest, hjs⟩⟩
        rcases List.mem_append.1 hj with hj | hj
        · exact List.inj_on_of_nodup_map hk hj hmem hname
        · exact (hrest j hj seen (List.mem_append_left _ hmem) hname.symm).symm
      · simp only [false_iff]
        rintro ⟨⟨hsame, -⟩, -⟩
        exact hi (hsame seen (List.mem_append_left _ hmem) hname)

theorem distinctIndexes_nil_eq_ok_iff :
    Draft.distinctIndexes [] is = .ok js ↔
      (∀ i ∈ is, ∀ j ∈ is, j.name = i.name → j = i) ∧ js = is.eraseDups :=
  distinctIndexes_eq_ok_iff List.nodup_nil

namespace Table

/-- The table with the indexes added, those that fold as flags of their columns. -/
def place (t : Table) (is : List Index) : Table :=
  { t with
    fields := t.fields.map fun f =>
      { f with unique := f.unique || (!f.inPrimaryKey && is.any (·.isUniqueOn f.name)) }
    indexes := t.indexes ++ is.filter (!t.folds ·) }

theorem fieldNames_place (t : Table) (is : List Index) : (t.place is).fieldNames = t.fieldNames :=
  map_name_map (fun f =>
    { f with unique := f.unique || (!f.inPrimaryKey && is.any (·.isUniqueOn f.name)) })
    (fun _ => rfl) t.fields

theorem folds_place (t : Table) (is : List Index) (i : Index) :
    (t.place is).folds i = t.folds i := by
  simp only [folds, place, List.any_map, Function.comp_def]

theorem place_nil (t : Table) : t.place [] = t := by
  simp [place]

theorem place_place (t : Table) (is js : List Index) :
    (t.place is).place js = t.place (is ++ js) := by
  have hfolds : (fun i => !(t.place is).folds i) = fun i => !t.folds i := by
    funext i
    rw [folds_place]
  rw [place, hfolds]
  simp only [place, List.map_map, Function.comp_def, List.append_assoc, List.filter_append,
    List.any_append, Bool.or_assoc, Bool.and_or_distrib_left]

end Table

theorem folds_eq_false (h : ∀ column, i.isUniqueOn column = false) : t.folds i = false := by
  simp [Table.folds, h]

theorem folds_of_field? (hn : (t.fields.map (·.name)).Nodup) {f : Field}
    (hf : t.field? column = some f) (h : i.isUniqueOn column = true) :
    t.folds i = !f.inPrimaryKey := by
  obtain ⟨hmem, hname⟩ := Table.mem_of_field? hf
  rw [Bool.eq_iff_iff, Table.folds, List.any_eq_true]
  constructor
  · rintro ⟨g, hg, hfold⟩
    rw [Bool.and_eq_true] at hfold
    have hgf : g.name = f.name := (eq_of_isUniqueOn hfold.2 h).trans hname.symm
    rw [← eq_of_name_eq hn hg hmem hgf]
    exact hfold.1
  · intro hkey
    refine ⟨f, hmem, ?_⟩
    rw [hkey, hname, h]
    rfl

theorem place_of_not_folds (h : t.folds i = false) : t.place [i] = t.withIndex i := by
  have hfields : t.fields.map (fun f =>
      { f with unique := f.unique || (!f.inPrimaryKey && [i].any (·.isUniqueOn f.name)) }) =
        t.fields := by
    rw [List.map_congr_left (g := id), List.map_id]
    intro f hf
    rw [Table.folds, List.any_eq_false] at h
    have hfold := h f hf
    rw [Bool.not_eq_true] at hfold
    simp [hfold]
  simp only [Table.place, hfields, Table.withIndex, List.filter_cons, h, List.filter_nil,
    Bool.not_false, if_true]

theorem place_of_folds (hn : (t.fields.map (·.name)).Nodup) {f : Field}
    (hf : t.field? column = some f) (hkey : f.inPrimaryKey = false)
    (h : i.isUniqueOn column = true) : t.place [i] = t.modifyField column Field.asUnique := by
  obtain ⟨hmem, hname⟩ := Table.mem_of_field? hf
  have hfolds : t.folds i = true := by
    rw [folds_of_field? hn hf h, hkey]
    rfl
  rw [fields_modifyField hn]
  simp only [Table.place, List.filter_cons, hfolds, List.filter_nil, Bool.not_true,
    Bool.false_eq_true, if_false, List.append_nil]
  congr 1
  refine List.map_congr_left fun g hg => ?_
  split_ifs with hg'
  · have hgf : g = f := eq_of_name_eq hn hg hmem (hg'.trans hname.symm)
    have hg'' : i.isUniqueOn g.name = true := hg' ▸ h
    rw [hgf] at hg'' ⊢
    simp [hg'', hkey, Field.asUnique]
  · have hne : i.isUniqueOn g.name = false := by
      rw [Bool.eq_false_iff]
      exact fun hu => hg' (eq_of_isUniqueOn hu h)
    simp [hne]

theorem placeIndex_of_not_unique (h : ∀ column, i.isUniqueOn column = false) :
    Draft.placeIndex t i = .ok (t.withIndex i) := by
  unfold Draft.placeIndex
  split
  · rename_i column hkind hfields
    have hunique := h column
    rw [Bool.eq_false_iff, ne_eq, isUniqueOn_iff] at hunique
    exact absurd ⟨hkind, hfields⟩ hunique
  · rfl

theorem placeIndex_of_isUniqueOn (h : i.isUniqueOn column = true) :
    Draft.placeIndex t i =
      match t.field? column with
      | none => .error (.unknownIndexColumn i.name column)
      | some f =>
        .ok (if f.inPrimaryKey then t.withIndex i else t.modifyField column Field.asUnique) := by
  obtain ⟨name, kind, fields⟩ := i
  obtain ⟨rfl, rfl⟩ : kind = .unique ∧ fields = [column] := isUniqueOn_iff.1 h
  rfl

theorem placeIndex_eq_ok_iff (hn : (t.fields.map (·.name)).Nodup) :
    Draft.placeIndex t i = .ok u ↔
      (∀ column, i.isUniqueOn column = true → column ∈ t.fieldNames) ∧ u = t.place [i] := by
  by_cases hu : ∃ column, i.isUniqueOn column = true
  · obtain ⟨column, h⟩ := hu
    have hcolumns : (∀ other, i.isUniqueOn other = true → other ∈ t.fieldNames) ↔
        column ∈ t.fieldNames :=
      ⟨fun hall => hall column h, fun hc other ho => eq_of_isUniqueOn h ho ▸ hc⟩
    rw [placeIndex_of_isUniqueOn h, hcolumns]
    cases hf : t.field? column with
    | none => simp [Table.field?_eq_none_iff.1 hf]
    | some f =>
      have hmem : column ∈ t.fieldNames := by
        obtain ⟨hmem, rfl⟩ := Table.mem_of_field? hf
        exact List.mem_map_of_mem hmem
      cases hkey : f.inPrimaryKey with
      | true =>
        have hfolds : t.folds i = false := by rw [folds_of_field? hn hf h, hkey]; rfl
        rw [place_of_not_folds hfolds]
        simp [hkey, hmem, eq_comm]
      | false =>
        rw [place_of_folds hn hf hkey h]
        simp [hkey, hmem, eq_comm]
  · have hnone : ∀ column, i.isUniqueOn column = false := by simpa using hu
    rw [placeIndex_of_not_unique hnone, place_of_not_folds (folds_eq_false hnone)]
    simp [hnone, eq_comm]

theorem placeIndexes_eq_ok_iff (hn : (t.fields.map (·.name)).Nodup) :
    Draft.placeIndexes t is = .ok u ↔
      (∀ i ∈ is, ∀ column, i.isUniqueOn column = true → column ∈ t.fieldNames) ∧
        u = t.place is := by
  induction is generalizing t with
  | nil =>
    simp only [Draft.placeIndexes, Except.ok.injEq, Table.place_nil, List.not_mem_nil,
      false_implies, implies_true, true_and]
    exact eq_comm
  | cons i is ih =>
    have hnames := Table.fieldNames_place t [i]
    have happend : t.place (i :: is) = (t.place [i]).place is := (Table.place_place t [i] is).symm
    have hplaced := @ih (t.place [i]) (by rwa [← Table.fieldNames, hnames])
    rw [Draft.placeIndexes, List.forall_mem_cons, happend]
    cases hi : Draft.placeIndex t i with
    | error e =>
      simp only [reduceCtorEq, false_iff]
      rintro ⟨⟨hunique, -⟩, -⟩
      rw [(placeIndex_eq_ok_iff hn).2 ⟨hunique, rfl⟩] at hi
      simp at hi
    | ok v =>
      obtain ⟨hunique, rfl⟩ := (placeIndex_eq_ok_iff hn).1 hi
      change Draft.placeIndexes (t.place [i]) is = .ok u ↔ _
      rw [hplaced, hnames]
      constructor
      · rintro ⟨hrest, hu⟩
        exact ⟨⟨hunique, hrest⟩, hu⟩
      · rintro ⟨⟨-, hrest⟩, hu⟩
        exact ⟨hrest, hu⟩

def Table.withIndexes (t : Table) (is : List Index) : Table :=
  { t with indexes := t.indexes ++ is }

theorem withIndexes_withIndexes (t : Table) (is js : List Index) :
    (t.withIndexes is).withIndexes js = t.withIndexes (is ++ js) := by
  simp [Table.withIndexes]

theorem exists_promote (t : Table) (column : String) :
    ∃ added, Draft.promote t column = t.withIndexes added ∧
      (∀ i ∈ added, i.isUniqueOn column = true) ∧
      ∃ i ∈ t.indexes ++ added, i.isUniqueOn column = true := by
  unfold Draft.promote
  split_ifs with hc
  · refine ⟨[], by simp [Table.withIndexes], by simp, ?_⟩
    simpa using hc
  · generalize freshName (t.indexes.map (·.name)) ("uk_" ++ column) = name
    have hu : (⟨name, .unique, [column]⟩ : Index).isUniqueOn column = true := by
      simp [Index.isUniqueOn]
    exact ⟨[⟨name, .unique, [column]⟩], rfl, by simpa using hu, _, by simp, hu⟩

theorem exists_foldl_promote (t : Table) (columns : List String) :
    ∃ added, columns.foldl Draft.promote t = t.withIndexes added ∧
      (∀ i ∈ added, ∃ column ∈ columns, i.isUniqueOn column = true) ∧
      ∀ column ∈ columns, ∃ i ∈ t.indexes ++ added, i.isUniqueOn column = true := by
  induction columns generalizing t with
  | nil => exact ⟨[], by simp [Table.withIndexes], by simp, by simp⟩
  | cons column columns ih =>
    obtain ⟨first, hfirst, hover, hkey⟩ := exists_promote t column
    obtain ⟨added, hadded, hovers, hkeys⟩ := ih (t.withIndexes first)
    have hindexes : (t.withIndexes first).indexes ++ added = t.indexes ++ (first ++ added) :=
      List.append_assoc ..
    rw [hindexes] at hkeys
    refine ⟨first ++ added, ?_, ?_, ?_⟩
    · rw [List.foldl_cons, hfirst, hadded, withIndexes_withIndexes]
    · intro i hi
      rcases List.mem_append.1 hi with hi | hi
      · exact ⟨column, List.mem_cons_self .., hover i hi⟩
      · obtain ⟨other, ho, hi⟩ := hovers i hi
        exact ⟨other, List.mem_cons_of_mem _ ho, hi⟩
    · rw [List.forall_mem_cons]
      refine ⟨?_, hkeys⟩
      obtain ⟨i, hi, hu⟩ := hkey
      refine ⟨i, ?_, hu⟩
      rw [← List.append_assoc]
      exact List.mem_append_left added hi

def Table.flaggedKeys (t : Table) : List String :=
  (t.fields.filter fun f => f.inPrimaryKey && f.unique).map (·.name)

theorem exists_promoteKeyFlags (t : Table) :
    ∃ added, Draft.promoteKeyFlags t = (Draft.clearKeyFlags t).withIndexes added ∧
      (∀ i ∈ added, ∃ column ∈ t.flaggedKeys, i.isUniqueOn column = true) ∧
      ∀ column ∈ t.flaggedKeys, ∃ i ∈ t.indexes ++ added, i.isUniqueOn column = true :=
  exists_foldl_promote (Draft.clearKeyFlags t) t.flaggedKeys

theorem settle_eq_ok_iff {d : Draft} : d.settle = .ok t ↔ ∃ keyed is placed,
    Draft.flagPrimaryKey d.table d.primaryKey = .ok keyed ∧
      Draft.distinctIndexes [] keyed.indexes = .ok is ∧
      Draft.placeIndexes { keyed with indexes := [] } is = .ok placed ∧
      (Draft.promoteKeyFlags placed).validate = .ok () ∧ Draft.promoteKeyFlags placed = t := by
  unfold Draft.settle
  cases hkeyed : Draft.flagPrimaryKey d.table d.primaryKey with
  | error e => simp [bind, Except.bind]
  | ok keyed =>
    cases his : Draft.distinctIndexes [] keyed.indexes with
    | error e => simp [bind, Except.bind, his]
    | ok is =>
      cases hplaced : Draft.placeIndexes { keyed with indexes := [] } is with
      | error e => simp [bind, Except.bind, his, hplaced]
      | ok placed =>
        cases hvalid : (Draft.promoteKeyFlags placed).validate with
        | error e => simp [bind, Except.bind, his, hplaced, hvalid]
        | ok u => simp [bind, Except.bind, pure, Except.pure, his, hplaced, hvalid]

theorem fieldNames_placeIndexes (h : Draft.placeIndexes t is = .ok u) :
    u.fieldNames = t.fieldNames := by
  induction is generalizing t with
  | nil =>
    rw [Draft.placeIndexes, Except.ok.injEq] at h
    rw [h]
  | cons i is ih =>
    rw [Draft.placeIndexes] at h
    split at h
    · simp at h
    · rename_i v hv
      rw [ih h]
      unfold Draft.placeIndex at hv
      split at hv
      · split at hv
        · simp at hv
        · rw [Except.ok.injEq] at hv
          rw [← hv]
          split_ifs
          · rfl
          · exact fieldNames_modifyField t _ fun _ => rfl
      · rw [Except.ok.injEq] at hv
        rw [← hv]
        rfl

theorem fieldNames_promoteKeyFlags (t : Table) :
    (Draft.promoteKeyFlags t).fieldNames = t.fieldNames := by
  obtain ⟨added, hadded, -⟩ := exists_promoteKeyFlags t
  rw [hadded]
  exact map_name_map (fun f => if f.inPrimaryKey then { f with unique := false } else f)
    (fun f => by split_ifs <;> rfl) t.fields

def Draft.keyed (d : Draft) : Table :=
  { d.table with
    fields := d.table.fields.map fun f => if f.name ∈ d.primaryKey then f.asPrimaryKey else f
    indexes := [] }

theorem fieldNames_keyed (d : Draft) : d.keyed.fieldNames = d.table.fieldNames :=
  map_name_map (fun f => if f.name ∈ d.primaryKey then f.asPrimaryKey else f)
    (fun f => by split_ifs <;> rfl) d.table.fields

def Draft.placed (d : Draft) : Table := d.keyed.place d.table.indexes.eraseDups

theorem nodup_of_settle {d : Draft} (h : d.settle = .ok t) : d.table.fieldNames.Nodup := by
  obtain ⟨keyed, is, placed, hkeyed, -, hplaced, hvalid, -⟩ := settle_eq_ok_iff.1 h
  have hn := Table.nodup_fieldNames_of_validate hvalid
  rw [fieldNames_promoteKeyFlags, fieldNames_placeIndexes hplaced] at hn
  rw [← (fieldNames_flagPrimaryKey hkeyed).1]
  exact hn

theorem settle_eq_ok_iff_of_nodup {d : Draft} (hn : d.table.fieldNames.Nodup) :
    d.settle = .ok t ↔
      (∀ column ∈ d.primaryKey, column ∈ d.table.fieldNames) ∧
      (∀ i ∈ d.table.indexes, ∀ j ∈ d.table.indexes, j.name = i.name → j = i) ∧
      (∀ i ∈ d.table.indexes, ∀ column, i.isUniqueOn column = true →
        column ∈ d.table.fieldNames) ∧
      (Draft.promoteKeyFlags d.placed).validate = .ok () ∧ Draft.promoteKeyFlags d.placed = t := by
  have hn' : (d.keyed.fields.map (·.name)).Nodup := by
    change d.keyed.fieldNames.Nodup
    rwa [fieldNames_keyed]
  constructor
  · intro h
    obtain ⟨keyed, is, placed, hkeyed, his, hplaced, hvalid, ht⟩ := settle_eq_ok_iff.1 h
    have hcolumns := (fieldNames_flagPrimaryKey hkeyed).2
    rw [flagPrimaryKey_eq_ok hn hcolumns, Except.ok.injEq] at hkeyed
    subst hkeyed
    rw [distinctIndexes_nil_eq_ok_iff] at his
    obtain ⟨hsame, rfl⟩ := his
    obtain ⟨hunique, rfl⟩ := (placeIndexes_eq_ok_iff hn').1 hplaced
    refine ⟨hcolumns, hsame, fun i hi column hu => ?_, hvalid, ht⟩
    rw [← fieldNames_keyed]
    exact hunique i (List.mem_eraseDups.2 hi) column hu
  · rintro ⟨hcolumns, hsame, hunique, hvalid, ht⟩
    refine settle_eq_ok_iff.2 ⟨_, _, d.placed, flagPrimaryKey_eq_ok hn hcolumns,
      distinctIndexes_nil_eq_ok_iff.2 ⟨hsame, rfl⟩,
      (placeIndexes_eq_ok_iff hn').2 ⟨fun i hi column hu => ?_, rfl⟩, hvalid, ht⟩
    show column ∈ d.keyed.fieldNames
    rw [fieldNames_keyed]
    exact hunique i (List.mem_eraseDups.1 hi) column hu

namespace Draft

def isKey (d : Draft) (f : Field) : Bool := f.inPrimaryKey || decide (f.name ∈ d.primaryKey)

def settledField (d : Draft) (f : Field) : Field :=
  { f with
    inPrimaryKey := d.isKey f
    unique := !d.isKey f && (f.unique || d.table.indexes.any (·.isUniqueOn f.name)) }

def folds (d : Draft) (i : Index) : Bool :=
  d.table.fields.any fun f => !d.isKey f && i.isUniqueOn f.name

variable {d : Draft}

theorem any_eraseDups (p : Index → Bool) (is : List Index) : is.eraseDups.any p = is.any p := by
  rw [Bool.eq_iff_iff, List.any_eq_true, List.any_eq_true]
  simp only [List.mem_eraseDups]

theorem keyed_eq (d : Draft) (f : Field) :
    (if f.name ∈ d.primaryKey then f.asPrimaryKey else f) =
      { f with inPrimaryKey := d.isKey f } := by
  by_cases h : f.name ∈ d.primaryKey <;> simp [isKey, h, Field.asPrimaryKey]

theorem folds_keyed (d : Draft) : d.keyed.folds = d.folds := by
  funext i
  simp only [Table.folds, keyed, List.any_map, Function.comp_def, keyed_eq, folds]

theorem fields_placed (d : Draft) : d.placed.fields = d.table.fields.map fun f =>
    { f with
      inPrimaryKey := d.isKey f
      unique := f.unique ||
        (!d.isKey f && d.table.indexes.any (·.isUniqueOn f.name)) } := by
  change (d.table.fields.map _).map _ = _
  rw [List.map_map]
  refine List.map_congr_left fun f _ => ?_
  simp only [Function.comp_apply, keyed_eq, any_eraseDups]

theorem indexes_placed (d : Draft) :
    d.placed.indexes = d.table.indexes.eraseDups.filter (!d.folds ·) := by
  change [] ++ d.table.indexes.eraseDups.filter (!d.keyed.folds ·) = _
  rw [folds_keyed, List.nil_append]

theorem clearKeyFlags_placed (d : Draft) : clearKeyFlags d.placed =
    { d.table with
      fields := d.table.fields.map d.settledField
      indexes := d.table.indexes.eraseDups.filter (!d.folds ·) } := by
  have hfields : (clearKeyFlags d.placed).fields = d.table.fields.map d.settledField := by
    change d.placed.fields.map _ = _
    rw [fields_placed, List.map_map]
    refine List.map_congr_left fun f _ => ?_
    cases hk : d.isKey f <;> simp [settledField, hk]
  rw [← hfields, ← indexes_placed]
  rfl

theorem mem_flaggedKeys {column : String} : column ∈ d.placed.flaggedKeys ↔
    ∃ f ∈ d.table.fields, d.isKey f = true ∧ f.unique = true ∧ f.name = column := by
  rw [Table.flaggedKeys, fields_placed, List.mem_map]
  simp only [List.mem_filter, List.mem_map]
  constructor
  · rintro ⟨_, ⟨⟨f, hf, rfl⟩, hflags⟩, rfl⟩
    rw [Bool.and_eq_true] at hflags
    obtain ⟨hkey, hunique⟩ := hflags
    refine ⟨f, hf, hkey, ?_, rfl⟩
    simpa [show d.isKey f = true from hkey] using hunique
  · rintro ⟨f, hf, hkey, hunique, rfl⟩
    refine ⟨_, ⟨⟨f, hf, rfl⟩, ?_⟩, rfl⟩
    simp [hkey, hunique]

theorem exists_of_settle (h : d.settle = .ok t) :
    ∃ added, t = { d.table with
        fields := d.table.fields.map d.settledField
        indexes := d.table.indexes.eraseDups.filter (!d.folds ·) ++ added } ∧
      (∀ i ∈ added, ∃ f ∈ d.table.fields,
        d.isKey f = true ∧ f.unique = true ∧ i.isUniqueOn f.name = true) ∧
      ∀ f ∈ d.table.fields, d.isKey f = true → f.unique = true →
        ∃ i ∈ t.indexes, i.isUniqueOn f.name = true := by
  obtain ⟨added, hadded, hover, hkeys⟩ := exists_promoteKeyFlags d.placed
  have ht : (clearKeyFlags d.placed).withIndexes added = t := by
    rw [← hadded]
    exact ((settle_eq_ok_iff_of_nodup (nodup_of_settle h)).1 h).2.2.2.2
  rw [clearKeyFlags_placed] at ht
  refine ⟨added, ht.symm, fun i hi => ?_, fun f hf hkey hunique => ?_⟩
  · obtain ⟨column, hc, hu⟩ := hover i hi
    obtain ⟨f, hf, hkey, hunique, rfl⟩ := mem_flaggedKeys.1 hc
    exact ⟨f, hf, hkey, hunique, hu⟩
  · have hindexes : t.indexes = d.placed.indexes ++ added := by
      rw [← ht, indexes_placed]
      rfl
    rw [hindexes]
    exact hkeys f.name (mem_flaggedKeys.2 ⟨f, hf, hkey, hunique, rfl⟩)

end Draft

/-- What a draft and the table it settles to have in common. -/
structure Draft.Settles (d : Draft) (t : Table) : Prop where
  fields : List.Forall₂ (fun f g => g = { f with inPrimaryKey := d.isKey f, unique := g.unique })
    d.table.fields t.fields
  others : t = { d.table with fields := t.fields, indexes := t.indexes }
  declaresUnique : ∀ column, t.declaresUnique column = d.table.declaresUnique column
  indexes : ∃ added, t.indexes = d.table.indexes.eraseDups.filter (!t.folds ·) ++ added ∧
    ∀ i ∈ added, ∃ f ∈ d.table.fields,
      d.isKey f = true ∧ f.unique = true ∧ i.isUniqueOn f.name = true
  once : ∀ i ∈ d.table.indexes, t.folds i = false → t.indexes.count i = 1
  valid : t.validate = .ok ()
  keyFlags : ∀ f ∈ t.fields, f.inPrimaryKey = true → f.unique = false
  folded : ∀ i ∈ t.indexes, t.folds i = false

section

variable {d : Draft} {added : List Index}

theorem folds_of_fields (hf : t.fields = d.table.fields.map d.settledField) (i : Index) :
    t.folds i = d.folds i := by
  simp only [Table.folds, hf, List.any_map, Function.comp_def, Draft.settledField, Draft.folds]

theorem declaresUnique_of_settle (h : d.settle = .ok t) (column : String) :
    t.declaresUnique column = d.table.declaresUnique column := by
  obtain ⟨added, ht, hover, hkeys⟩ := Draft.exists_of_settle h
  have hfields : t.fields = d.table.fields.map d.settledField := by rw [ht]
  have hindexes : t.indexes = d.table.indexes.eraseDups.filter (!d.folds ·) ++ added := by rw [ht]
  have hflag (f : Field) (hf : f ∈ d.table.fields) (hkey : d.isKey f = false)
      (hunique : f.unique = true ∨ ∃ i ∈ d.table.indexes, i.isUniqueOn f.name = true) :
      ∃ g ∈ t.fields, g.name = f.name ∧ g.unique = true := by
    refine ⟨d.settledField f, hfields ▸ List.mem_map_of_mem hf, rfl, ?_⟩
    simpa [Draft.settledField, hkey] using hunique
  rw [Bool.eq_iff_iff]
  simp only [Table.declaresUnique, Bool.or_eq_true, List.any_eq_true, Bool.and_eq_true,
    decide_eq_true_eq]
  constructor
  · rintro (⟨g, hg, rfl, hunique⟩ | ⟨i, hi, hu⟩)
    · rw [hfields] at hg
      obtain ⟨f, hf, rfl⟩ := List.mem_map.1 hg
      simp only [Draft.settledField, Bool.and_eq_true, Bool.or_eq_true, List.any_eq_true]
        at hunique
      exact hunique.2.imp (fun hu => ⟨f, hf, rfl, hu⟩) id
    · rw [hindexes, List.mem_append, List.mem_filter, List.mem_eraseDups] at hi
      rcases hi with ⟨hi, -⟩ | hi
      · exact .inr ⟨i, hi, hu⟩
      · obtain ⟨f, hf, -, hunique, hu'⟩ := hover i hi
        exact .inl ⟨f, hf, eq_of_isUniqueOn hu' hu, hunique⟩
  · rintro (⟨f, hf, rfl, hunique⟩ | ⟨i, hi, hu⟩)
    · cases hkey : d.isKey f with
      | true => exact .inr (hkeys f hf hkey hunique)
      | false => exact .inl (hflag f hf hkey (.inl hunique))
    · cases hfolds : d.folds i with
      | true =>
        rw [Draft.folds, List.any_eq_true] at hfolds
        obtain ⟨f, hf, hfold⟩ := hfolds
        rw [Bool.and_eq_true, Bool.not_eq_true'] at hfold
        obtain rfl := eq_of_isUniqueOn hfold.2 hu
        exact .inl (hflag f hf hfold.1 (.inr ⟨i, hi, hu⟩))
      | false =>
        refine .inr ⟨i, ?_, hu⟩
        rw [hindexes, List.mem_append, List.mem_filter, List.mem_eraseDups]
        exact .inl ⟨hi, by simp [hfolds]⟩

theorem validate_of_settle (h : d.settle = .ok t) : t.validate = .ok () := by
  obtain ⟨-, -, -, hvalid, rfl⟩ := (settle_eq_ok_iff_of_nodup (nodup_of_settle h)).1 h
  exact hvalid

theorem unique_eq_false_of_settle (h : d.settle = .ok t) {f : Field} (hf : f ∈ t.fields)
    (hkey : f.inPrimaryKey = true) : f.unique = false := by
  obtain ⟨added, ht, -, -⟩ := Draft.exists_of_settle h
  rw [ht] at hf
  obtain ⟨g, _, rfl⟩ := List.mem_map.1 hf
  simp [Draft.settledField, show d.isKey g = true from hkey]

theorem folds_eq_false_of_settle (h : d.settle = .ok t) {i : Index} (hi : i ∈ t.indexes) :
    t.folds i = false := by
  obtain ⟨added, ht, hover, -⟩ := Draft.exists_of_settle h
  have hfields : t.fields = d.table.fields.map d.settledField := by rw [ht]
  rw [folds_of_fields hfields]
  rw [ht] at hi
  rcases List.mem_append.1 hi with hi | hi
  · simpa using (List.mem_filter.1 hi).2
  · obtain ⟨f, hf, hkey, -, hu⟩ := hover i hi
    rw [Draft.folds, List.any_eq_false]
    intro g hg hfold
    -- a column outside the primary key would be the key column itself
    rw [Bool.and_eq_true] at hfold
    rw [eq_of_name_eq (nodup_of_settle h) hg hf (eq_of_isUniqueOn hfold.2 hu), hkey] at hfold
    exact absurd hfold.1 (by simp)

/-- Settling loses no key and brings unique keys over one column to one form. -/
theorem settles_of_settle (h : d.settle = .ok t) : d.Settles t := by
  obtain ⟨added, ht, hover, hkeys⟩ := Draft.exists_of_settle h
  have hvalid := validate_of_settle h
  have hfields : t.fields = d.table.fields.map d.settledField := by rw [ht]
  have hindexes : t.indexes = d.table.indexes.eraseDups.filter (!t.folds ·) ++ added := by
    simp only [folds_of_fields hfields]
    rw [ht]
  refine ⟨?_, ?_, declaresUnique_of_settle h, ⟨added, hindexes, hover⟩, fun i hi hfolds => ?_,
    hvalid, fun f => unique_eq_false_of_settle h, fun i => folds_eq_false_of_settle h⟩
  · rw [hfields, List.forall₂_map_right_iff, List.forall₂_same]
    intro f _
    rfl
  · rw [ht]
  · apply List.count_eq_one_of_mem
    · exact List.Nodup.of_map _ (Table.nodup_indexNames_of_validate hvalid)
    · rw [hindexes]
      refine List.mem_append_left added (List.mem_filter.2 ⟨List.mem_eraseDups.2 hi, ?_⟩)
      simp [hfolds]

theorem settles_of_settle_taken_name :
    Draft.Settles
      { table :=
          { name := "t"
            fields := [{ name := "a", type := .int, unique := true }, { name := "b", type := .int }]
            indexes := [⟨"uk_a", .normal, ["b", "a"]⟩, ⟨"uk_b", .unique, ["b"]⟩,
              ⟨"uk_a", .normal, ["b", "a"]⟩] }
        primaryKey := ["a"] }
      { name := "t"
        fields := [{ name := "a", type := .int, inPrimaryKey := true },
          { name := "b", type := .int, unique := true }]
        indexes := [⟨"uk_a", .normal, ["b", "a"]⟩, ⟨"uk_a_2", .unique, ["a"]⟩] } := by
  apply settles_of_settle
  decide +kernel

end

end SqlTables
