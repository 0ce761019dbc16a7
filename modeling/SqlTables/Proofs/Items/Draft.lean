import SqlTables.Proofs.Indexes.Unnamed
import SqlTables.Proofs.Items.Shape
import SqlTables.Proofs.Members
import SqlTables.Proofs.Places

/-! What a draft has of each item. A clause and a column come to one entry of their own, and a
column to one more for each reference and each check among its attributes. -/

namespace SqlTables

open Declaration

variable {ts rest : List Token} {w : String} {c : Clause}

namespace Declaration

namespace Attribute

variable {a : Attribute} {as : List Attribute}

structure Begins (ts : List Token) (a : Attribute) : Prop where
  reference : a.reference?.isSome = peekKeyword "REFERENCES" ts
  check : a.check?.isSome = peekKeyword "CHECK" ts

structure Spans (segment rest : List Token) (a : Attribute) : Prop extends Begins segment a where
  read : read? (segment ++ rest) = some (a, rest)
  nonempty : segment ≠ []

inductive Segmented : List (List Token) → List Attribute → Prop
  | nil : Segmented [] []
  | cons {segment : List Token} {segments : List (List Token)} {a : Attribute}
      {as : List Attribute} (first : Spans segment segments.flatten a)
      (others : Segmented segments as) : Segmented (segment :: segments) (a :: as)

theorem begins_of_peekKeyword (h : peekKeyword w ts = true)
    (hr : Text.foldCase w.toList ≠ Text.foldCase "REFERENCES".toList)
    (hc : Text.foldCase w.toList ≠ Text.foldCase "CHECK".toList)
    (ha : a.reference? = none ∧ a.check? = none) : a.Begins ts := by
  refine ⟨?_, ?_⟩
  · rw [ha.1, peekKeyword_eq_false h hr]
    rfl
  · rw [ha.2, peekKeyword_eq_false h hc]
    rfl

theorem begins_of_flag? (h : flag? ts = some (a, rest)) : a.Begins ts := by
  obtain ⟨⟨w, ws, a'⟩, hmem, h⟩ := List.exists_of_findSome?_eq_some h
  obtain ⟨_, hr, he⟩ := Option.map_eq_some_iff.1 h
  cases he
  have hflags : ∀ flag ∈ flags,
      Text.foldCase flag.1.toList ≠ Text.foldCase "REFERENCES".toList ∧
        Text.foldCase flag.1.toList ≠ Text.foldCase "CHECK".toList ∧
          flag.2.2.reference? = none ∧ flag.2.2.check? = none := by
    decide
  obtain ⟨hreferences, hcheck, ha⟩ := hflags _ hmem
  exact begins_of_peekKeyword (peekKeyword_of_keywords? hr) hreferences hcheck ha

theorem begins_of_charset? (h : charset? ts = some rest) : neutral.Begins ts := by
  obtain ⟨⟨w, ws⟩, hmem, h⟩ := List.exists_of_findSome?_eq_some h
  have hwords : ∀ entry ∈ charsetKeywords,
      Text.foldCase entry.1.toList ≠ Text.foldCase "REFERENCES".toList ∧
        Text.foldCase entry.1.toList ≠ Text.foldCase "CHECK".toList := by
    decide
  obtain ⟨hreferences, hcheck⟩ := hwords _ hmem
  exact begins_of_peekKeyword (peekKeyword_of_keywords? h) hreferences hcheck ⟨rfl, rfl⟩

theorem begins_of_read? (h : read? ts = some (a, rest)) : a.Begins ts := by
  unfold read? at h
  split at h
  · rename_i hf
    cases h
    exact begins_of_flag? hf
  split at h
  · rename_i hk
    obtain ⟨_, -, he⟩ := Option.map_eq_some_iff.1 h
    cases he
    exact begins_of_peekKeyword (peekKeyword_of_keyword? hk) (by decide) (by decide) ⟨rfl, rfl⟩
  split at h
  · rename_i hk
    obtain ⟨_, -, he⟩ := Option.map_eq_some_iff.1 h
    cases he
    exact begins_of_peekKeyword (peekKeyword_of_keyword? hk) (by decide) (by decide) ⟨rfl, rfl⟩
  split at h
  · rename_i hk
    obtain ⟨_, -, he⟩ := Option.map_eq_some_iff.1 h
    cases he
    exact begins_of_charset? hk
  split at h
  · rename_i hk
    obtain ⟨_, -, he⟩ := Option.map_eq_some_iff.1 h
    cases he
    exact begins_of_peekKeyword (peekKeyword_of_keywords? hk) (by decide) (by decide) ⟨rfl, rfl⟩
  split at h
  · rename_i r hk
    have ha : (generated r).1.reference? = none ∧ (generated r).1.check? = none := by
      unfold generated
      split <;> exact ⟨rfl, rfl⟩
    rw [Option.some.inj h] at ha
    exact begins_of_peekKeyword (peekKeyword_of_keyword? hk) (by decide) (by decide) ha
  split at h
  · rename_i hk
    obtain ⟨_, -, he⟩ := Option.map_eq_some_iff.1 h
    cases he
    exact ⟨hk.symm, (peekKeyword_eq_false hk (by decide)).symm⟩
  rename_i hreferences
  rw [Bool.not_eq_true] at hreferences
  split at h
  · rename_i hk
    obtain ⟨_, -, he⟩ := Option.map_eq_some_iff.1 h
    cases he
    exact ⟨hreferences.symm, (peekKeyword_of_keyword? hk).symm⟩
  rename_i hcheck
  have hother : a.reference? = none ∧ a.check? = none → a.Begins ts := by
    intro ha
    have hpeek : peekKeyword "CHECK" ts = false := by
      by_contra hpeek
      rw [Bool.not_eq_false] at hpeek
      exact hcheck ts.tail (by rw [keyword?_eq, if_pos hpeek])
    refine ⟨?_, ?_⟩
    · rw [ha.1, hreferences]
      rfl
    · rw [ha.2, hpeek]
      rfl
  split at h
  · obtain ⟨_, -, he⟩ := Option.map_eq_some_iff.1 h
    cases he
    exact hother ⟨rfl, rfl⟩
  · unfold skipped? at h
    split at h
    · cases h
      exact hother ⟨rfl, rfl⟩
    · obtain ⟨_, -, he⟩ := Option.map_eq_some_iff.1 h
      cases he
      exact hother ⟨rfl, rfl⟩

theorem exists_spans_of_read? (h : read? ts = some (a, rest)) :
    ∃ segment, ts = segment ++ rest ∧ Spans segment rest a := by
  obtain ⟨t, _, rfl, -, segment, -, rfl⟩ := read?_consumes h
  have hbegins := begins_of_read? h
  exact ⟨t :: segment, rfl, ⟨hbegins.reference, hbegins.check⟩, h, List.cons_ne_nil _ _⟩

theorem Segmented.length_filterMap {β : Type} {part? : Attribute → Option β}
    {segments : List (List Token)}
    (hpart : ∀ {segment a}, Begins segment a → (part? a).isSome = peekKeyword w segment)
    (h : Segmented segments as) :
    (as.filterMap part?).length = segments.countP (peekKeyword w) := by
  rw [List.length_filterMap_eq_countP]
  induction h with
  | nil => rfl
  | cons hfirst _ ih =>
    rw [List.countP_cons, List.countP_cons, ih, hpart hfirst.toBegins]

theorem exists_segmented_of_readAll (he : ∀ t ∈ ts, t.kind ≠ .eof)
    (h : readAll ts = (as, true)) : ∃ segments, ts = segments.flatten ∧ Segmented segments as := by
  induction ts using readAll.induct generalizing as with
  | case1 ts hdone =>
    rw [readAll, if_pos hdone] at h
    cases h
    cases ts with
    | nil => exact ⟨[], rfl, .nil⟩
    | cons t ts => simp [isDone, take?, he t (List.mem_cons_self ..)] at hdone
  | case2 ts hdone hread =>
    rw [readAll_eq, if_neg hdone, hread] at h
    cases h
  | case3 ts hdone a rest hread _ _ _ ih =>
    rw [readAll_eq, if_neg hdone, hread] at h
    obtain ⟨rfl, hcomplete⟩ := Prod.mk.inj h
    obtain ⟨segment, rfl, hspans⟩ := exists_spans_of_read? hread
    obtain ⟨segments, hrest, hsegments⟩ :=
      ih (fun t ht => he t (List.mem_append_right _ ht)) (Prod.ext rfl hcomplete)
    rw [hrest] at hspans
    exact ⟨segment :: segments, by rw [List.flatten_cons, ← hrest], .cons hspans hsegments⟩

end Attribute

/-- Whether a column takes up tokens with its name, its type and its attributes. As many keys and
checks come of it as there are attributes that begin as one. -/
structure Column.Occupies (column : Column) (ts : List Token) (first : Token) (type : List Token)
    (segments : List (List Token)) : Prop where
  split : ts = first :: (type ++ segments.flatten)
  name : first.name? = some column.field.name
  attributes : Attribute.Segmented segments column.attributes
  foreignKeys (table : String) :
    (column.foreignKeys table).length = segments.countP (peekKeyword "REFERENCES")
  checks : column.checks.length = segments.countP (peekKeyword "CHECK")

def Clause.Lists (columns : List String) (ts : List Token) : Prop :=
  ∃ method, ∃ g : Group, ∃ after,
    ts = method ++ ((g.opening :: g.inside ++ [g.closing]) ++ after) ∧
      (method = [] ∨ method.length ≤ 2 ∧ peekKeyword "USING" method = true) ∧
        columnNames? g.inside = some columns

/-- Whether an item counts as a clause, by its shape and no other. A column is named by the first
token. A primary key has the columns that are listed after its keywords. -/
structure Item.CountsAs (i : Item) (c : Clause) : Prop where
  shape (s : Shape) : s.Fits i.tokens ↔ s = c.shape
  column (column : Column) : c = .column column → ∃ first type segments,
    column.Occupies i.tokens first type segments
  primaryKey (columns : List String) : c = .primaryKey columns →
    Clause.Lists columns ((Shape.unconstrained i.tokens).drop 2)

theorem eq_drop_of_keywords? {ws : List String} (h : keywords? ws ts = some rest) :
    rest = ts.drop ws.length := by
  induction ws generalizing ts with
  | nil => exact (Option.some.inj h).symm
  | cons w ws ih =>
    obtain ⟨_, hfirst, hrest⟩ := Option.bind_eq_some_iff.1 h
    rw [keyword?_eq] at hfirst
    split_ifs at hfirst
    cases hfirst
    rw [ih hrest, List.drop_tail, List.length_cons]

theorem Clause.exists_append_skipMethod (ts : List Token) : ∃ method,
    ts = method ++ skipMethod ts ∧
      (method = [] ∨ method.length ≤ 2 ∧ peekKeyword "USING" method = true) := by
  unfold skipMethod
  split
  · rename_i rest hk
    cases ts with
    | nil => cases hk
    | cons t ts =>
      have husing : t.isKeyword "USING" = true := peekKeyword_of_keyword? hk
      rw [keyword?, if_pos husing] at hk
      cases hk
      unfold skipToken
      split
      · rename_i u r hu
        cases rest with
        | nil => cases hu
        | cons v rest =>
          rw [take?] at hu
          split_ifs at hu
          cases hu
          exact ⟨[t, u], rfl, .inr ⟨by simp, husing⟩⟩
      · exact ⟨[t], rfl, .inr ⟨by simp, husing⟩⟩
  · exact ⟨[], rfl, .inl rfl⟩

theorem Clause.exists_group_of_columns? {columns : List String}
    (h : Clause.columns? ts = some (columns, rest)) : ∃ g : Group,
      ts = (g.opening :: g.inside ++ [g.closing]) ++ rest ∧
        columnNames? g.inside = some columns := by
  obtain ⟨⟨g, after⟩, hg, h⟩ := Option.bind_eq_some_iff.1 h
  obtain ⟨_, hcolumns, h⟩ := Option.bind_eq_some_iff.1 h
  cases h
  exact ⟨g, (eq_append_of_group? hg).1, hcolumns⟩

theorem Column.exists_occupies_of_read? {column : Column} (he : ∀ t ∈ ts, t.kind ≠ .eof)
    (h : Column.read? ts = some (column, true)) :
    ∃ first type segments, column.Occupies ts first type segments := by
  obtain ⟨rest, rest', hname, htype, hattributes⟩ := Column.exists_of_read? h
  obtain ⟨type, -, rfl⟩ := DeclaredType.read?_skips htype
  cases ts with
  | nil => cases hname
  | cons first ts =>
    obtain ⟨_, hfirst, hrest⟩ := Option.map_eq_some_iff.1 hname
    cases hrest
    rw [List.forall_mem_cons] at he
    obtain ⟨segments, rfl, hsegments⟩ := Attribute.exists_segmented_of_readAll
      (fun t ht => he.2 t (List.mem_append_right _ ht)) hattributes
    refine ⟨first, type, segments, rfl, by rw [name_field, hfirst], hsegments, fun table => ?_, ?_⟩
    · rw [Column.foreignKeys, List.length_map, hsegments.length_filterMap (·.reference)]
    · rw [Column.checks, List.length_map, hsegments.length_filterMap (·.check)]

theorem Column.exists_occupies_of_read {column : Column} (he : ∀ t ∈ ts, t.kind ≠ .eof)
    (h : (Clause.read ts).clause? = some (.column column)) :
    ∃ first type segments, column.Occupies (Shape.unconstrained ts) first type segments := by
  obtain ⟨constraint, rest, hconstraint, hread⟩ := Clause.readFrom_of_read h
  obtain ⟨skipped, -, hskipped⟩ := Clause.constraintName?_skips hconstraint
  rw [← (Clause.constraintName?_cases hconstraint).1]
  cases hread with
  | column _ _ _ _ _ hwhole =>
    exact exists_occupies_of_read? (fun t ht => he t (hskipped ▸ List.mem_append_right _ ht)) hwhole

theorem Clause.lists_of_read {columns : List String}
    (h : (Clause.read ts).clause? = some (.primaryKey columns)) :
    Lists columns ((Shape.unconstrained ts).drop 2) := by
  obtain ⟨constraint, rest, hconstraint, hread⟩ := readFrom_of_read h
  cases hread with
  | @primaryKey rest' _ _ hkey hcolumns =>
    obtain ⟨g, hg, hnames⟩ := exists_group_of_columns? hcolumns
    obtain ⟨method, hmethod, hwords⟩ := exists_append_skipMethod rest'
    rw [hg, eq_drop_of_keywords? hkey, (constraintName?_cases hconstraint).1] at hmethod
    exact ⟨method, g, _, hmethod, hwords, hnames⟩

namespace Item

variable {i : Item} (he : ∀ t ∈ i.tokens, t.kind ≠ .eof)
  (h : (Clause.read i.tokens).clause? = some c)

include he h

theorem countsAs_iff : i.CountsAs c ↔ Shape.isStray i.tokens = false := by
  refine ⟨fun hcounts => (Clause.fits_iff_of_read h).1 hcounts.shape, fun hstray => ?_⟩
  have hfits := (Clause.fits_iff_of_read h).2 hstray
  refine ⟨hfits, ?_, ?_⟩
  · rintro column rfl
    rw [← Shape.unconstrained_of_fits_column ((hfits .column).2 rfl)]
    exact Column.exists_occupies_of_read he h
  · rintro columns rfl
    exact Clause.lists_of_read h

theorem exists_occupies_of_isStray (hs : Shape.isStray i.tokens = true) : ∃ column : Column,
    c = .column column ∧
      ∃ first type segments, column.Occupies i.tokens.tail first type segments := by
  obtain ⟨constraint, rest, hconstraint, hread⟩ := Clause.readFrom_of_read h
  rw [(Clause.constraintName?_cases hconstraint).1] at hread
  rcases hread.opens with hopens | ⟨hshape, -⟩
  · exact absurd hopens (Shape.not_opens_of_isStray hs _)
  · cases c with
    | column column =>
      rw [← Shape.unconstrained_of_isStray hs]
      exact ⟨column, rfl, Column.exists_occupies_of_read he h⟩
    | _ => cases hshape

end Item

end Declaration

namespace Draft

variable {d : Draft}

/-- A draft has what its items count as, each once and in order. An item counts as the clause that
it is read as if it is not stray. A stray one is read as a column that begins after
`CONSTRAINT`. -/
theorem exists_sums_of_read (h : read ts = .ok d) : ∃ definition cs,
    Definition.read ts = .ok definition ∧ d.Sums definition.name cs ∧
      List.Forall₂ (fun i c => (Clause.read i.tokens).clause? = some c ∧
        (i.CountsAs c ↔ Shape.isStray i.tokens = false) ∧
        (Shape.isStray i.tokens = true → ∃ column : Column, c = .column column ∧
          ∃ first type segments, column.Occupies i.tokens.tail first type segments))
        definition.items cs := by
  unfold read at h
  split at h
  · cases h
  rename_i definition hdefinition
  split at h
  · cases h
  rename_i cs hcs
  cases h
  obtain ⟨rest, hitems⟩ := exists_items?_of_read hdefinition
  have hended : ∀ i ∈ definition.items, ∀ t ∈ i.tokens, t.kind ≠ .eof :=
    fun i hi t ht => (not_or.1 (unended_of_items? hitems i hi t ht)).1
  have hall := (List.forall₂_and_left _ _).2 ⟨hended, forall₂_of_clauses hcs⟩
  refine ⟨definition, cs, hdefinition, sums_ofClauses _ _ _, hall.imp fun i c hi => ?_⟩
  exact ⟨hi.2, Item.countsAs_iff hi.1 hi.2, Item.exists_occupies_of_isStray hi.1 hi.2⟩

def shapedList : List Token :=
  (Token.tokenize ("CREATE TABLE t (a INT REFERENCES u CHECK (a) CHECK (1), " ++
    "CONSTRAINT p PRIMARY KEY (a), CONSTRAINT UNIQUE (a), FOREIGN KEY (a) REFERENCES v, " ++
    "CHECK (2))")).toOption.getD []

theorem exists_sums_of_read_shapedList : ∃ d : Draft, ∃ definition cs,
    Definition.read shapedList = .ok definition ∧ d.Sums definition.name cs ∧
      List.Forall₂ Item.CountsAs definition.items cs ∧ d.primaryKey = ["a"] ∧
        d.table.foreignKeys.map (·.referencedTable) = ["u", "v"] ∧
          d.table.checks.map (·.expression) = ["a", "1", "2"] := by
  have hfound : (read shapedList).map (fun d => (d.primaryKey,
      d.table.foreignKeys.map (·.referencedTable), d.table.checks.map (·.expression))) =
      .ok (["a"], ["u", "v"], ["a", "1", "2"]) := by
    decide +kernel
  have hunstray : (Definition.read shapedList).map
      (fun definition => definition.items.all fun i => !Shape.isStray i.tokens) = .ok true := by
    decide +kernel
  cases hread : read shapedList with
  | error e =>
    rw [hread] at hfound
    cases hfound
  | ok d =>
    obtain ⟨definition, cs, hdefinition, hsums, hitems⟩ := exists_sums_of_read hread
    rw [hread] at hfound
    rw [hdefinition] at hunstray
    have hall := List.all_eq_true.1 (Except.ok.inj hunstray)
    have hcounts := (List.forall₂_and_left _ _).2 ⟨hall, hitems⟩
    simp only [Except.map, Except.ok.injEq, Prod.mk.injEq] at hfound
    exact ⟨d, definition, cs, hdefinition, hsums,
      hcounts.imp fun i c hi => hi.2.2.1.2 (by simpa using hi.1), hfound⟩

def strayList : List Token :=
  (Token.tokenize "CREATE TABLE t (CONSTRAINT PRIMARY INT)").toOption.getD []

theorem not_exists_sums_of_read : ¬∀ ts d, read ts = .ok d → ∃ definition cs,
    Definition.read ts = .ok definition ∧ d.Sums definition.name cs ∧
      List.Forall₂ Item.CountsAs definition.items cs := by
  intro h
  have hfound : (read strayList).map (·.table.fieldNames) = .ok ["PRIMARY"] := by
    decide +kernel
  have hstray : (Definition.read strayList).map
      (fun definition => definition.items.map fun i => Shape.isStray i.tokens) = .ok [true] := by
    decide +kernel
  cases hread : read strayList with
  | error e =>
    rw [hread] at hfound
    cases hfound
  | ok d =>
    obtain ⟨⟨name, items, rest⟩, cs, hdefinition, -, hitems⟩ := h _ d hread
    rw [hdefinition] at hstray
    cases hitems with
    | nil => cases hstray
    | @cons i c _ _ hcounts =>
      simp only [Except.map, Except.ok.injEq, List.map_cons, List.cons.injEq] at hstray
      exact Shape.not_fits_of_isStray hstray.1 _ ((hcounts.shape _).2 rfl)

end Draft

end SqlTables
