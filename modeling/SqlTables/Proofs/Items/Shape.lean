import SqlTables.Proofs.Schema.Parsed

/-! Shapes of items. An item of a column list is a clause by the keywords that it begins with, after
`CONSTRAINT` or not, and a column without them. Each item that is read has one shape, but for those
in which neither a name nor a clause follows `CONSTRAINT`. -/

namespace SqlTables

open Declaration

variable {t : Token} {ts rest : List Token} {v w w' : String} {c : Clause}

theorem Token.foldCase_eq_of_isKeyword (h : t.isKeyword w = true) (h' : t.isKeyword w' = true) :
    Text.foldCase w.toList = Text.foldCase w'.toList := by
  cases hk : t.kind with
  | word text =>
    simp only [isKeyword, hk, Text.sameKeyword, beq_iff_eq] at h h'
    exact h.symm.trans h'
  | _ => simp [isKeyword, hk] at h

namespace Declaration

theorem keyword?_eq (w : String) (ts : List Token) :
    keyword? w ts = if peekKeyword w ts then some ts.tail else none := by
  cases ts <;> rfl

theorem peekKeyword_eq_false (h : peekKeyword w ts = true)
    (hne : Text.foldCase w.toList ≠ Text.foldCase w'.toList) : peekKeyword w' ts = false := by
  cases ts with
  | nil => rfl
  | cons t ts => exact Bool.eq_false_iff.2 fun h' => hne (Token.foldCase_eq_of_isKeyword h h')

theorem peekKeyword_of_keyword? (h : keyword? w ts = some rest) : peekKeyword w ts = true := by
  rw [keyword?_eq] at h
  split_ifs at h
  assumption

theorem isSome_keywords?_pair (w w' : String) (ts : List Token) :
    (keywords? [w, w'] ts).isSome = (peekKeyword w ts && peekKeyword w' ts.tail) := by
  simp only [keywords?, keyword?_eq]
  cases hw : peekKeyword w ts
  · rfl
  · cases hw' : peekKeyword w' ts.tail <;> simp [hw']

theorem peekKeyword_of_keywords? {ws : List String} (h : keywords? (w :: ws) ts = some rest) :
    peekKeyword w ts = true := by
  obtain ⟨_, hfirst, -⟩ := Option.bind_eq_some_iff.1 h
  exact peekKeyword_of_keyword? hfirst

inductive Shape where
  | primaryKey
  | index
  | foreignKey
  | check
  | column
deriving Repr, DecidableEq

def Clause.shape : Clause → Shape
  | .primaryKey _ => .primaryKey
  | .index .. => .index
  | .foreignKey .. => .foreignKey
  | .check .. => .check
  | .column _ => .column

namespace Shape

variable {s s' : Shape}

def openings : Shape → List (List String)
  | .primaryKey => [["PRIMARY", "KEY"]]
  | .index => [["UNIQUE"], ["FULLTEXT"], ["SPATIAL"], ["KEY"], ["INDEX"]]
  | .foreignKey => [["FOREIGN", "KEY"]]
  | .check => [["CHECK"]]
  | .column => []

def Opens (s : Shape) (ts : List Token) : Prop :=
  ∃ ws ∈ s.openings, (keywords? ws ts).isSome = true

/-- The tokens after `CONSTRAINT` and its name, which may be left out before some keywords. -/
def unconstrained (ts : List Token) : List Token :=
  if peekKeyword "CONSTRAINT" ts then
    if ["PRIMARY", "UNIQUE", "FOREIGN", "CHECK"].any (peekKeyword · ts.tail) then ts.tail
    else ts.tail.tail
  else ts

/-- Whether tokens are an item of the shape: a clause by the keywords that it begins with, perhaps
after `CONSTRAINT`, or a column, which begins with none of them. -/
def Fits (s : Shape) (ts : List Token) : Prop :=
  s.Opens (unconstrained ts) ∨
    s = .column ∧ peekKeyword "CONSTRAINT" ts = false ∧ ∀ s : Shape, ¬s.Opens ts

/-- Whether `CONSTRAINT` is left without a clause by a keyword that lacks its second word. -/
def isStray (ts : List Token) : Bool :=
  peekKeyword "CONSTRAINT" ts && ["PRIMARY", "FOREIGN"].any (peekKeyword · ts.tail) &&
    !peekKeyword "KEY" ts.tail.tail

theorem Opens.exists_peekKeyword (h : s.Opens ts) :
    ∃ w ∈ s.openings.filterMap List.head?, peekKeyword w ts = true := by
  obtain ⟨ws, hws, hsome⟩ := h
  obtain ⟨rest, hrest⟩ := Option.isSome_iff_exists.1 hsome
  cases ws with
  | nil => cases s <;> simp [openings] at hws
  | cons w ws =>
    exact ⟨w, List.mem_filterMap.2 ⟨_, hws, rfl⟩, peekKeyword_of_keywords? hrest⟩

theorem Opens.exists_foldCase_eq (h : s.Opens ts) (hv : peekKeyword v ts = true) :
    ∃ w ∈ s.openings.filterMap List.head?,
      Text.foldCase w.toList = Text.foldCase v.toList := by
  obtain ⟨w, hw, hpeek⟩ := h.exists_peekKeyword
  refine ⟨w, hw, ?_⟩
  by_contra hne
  simp [peekKeyword_eq_false hpeek hne] at hv

theorem Opens.unique (h : s.Opens ts) (h' : s'.Opens ts) : s = s' := by
  obtain ⟨w', hw', hpeek⟩ := h'.exists_peekKeyword
  obtain ⟨w, hw, heq⟩ := h.exists_foldCase_eq hpeek
  have hwords : ∀ w ∈ s.openings.filterMap List.head?, ∀ w' ∈ s'.openings.filterMap List.head?,
      Text.foldCase w.toList = Text.foldCase w'.toList → s = s' := by
    cases s <;> cases s' <;> decide
  exact hwords w hw w' hw' heq

theorem opens_index_iff : index.Opens ts ↔ (Clause.indexKind? ts).isSome = true := by
  simp only [Opens, openings, List.exists_mem_cons_iff, keywords?, keyword?_eq,
    Clause.indexKind?, List.findSome?]
  by_cases hunique : peekKeyword "UNIQUE" ts = true <;>
    by_cases hfulltext : peekKeyword "FULLTEXT" ts = true <;>
      by_cases hspatial : peekKeyword "SPATIAL" ts = true <;>
        simp [hunique, hfulltext, hspatial]

theorem unconstrained_of_isStray (h : isStray ts = true) : unconstrained ts = ts.tail := by
  simp only [isStray, Bool.and_eq_true, List.any_eq_true] at h
  obtain ⟨⟨hconstraint, v, hv, hpeek⟩, -⟩ := h
  have hmem : ∀ v ∈ ["PRIMARY", "FOREIGN"], v ∈ ["PRIMARY", "UNIQUE", "FOREIGN", "CHECK"] := by
    decide
  rw [unconstrained, if_pos hconstraint, if_pos (List.any_eq_true.2 ⟨v, hmem v hv, hpeek⟩)]

theorem not_opens_of_isStray (h : isStray ts = true) (s : Shape) : ¬s.Opens (unconstrained ts) := by
  rw [unconstrained_of_isStray h]
  simp only [isStray, Bool.and_eq_true, List.any_eq_true, Bool.not_eq_true'] at h
  obtain ⟨⟨-, v, hv, hpeek⟩, hkey⟩ := h
  intro hopens
  obtain ⟨w, hw, heq⟩ := hopens.exists_foldCase_eq hpeek
  have hwords : ∀ v ∈ ["PRIMARY", "FOREIGN"], ∀ w ∈ s.openings.filterMap List.head?,
      Text.foldCase w.toList = Text.foldCase v.toList → s = .primaryKey ∨ s = .foreignKey := by
    cases s <;> decide
  -- either shape asks for a second keyword
  rcases hwords v hv w hw heq with rfl | rfl <;>
    simp [Opens, openings, isSome_keywords?_pair, hkey] at hopens

theorem isStray_of_not_opens (hc : peekKeyword "CONSTRAINT" ts = true)
    (hk : ["PRIMARY", "UNIQUE", "FOREIGN", "CHECK"].any (peekKeyword · ts.tail) = true)
    (h : ∀ s : Shape, ¬s.Opens ts.tail) : isStray ts = true := by
  have hsecond (s : Shape) {v : String} (hv : [v, "KEY"] ∈ s.openings)
      (hpeek : peekKeyword v ts.tail = true) : peekKeyword "KEY" ts.tail.tail = false := by
    by_contra hkey
    exact h s ⟨_, hv, by simp [isSome_keywords?_pair, hpeek, hkey]⟩
  have honly (s : Shape) {v : String} (hv : [v] ∈ s.openings) :
      peekKeyword v ts.tail = false := by
    by_contra hpeek
    exact h s ⟨_, hv, by simp [keywords?, keyword?_eq, hpeek]⟩
  have hunique := honly .index (show ["UNIQUE"] ∈ _ by decide)
  have hcheck := honly .check (List.mem_singleton_self ["CHECK"])
  simp only [List.any_cons, List.any_nil, hunique, hcheck, Bool.or_false, Bool.false_or,
    Bool.or_eq_true] at hk
  rcases hk with hk | hk
  · simp [isStray, hc, hk, hsecond .primaryKey (List.mem_singleton_self _) hk]
  · simp [isStray, hc, hk, hsecond .foreignKey (List.mem_singleton_self _) hk]

theorem fits_iff_of_opens (h : s.Opens (unconstrained ts)) : s'.Fits ts ↔ s' = s := by
  refine ⟨?_, fun heq => heq ▸ .inl h⟩
  rintro (hopens | ⟨-, hconstraint, hnone⟩)
  · exact hopens.unique h
  · rw [unconstrained, hconstraint] at h
    exact absurd h (hnone s)

theorem fits_iff_of_not_opens (hc : peekKeyword "CONSTRAINT" ts = false)
    (h : ∀ s : Shape, ¬s.Opens ts) : s.Fits ts ↔ s = .column := by
  have hrest : unconstrained ts = ts := by simp [unconstrained, hc]
  rw [Fits, hrest]
  exact ⟨fun hfits => (hfits.resolve_left (h s)).1, fun hs => .inr ⟨hs, hc, h⟩⟩

theorem unconstrained_of_fits_column (h : column.Fits ts) : unconstrained ts = ts := by
  rcases h with hopens | ⟨-, hconstraint, -⟩
  · simp [Opens, openings] at hopens
  · simp [unconstrained, hconstraint]

theorem not_fits_of_isStray (h : isStray ts = true) (s : Shape) : ¬s.Fits ts := by
  rintro (hopens | ⟨-, hconstraint, -⟩)
  · exact not_opens_of_isStray h s hopens
  · simp [isStray, hconstraint] at h

end Shape

namespace Clause

theorem constraintName?_cases {constraint : Option String}
    (h : constraintName? ts = some (constraint, rest)) :
    rest = Shape.unconstrained ts ∧ (constraint = none → peekKeyword "CONSTRAINT" ts = true →
      rest = ts.tail ∧
        ["PRIMARY", "UNIQUE", "FOREIGN", "CHECK"].any (peekKeyword · rest) = true) := by
  rw [constraintName?, keyword?_eq] at h
  unfold Shape.unconstrained
  by_cases hc : peekKeyword "CONSTRAINT" ts = true
  · rw [if_pos hc] at h
    dsimp only at h
    split_ifs at h with hk
    · cases h
      simp [hc, hk]
    · obtain ⟨⟨name, r⟩, hname, he⟩ := Option.map_eq_some_iff.1 h
      cases he
      refine ⟨?_, nofun⟩
      rw [if_pos hc, if_neg hk]
      cases htail : ts.tail with
      | nil => simp [htail, name?] at hname
      | cons t tail =>
        rw [htail, name?] at hname
        obtain ⟨_, -, he⟩ := Option.map_eq_some_iff.1 hname
        cases he
        rfl
  · rw [if_neg hc] at h
    cases h
    simp [hc]

theorem ReadFrom.opens {constraint : Option String} (h : ReadFrom constraint rest c) :
    c.shape.Opens rest ∨ c.shape = .column ∧ constraint = none ∧ ∀ s : Shape, ¬s.Opens rest := by
  cases h with
  | primaryKey hkey => exact .inl ⟨_, List.mem_singleton_self _, by rw [hkey]; rfl⟩
  | index hkind => exact .inl (Shape.opens_index_iff.2 (by rw [hkind]; rfl))
  | foreignKey hkey => exact .inl ⟨_, List.mem_singleton_self _, by rw [hkey]; rfl⟩
  | check hcheck => exact .inl ⟨_, List.mem_singleton_self _, by simp [keywords?, hcheck]⟩
  | column hnone hprimary hindex hforeign hcheck =>
    refine .inr ⟨rfl, hnone, fun s => ?_⟩
    cases s with
    | primaryKey => simp [Shape.Opens, Shape.openings, hprimary]
    | index => simp [Shape.opens_index_iff, hindex]
    | foreignKey => simp [Shape.Opens, Shape.openings, hforeign]
    | check => simp [Shape.Opens, Shape.openings, keywords?, hcheck]
    | column => simp [Shape.Opens, Shape.openings]

theorem fits_iff_of_read (h : (read ts).clause? = some c) :
    (∀ s : Shape, s.Fits ts ↔ s = c.shape) ↔ Shape.isStray ts = false := by
  obtain ⟨constraint, rest, hconstraint, hread⟩ := readFrom_of_read h
  obtain ⟨rfl, hnamed⟩ := constraintName?_cases hconstraint
  constructor
  · intro hfits
    rw [Bool.eq_false_iff]
    exact fun hstray => Shape.not_fits_of_isStray hstray _ ((hfits _).2 rfl)
  · rintro hstray s
    rcases hread.opens with hopens | ⟨hcolumn, hnone, hopens⟩
    · exact Shape.fits_iff_of_opens hopens
    · rw [hcolumn]
      cases hc : peekKeyword "CONSTRAINT" ts with
      | false =>
        have hrest : Shape.unconstrained ts = ts := by simp [Shape.unconstrained, hc]
        exact Shape.fits_iff_of_not_opens hc (hrest ▸ hopens)
      | true =>
        obtain ⟨hrest, hk⟩ := hnamed hnone hc
        rw [hrest] at hk hopens
        simp [Shape.isStray_of_not_opens hc hk hopens] at hstray

end Clause

end Declaration

end SqlTables
