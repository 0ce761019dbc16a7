import SqlTables.Proofs.Items.Draft

/-! Key clauses at other places among clauses. What primary key and index clauses come to is kept
apart from what the others do, and the columns of the primary key are a set, so the same draft is
settled. -/

namespace SqlTables

open Declaration

variable {α β : Type} {shape : α → Option Shape} {xs ys : List α} {is js : List Item}
  {cs cs' : List Clause} {d e : Draft} {t : Table}

namespace Declaration

def Shape.isOther (s : Option Shape) : Bool := s != some .primaryKey && s != some .index

/-- Whether a list is another with its keys at other places: the indexes are in the same order, and
so is all that is neither an index nor a primary key. -/
structure KeysMoved (shape : α → Option Shape) (xs ys : List α) : Prop where
  perm : ys.Perm xs
  indexes : ys.filter (shape · == some .index) = xs.filter (shape · == some .index)
  others : (ys.filter fun y => Shape.isOther (shape y)) = xs.filter fun x => Shape.isOther (shape x)

theorem KeysMoved.ne_nil (h : KeysMoved shape xs ys) (hne : xs ≠ []) : ys ≠ [] := by
  rintro rfl
  exact hne h.perm.nil_eq.symm

def Item.clause? (i : Item) : Option Clause := (Clause.read i.tokens).clause?

def Item.shape? (i : Item) : Option Shape := i.clause?.map Clause.shape

theorem filter_filterMap_of_shape {f : α → Option β} {shape' : β → Option Shape}
    (h : ∀ x y, f x = some y → shape x = shape' y) (keeps : Option Shape → Bool) (xs : List α) :
    ((xs.filterMap f).filter fun y => keeps (shape' y)) =
      (xs.filter fun x => keeps (shape x)).filterMap f := by
  rw [List.filter_filterMap, List.filterMap_filter]
  refine List.filterMap_congr fun x _ => ?_
  cases hf : f x with
  | none => simp
  | some y =>
    rw [h x y hf]
    by_cases hk : keeps (shape' y) = true <;> simp [hk]

theorem KeysMoved.filterMap {f : α → Option β} {shape' : β → Option Shape}
    (h : ∀ x y, f x = some y → shape x = shape' y) (hmoved : KeysMoved shape xs ys) :
    KeysMoved shape' (xs.filterMap f) (ys.filterMap f) where
  perm := hmoved.perm.filterMap f
  indexes := by
    have hfilter := filter_filterMap_of_shape h (· == some .index)
    rw [hfilter, hfilter, hmoved.indexes]
  others := by
    have hfilter := filter_filterMap_of_shape h Shape.isOther
    rw [hfilter, hfilter, hmoved.others]

theorem flatMap_filter_of_nil {keeps : α → Bool} {f : α → List β}
    (h : ∀ x, keeps x = false → f x = []) (xs : List α) :
    (xs.filter keeps).flatMap f = xs.flatMap f := by
  induction xs with
  | nil => rfl
  | cons x xs ih =>
    cases hk : keeps x with
    | false => simp [hk, ih, h x hk]
    | true => simp [hk, ih]

theorem filterMap_filter_of_none {keeps : α → Bool} {f : α → Option β}
    (h : ∀ x, keeps x = false → f x = none) (xs : List α) :
    (xs.filter keeps).filterMap f = xs.filterMap f := by
  rw [List.filterMap_eq_flatMap_toList, List.filterMap_eq_flatMap_toList]
  exact flatMap_filter_of_nil (fun x hx => by rw [h x hx]; rfl) xs

theorem KeysMoved.flatMap_eq (h : KeysMoved shape xs ys) {f : α → List β}
    (hf : ∀ x, Shape.isOther (shape x) = false → f x = []) : ys.flatMap f = xs.flatMap f := by
  rw [← flatMap_filter_of_nil hf, h.others, flatMap_filter_of_nil hf]

theorem KeysMoved.filterMap_eq (h : KeysMoved shape xs ys) {f : α → Option β}
    (hf : ∀ x, Shape.isOther (shape x) = false → f x = none) :
    ys.filterMap f = xs.filterMap f := by
  rw [← filterMap_filter_of_none hf, h.others, filterMap_filter_of_none hf]

theorem KeysMoved.filterMap_index_eq (h : KeysMoved shape xs ys) {f : α → Option β}
    (hf : ∀ x, (shape x == some .index) = false → f x = none) :
    ys.filterMap f = xs.filterMap f := by
  rw [← filterMap_filter_of_none hf, h.indexes, filterMap_filter_of_none hf]

end Declaration

namespace Draft

theorem clauses_of_isSome (h : ∀ i ∈ is, i.clause?.isSome = true) :
    clauses is = .ok (is.filterMap Item.clause?) := by
  induction is with
  | nil => rfl
  | cons i is ih =>
    rw [List.forall_mem_cons] at h
    obtain ⟨c, hc⟩ := Option.isSome_iff_exists.1 h.1
    rw [List.filterMap_cons_some hc, clauses]
    rw [Item.clause?] at hc
    rw [hc, ih h.2]
    rfl

theorem eq_filterMap_of_clauses (h : clauses is = .ok cs) :
    (∀ i ∈ is, i.clause?.isSome = true) ∧ cs = is.filterMap Item.clause? := by
  have hall := forall₂_of_clauses h
  clear h
  induction hall with
  | nil => simp
  | @cons i c is cs hc _ ih =>
    have hsome : i.clause? = some c := hc
    rw [List.forall_mem_cons, List.filterMap_cons_some hsome, ← ih.2, hsome]
    exact ⟨⟨rfl, ih.1⟩, rfl⟩

theorem clauses_congr (h : js.map (·.tokens) = is.map (·.tokens)) (hcs : clauses is = .ok cs) :
    clauses js = .ok cs := by
  have hmap : js.map Item.clause? = is.map Item.clause? := by
    have hread := congrArg (List.map fun ts => (Clause.read ts).clause?) h
    rwa [List.map_map, List.map_map] at hread
  obtain ⟨hsome, rfl⟩ := eq_filterMap_of_clauses hcs
  have hall : ∀ j ∈ js, j.clause?.isSome = true := by
    intro j hj
    obtain ⟨i, hi, he⟩ := List.mem_map.1 (hmap ▸ List.mem_map_of_mem hj)
    exact he ▸ hsome i hi
  have hfilter (is : List Item) :
      is.filterMap Item.clause? = (is.map Item.clause?).filterMap id := by
    rw [List.filterMap_map, Function.id_comp]
  rw [clauses_of_isSome hall, hfilter, hmap, ← hfilter]

variable (h : KeysMoved (fun c => some c.shape) cs cs') (name : String) (settings : List Setting)

include h

theorem table_ofClauses_of_keysMoved :
    (ofClauses name cs' settings).table = (ofClauses name cs settings).table := by
  have hcolumns : cs'.filterMap Clause.column? = cs.filterMap Clause.column? :=
    h.filterMap_eq fun c hc => by cases c <;> first | rfl | cases hc
  have hindexes : cs'.filterMap Clause.addedIndex? = cs.filterMap Clause.addedIndex? :=
    h.filterMap_index_eq fun c hc => by cases c <;> first | rfl | cases hc
  have hforeignKeys :
      cs'.flatMap (Clause.foreignKeys name) = cs.flatMap (Clause.foreignKeys name) :=
    h.flatMap_eq fun c hc => by cases c <;> first | rfl | cases hc
  have hchecks : cs'.flatMap Clause.checks = cs.flatMap Clause.checks :=
    h.flatMap_eq fun c hc => by cases c <;> first | rfl | cases hc
  rw [ofClauses, ofClauses, foldl_add, foldl_add, hcolumns, hindexes, hforeignKeys, hchecks]

theorem mem_primaryKey_ofClauses_of_keysMoved (column : String) :
    column ∈ (ofClauses name cs' settings).primaryKey ↔
      column ∈ (ofClauses name cs settings).primaryKey := by
  rw [(sums_ofClauses name cs settings).primaryKey, (sums_ofClauses name cs' settings).primaryKey]
  exact (h.perm.filterMap _).flatten.mem_iff

end Draft

theorem settle_of_mem_primaryKey (htable : e.table = d.table)
    (hkey : ∀ column, column ∈ e.primaryKey ↔ column ∈ d.primaryKey) (h : d.settle = .ok t) :
    e.settle = .ok t := by
  have hplaced : e.placed = d.placed := by simp only [Draft.placed, Draft.keyed, htable, hkey]
  have hn := nodup_of_settle h
  rw [settle_eq_ok_iff_of_nodup hn] at h
  rw [← htable] at hn
  rw [settle_eq_ok_iff_of_nodup hn, hplaced, htable]
  simpa only [hkey] using h

theorem exists_clauses_of_keysMoved (hmoved : KeysMoved Item.shape? is js)
    (hcs : Draft.clauses is = .ok cs) : ∃ cs', Draft.clauses js = .ok cs' ∧
      ∀ name settings, (Draft.ofClauses name cs settings).settle = .ok t →
        (Draft.ofClauses name cs' settings).settle = .ok t := by
  obtain ⟨hsome, rfl⟩ := Draft.eq_filterMap_of_clauses hcs
  have hclauses : KeysMoved (fun c => some c.shape) (is.filterMap Item.clause?)
      (js.filterMap Item.clause?) :=
    hmoved.filterMap fun i c hc => by rw [Item.shape?, hc]; rfl
  refine ⟨_, Draft.clauses_of_isSome fun i hi => hsome i (hmoved.perm.mem_iff.1 hi), ?_⟩
  intro name settings hsettle
  exact settle_of_mem_primaryKey (Draft.table_ofClauses_of_keysMoved hclauses name settings)
    (Draft.mem_primaryKey_ofClauses_of_keysMoved hclauses name settings) hsettle

end SqlTables
