import SqlTables.Proofs.Defaults.ReadBack

/-! Column lists. A list is read if a parenthesis closes it before the statement ends, and then its
items are the tokens between its commas, where no group is open. -/

namespace SqlTables

open Declaration
open Draft (header?)

variable {d : Nat} {t opening closing : Token} {ts inside after : List Token} {items : List Item}

namespace Token

/-- Whether tokens close the groups that are open, and those that they open, and no more. -/
structure Balanced (d : Nat) (ts : List Token) : Prop where
  nested : ∀ as bs, ts = as ++ bs → 0 ≤ d + depth as
  closed : d + depth ts = 0

structure Undivided (d : Nat) (ts : List Token) : Prop extends Balanced d ts where
  comma : ∀ as t bs, ts = as ++ t :: bs → t.kind = .comma → 0 < d + depth as

theorem balanced_nil_iff : Balanced d [] ↔ d = 0 := by
  constructor
  · intro h
    simpa [depth] using h.closed
  · rintro rfl
    refine ⟨fun as bs hs => ?_, rfl⟩
    rw [(List.nil_eq_append_iff.1 hs).1]
    rfl

theorem balanced_cons_iff : Balanced d (t :: ts) ↔
    (d = 0 → t.kind ≠ .rightParen) ∧ Balanced (depthAfter d t.kind) ts := by
  constructor
  · intro h
    have hfirst := h.nested [t] ts rfl
    have hright : d = 0 → t.kind ≠ .rightParen := by
      rintro rfl hr
      simp [depth, hr] at hfirst
    have hd := depthAfter_eq hright
    refine ⟨hright, fun as bs hs => ?_, ?_⟩
    · have hprefix := h.nested (t :: as) bs (by rw [hs]; rfl)
      rw [depth_cons] at hprefix
      omega
    · have hclosed := h.closed
      rw [depth_cons] at hclosed
      omega
  · rintro ⟨hright, h⟩
    have hd := depthAfter_eq hright
    refine ⟨fun as bs hs => ?_, ?_⟩
    · cases as with
      | nil => simp [depth]
      | cons u as =>
        rw [List.cons_append, List.cons.injEq] at hs
        have hprefix := h.nested as bs hs.2
        rw [← hs.1, depth_cons]
        omega
    · have hclosed := h.closed
      rw [depth_cons]
      omega

theorem undivided_nil : Undivided 0 [] := by
  refine ⟨balanced_nil_iff.2 rfl, fun as t bs hs => ?_⟩
  simp at hs

theorem Undivided.cons (h : Undivided (depthAfter d t.kind) ts)
    (hd : d = 0 → t.kind ≠ .rightParen ∧ t.kind ≠ .comma) : Undivided d (t :: ts) := by
  have hright (h0 : d = 0) := (hd h0).1
  refine ⟨balanced_cons_iff.2 ⟨hright, h.toBalanced⟩, fun as u bs hs hu => ?_⟩
  cases as with
  | nil =>
    rw [List.nil_append, List.cons.injEq] at hs
    have hpos : 0 < d := Nat.pos_of_ne_zero fun h0 => (hd h0).2 (hs.1 ▸ hu)
    simpa [depth] using hpos
  | cons v as =>
    rw [List.cons_append, List.cons.injEq] at hs
    have hcomma := h.comma as u bs hs.2 hu
    have hd := depthAfter_eq hright
    rw [← hs.1, depth_cons]
    omega

/-- Whether tokens begin with what is inside a list and the parenthesis that closes it, no semicolon
and no end before that. -/
structure Closes (d : Nat) (ts inside : List Token) (closing : Token) (after : List Token) :
    Prop where
  split : ts = inside ++ closing :: after
  balanced : Balanced d inside
  closing : closing.kind = .rightParen
  unended : ∀ t ∈ inside, ¬(t.kind = .eof ∨ t.kind = .semicolon)

theorem closes_cons_iff : Closes d ts (t :: inside) closing after ↔
    ¬(t.kind = .eof ∨ t.kind = .semicolon) ∧ (d = 0 → t.kind ≠ .rightParen) ∧
      ∃ rest, ts = t :: rest ∧ Closes (depthAfter d t.kind) rest inside closing after := by
  constructor
  · rintro ⟨rfl, hbalanced, hclosing, hunended⟩
    rw [balanced_cons_iff] at hbalanced
    rw [List.forall_mem_cons] at hunended
    exact ⟨hunended.1, hbalanced.1, _, rfl, rfl, hbalanced.2, hclosing, hunended.2⟩
  · rintro ⟨he, hright, _, rfl, rfl, hbalanced, hclosing, hunended⟩
    exact ⟨rfl, balanced_cons_iff.2 ⟨hright, hbalanced⟩, hclosing,
      List.forall_mem_cons.2 ⟨he, hunended⟩⟩

theorem Undivided.enclosed (h : Undivided 0 ts)
    (hk : ∀ t ∈ ts, ¬(t.kind = .eof ∨ t.kind = .semicolon)) : Enclosed ts :=
  items?_append_of_depth (fun t ht => not_or.1 (hk t ht)) h.nested h.comma h.closed.symm

end Token

namespace Declaration

/-- Whether items are what is inside a list, each with the comma after it and the last with the
parenthesis. -/
structure Divides (items : List Item) (inside : List Token) (closing : Token) : Prop where
  joined : ∃ others last, items = others ++ [last] ∧
    inside = others.flatMap (fun i => i.tokens ++ [i.stop]) ++ last.tokens ∧
    (∀ i ∈ others, i.stop.kind = .comma) ∧ last.stop = closing
  undivided : ∀ i ∈ items, Token.Undivided 0 i.tokens

theorem undivided_of_items? (h : items? d ts = some (items, after)) :
    ∃ first others, items = first :: others ∧ Token.Undivided d first.tokens ∧
      ∀ i ∈ others, Token.Undivided 0 i.tokens := by
  induction ts generalizing d items with
  | nil => simp [items?] at h
  | cons t ts ih =>
    obtain ⟨-, ⟨rfl, -, rfl, -⟩ | ⟨rfl, -, rest, rfl, hrest⟩ | ⟨hd, item, rest, rfl, hrest⟩⟩ :=
      items?_cases h
    · exact ⟨_, _, rfl, Token.undivided_nil, by simp⟩
    · obtain ⟨first, others, rfl, hfirst, hothers⟩ := ih hrest
      exact ⟨_, _, rfl, Token.undivided_nil, List.forall_mem_cons.2 ⟨hfirst, hothers⟩⟩
    · obtain ⟨first, others, heq, hfirst, hothers⟩ := ih hrest
      cases heq
      exact ⟨_, _, rfl, hfirst.cons hd, hothers⟩

theorem closes_of_items? (h : items? d ts = some (items, after)) :
    ∃ inside closing, Token.Closes d ts inside closing after := by
  induction ts generalizing d items with
  | nil => simp [items?] at h
  | cons t ts ih =>
    obtain ⟨he, ⟨rfl, hk, -, rfl⟩ | ⟨rfl, hk, rest, -, hrest⟩ | ⟨hd, item, rest, -, hrest⟩⟩ :=
      items?_cases h
    · exact ⟨[], t, rfl, Token.balanced_nil_iff.2 rfl, hk, by simp⟩
    · obtain ⟨inside, closing, hcloses⟩ := ih hrest
      have hdepth : depthAfter 0 t.kind = 0 := by rw [hk]; rfl
      rw [← hdepth] at hcloses
      exact ⟨t :: inside, closing, Token.closes_cons_iff.2 ⟨he, by simp [hk], _, rfl, hcloses⟩⟩
    · obtain ⟨inside, closing, hcloses⟩ := ih hrest
      exact ⟨t :: inside, closing,
        Token.closes_cons_iff.2 ⟨he, fun h0 => (hd h0).1, _, rfl, hcloses⟩⟩

theorem divides_of_items? (h : items? 0 ts = some (items, after))
    (hcloses : Token.Closes 0 ts inside closing after) : Divides items inside closing := by
  obtain ⟨hjoined, others, last, rfl, hothers, -⟩ := eq_append_of_items? h
  obtain ⟨first, rest, hitems, hfirst, hrest⟩ := undivided_of_items? h
  refine ⟨⟨others, last, rfl, ?_⟩, ?_⟩
  · have hsplit : inside ++ [closing] =
        (others.flatMap (fun i => i.tokens ++ [i.stop]) ++ last.tokens) ++ [last.stop] := by
      refine (List.append_left_inj after).1 ?_
      rw [← List.append_cons, ← hcloses.split, hjoined]
      simp
    obtain ⟨hinside, hclosing⟩ := List.append_inj' hsplit rfl
    exact ⟨hinside, hothers, (List.singleton_inj.1 hclosing).symm⟩
  · rw [hitems]
    exact List.forall_mem_cons.2 ⟨hfirst, hrest⟩

theorem exists_items?_of_closes (h : Token.Closes d ts inside closing after) :
    ∃ items, items? d ts = some (items, after) := by
  induction inside generalizing d ts with
  | nil =>
    obtain ⟨rfl, hbalanced, hclosing, -⟩ := h
    rw [Token.balanced_nil_iff.1 hbalanced]
    exact ⟨_, items?_closing Enclosed.nil hclosing after⟩
  | cons t inside ih =>
    obtain ⟨he, hright, rest, rfl, hrest⟩ := Token.closes_cons_iff.1 h
    obtain ⟨items, hitems⟩ := ih hrest
    by_cases hcomma : d = 0 ∧ t.kind = .comma
    · obtain ⟨rfl, hk⟩ := hcomma
      rw [hk] at hitems
      have hrest : items? 0 rest = some (items, after) := hitems
      rw [items?_comma hk, hrest]
      exact ⟨_, rfl⟩
    · obtain ⟨item, items, rfl⟩ := List.exists_cons_of_ne_nil (l := items) fun hnil =>
        items?_ne_nil _ _ _ (hnil ▸ hitems)
      rw [items?_cons he (fun h0 => ⟨hright h0, fun hk => hcomma ⟨h0, hk⟩⟩), hitems]
      exact ⟨_, rfl⟩

theorem items?_flatMap {others : List Item} (hothers : ∀ i ∈ others, i.stop.kind = .comma)
    (henclosed : ∀ i ∈ others, Enclosed i.tokens) (h : items? 0 ts = some (items, after)) :
    items? 0 (others.flatMap (fun i => i.tokens ++ [i.stop]) ++ ts) =
      some (others ++ items, after) := by
  induction others with
  | nil => exact h
  | cons i others ih =>
    rw [List.forall_mem_cons] at hothers henclosed
    have hrest := ih hothers.2 henclosed.2
    rw [List.flatMap_cons, List.append_assoc, List.append_assoc, henclosed.1,
      List.singleton_append, items?_comma hothers.1, hrest]
    simp [prepend]

theorem items?_of_divides (hcloses : Token.Closes 0 ts inside closing after)
    (h : Divides items inside closing) : items? 0 ts = some (items, after) := by
  obtain ⟨rfl, -, hclosing, hunended⟩ := hcloses
  obtain ⟨⟨others, last, rfl, rfl, hothers, rfl⟩, hundivided⟩ := h
  have henclosed {i : Item} (hi : i ∈ others ++ [last]) : Enclosed i.tokens := by
    refine (hundivided i hi).enclosed fun t ht => hunended t ?_
    rw [List.mem_append, List.mem_singleton] at hi
    rcases hi with hi | rfl
    · exact List.mem_append_left _ (List.mem_flatMap.2 ⟨i, hi, List.mem_append_left _ ht⟩)
    · exact List.mem_append_right _ ht
  rw [List.append_assoc]
  exact items?_flatMap hothers (fun i hi => henclosed (List.mem_append_left _ hi))
    (items?_closing (henclosed (by simp)) hclosing after)

/-- A list is read just when a parenthesis closes it before a semicolon and before the end. Then
the items, with the commas after them, are what stands before that parenthesis, each without a comma
outside of its own groups, and reading goes on behind it. Otherwise the error is placed at the
parenthesis that opens the list. -/
theorem items?_eq_some_iff (ts : List Token) :
    (∀ items after, items? 0 ts = some (items, after) ↔
      ∃ inside closing, Token.Closes 0 ts inside closing after ∧ Divides items inside closing) ∧
    ((∃ items after, items? 0 ts = some (items, after)) ↔
      ∃ inside closing after, Token.Closes 0 ts inside closing after) ∧
    ∀ source name opening, header? source = some (name, opening, ts) →
      ((∀ inside closing after, ¬Token.Closes 0 ts inside closing after) ↔
        Draft.Definition.read source =
          .error (.unterminatedColumnList opening.start.line opening.start.column)) := by
  have hread : (∃ items after, items? 0 ts = some (items, after)) ↔
      ∃ inside closing after, Token.Closes 0 ts inside closing after := by
    constructor
    · rintro ⟨items, after, h⟩
      obtain ⟨inside, closing, hcloses⟩ := closes_of_items? h
      exact ⟨inside, closing, after, hcloses⟩
    · rintro ⟨inside, closing, after, hcloses⟩
      obtain ⟨items, h⟩ := exists_items?_of_closes hcloses
      exact ⟨items, after, h⟩
  refine ⟨fun items after => ⟨fun h => ?_, ?_⟩, hread, fun source name opening hheader => ?_⟩
  · obtain ⟨inside, closing, hcloses⟩ := closes_of_items? h
    exact ⟨inside, closing, hcloses, divides_of_items? h hcloses⟩
  · rintro ⟨inside, closing, hcloses, hdivides⟩
    exact items?_of_divides hcloses hdivides
  · have hnone : (∀ inside closing after, ¬Token.Closes 0 ts inside closing after) ↔
        items? 0 ts = none := by
      rw [Option.eq_none_iff_forall_ne_some, Prod.forall]
      simpa only [not_exists, ne_eq] using (not_congr hread).symm
    rw [hnone, Draft.Definition.read, hheader]
    dsimp only
    cases items? 0 ts with
    | none => simp
    | some found => simp

def openList : List Token :=
  (Token.tokenize "CREATE TABLE t (a DECIMAL(10,2), b INT; )").toOption.getD []

theorem items?_eq_some_iff_openList :
    header? openList = some ("t", ⟨" ", .leftParen, "(", ⟨1, 16, 15⟩⟩, openList.drop 4) ∧
      ∀ inside closing after, ¬Token.Closes 0 (openList.drop 4) inside closing after := by
  have hheader : header? openList =
      some ("t", ⟨" ", .leftParen, "(", ⟨1, 16, 15⟩⟩, openList.drop 4) := by
    decide +kernel
  exact ⟨hheader, ((items?_eq_some_iff _).2.2 _ _ _ hheader).2 (by decide +kernel)⟩

end Declaration
end SqlTables
