import Mathlib.Tactic.SplitIfs

/-! Parsing expressions. A choice takes the first alternative that reads, a repetition goes on for
as long as something is read, and neither is ever taken back. -/

namespace SqlTables

inductive Peg where
  | empty
  | one (p : Char → Bool)
  | seq (a b : Peg)
  | choice (a b : Peg)
  | many (e : Peg)
  | not (e : Peg)

namespace Peg

def repeated (read? : List Char → Option (List Char × List Char)) (cs : List Char) :
    List Char × List Char :=
  match read? cs with
  | none => ([], cs)
  | some (x, rest) =>
    if rest.length < cs.length then
      let (y, rest) := repeated read? rest
      (x ++ y, rest)
    else ([], cs)
termination_by cs.length

def read? : Peg → List Char → Option (List Char × List Char)
  | .empty, cs => some ([], cs)
  | .one _, [] => none
  | .one p, c :: cs => if p c then some ([c], cs) else none
  | .seq a b, cs =>
    (a.read? cs).bind fun (x, rest) => (b.read? rest).map fun (y, rest) => (x ++ y, rest)
  | .choice a b, cs => (a.read? cs).or (b.read? cs)
  | .many e, cs => some (repeated e.read? cs)
  | .not e, cs => if (e.read? cs).isSome then none else some ([], cs)

def any : Peg := .one fun _ => true

def char (c : Char) : Peg := .one (· = c)

def text (cs : List Char) : Peg := cs.foldr (fun c e => .seq (char c) e) .empty

def opt (e : Peg) : Peg := .choice e .empty

def many1 (e : Peg) : Peg := .seq e (.many e)

def choices (es : List Peg) : Peg := es.foldr .choice (.one fun _ => false)

variable {a b e f : Peg} {c : Char} {cs x rest : List Char} {p : Char → Bool}

theorem read?_one_cons (p : Char → Bool) (c : Char) (cs : List Char) :
    (one p).read? (c :: cs) = if p c then some ([c], cs) else none := rfl

theorem read?_char_cons (d c : Char) (cs : List Char) :
    (char d).read? (c :: cs) = if c = d then some ([c], cs) else none := by
  simp [char, read?_one_cons]

theorem read?_seq_of_none (h : a.read? cs = none) (b : Peg) : (seq a b).read? cs = none := by
  rw [read?, h, Option.bind_none]

theorem read?_seq_of_some (h : a.read? cs = some (x, rest)) (b : Peg) :
    (seq a b).read? cs = (b.read? rest).map fun (y, rest) => (x ++ y, rest) := by
  rw [read?, h, Option.bind_some]

theorem read?_seq_one_cons (p : Char → Bool) (e : Peg) (c : Char) (cs : List Char) :
    (seq (one p) e).read? (c :: cs) =
      if p c then (e.read? cs).map fun found => (c :: found.1, found.2) else none := by
  split_ifs with hc
  · rw [read?_seq_of_some (by rw [read?_one_cons, if_pos hc])]
    rfl
  · rw [read?_seq_of_none (by rw [read?_one_cons, if_neg hc])]

theorem read?_choice (a b : Peg) (cs : List Char) :
    (choice a b).read? cs = (a.read? cs).or (b.read? cs) := rfl

theorem read?_opt (e : Peg) (cs : List Char) :
    (opt e).read? cs = some ((e.read? cs).getD ([], cs)) := by
  rw [opt, read?_choice]
  cases e.read? cs <;> rfl

theorem read?_many_of_none (h : e.read? cs = none) : (many e).read? cs = some ([], cs) := by
  rw [read?, repeated, h]

theorem read?_many_of_some (h : e.read? (x ++ rest) = some (x, rest)) (hx : x ≠ []) :
    (many e).read? (x ++ rest) =
      ((many e).read? rest).map fun (y, rest) => (x ++ y, rest) := by
  have hlt : rest.length < (x ++ rest).length := by
    have := List.length_pos_iff.2 hx
    rw [List.length_append]
    omega
  rw [read?, repeated, h]
  simp only [hlt, if_true]
  rfl

theorem read?_seq_many_of_none (h : e.read? cs = none) (f : Peg) :
    (seq (many e) f).read? cs = f.read? cs := by
  rw [read?_seq_of_some (read?_many_of_none h)]
  simp

theorem read?_seq_many_of_some (h : e.read? (x ++ rest) = some (x, rest)) (hx : x ≠ [])
    (f : Peg) : (seq (many e) f).read? (x ++ rest) =
      ((seq (many e) f).read? rest).map fun (y, rest) => (x ++ y, rest) := by
  rw [read?_seq_of_some (read?_many_of_some h hx), read?_seq_of_some rfl, Option.map_map]
  simp [Function.comp_def]

theorem read?_many_one (p : Char → Bool) (cs : List Char) :
    (many (one p)).read? cs = some (cs.takeWhile p, cs.dropWhile p) := by
  induction cs with
  | nil => exact read?_many_of_none rfl
  | cons c cs ih =>
    by_cases hc : p c = true
    · have hone : (one p).read? ([c] ++ cs) = some ([c], cs) := by simp [read?_one_cons, hc]
      have hmany := read?_many_of_some hone (by simp)
      rw [List.singleton_append, ih] at hmany
      simp [hmany, hc]
    · rw [read?_many_of_none (by simp [read?_one_cons, hc])]
      simp [hc]

theorem read?_many1_one (p : Char → Bool) (cs : List Char) :
    (many1 (one p)).read? cs =
      match cs.takeWhile p with
      | [] => none
      | d :: ds => some (d :: ds, cs.dropWhile p) := by
  cases cs with
  | nil => rfl
  | cons c cs =>
    rw [many1, read?_seq_one_cons, read?_many_one]
    by_cases hc : p c = true <;> simp [hc]

theorem repeated_spec {read? : List Char → Option (List Char × List Char)}
    (h : ∀ {cs x rest}, read? cs = some (x, rest) → cs = x ++ rest) (cs : List Char) :
    (repeated read? cs).1 ++ (repeated read? cs).2 = cs ∧
      ∀ x rest, read? (repeated read? cs).2 = some (x, rest) → x = [] := by
  fun_induction repeated read? cs with
  | case1 cs hn => simp [hn]
  | case2 cs x rest hs hlt y rest' hr ih =>
    rw [hr] at ih
    exact ⟨by rw [List.append_assoc, ih.1, h hs], ih.2⟩
  | case3 cs x rest hs hlt =>
    refine ⟨rfl, fun x' rest' (hs' : read? cs = some (x', rest')) => ?_⟩
    have hlen := congrArg List.length (h hs')
    rw [List.length_append] at hlen
    cases hs.symm.trans hs'
    exact List.length_eq_zero_iff.1 (by omega)

theorem eq_append_of_read? (h : e.read? cs = some (x, rest)) : cs = x ++ rest := by
  induction e generalizing cs x rest with
  | empty =>
    cases h
    rfl
  | one p =>
    cases cs with
    | nil => simp [read?] at h
    | cons c cs =>
      rw [read?_one_cons] at h
      split_ifs at h
      cases h
      rfl
  | seq a b iha ihb =>
    obtain ⟨⟨y, rest'⟩, hy, h⟩ := Option.bind_eq_some_iff.1 h
    obtain ⟨⟨z, rest''⟩, hz, h⟩ := Option.map_eq_some_iff.1 h
    cases h
    rw [iha hy, ihb hz, List.append_assoc]
  | choice a b iha ihb =>
    rcases Option.or_eq_some_iff.1 h with h | ⟨-, h⟩
    · exact iha h
    · exact ihb h
  | many e ih =>
    have hr : repeated e.read? cs = (x, rest) := Option.some.inj h
    have hspec := (repeated_spec ih cs).1
    rw [hr] at hspec
    exact hspec.symm
  | not e ih =>
    rw [read?] at h
    split_ifs at h
    cases h
    rfl

theorem eq_nil_of_read?_many (h : (many e).read? cs = some (x, rest)) {y after : List Char}
    (hy : e.read? rest = some (y, after)) : y = [] := by
  have hr : repeated e.read? cs = (x, rest) := Option.some.inj h
  have hstop := (@repeated_spec e.read? eq_append_of_read? cs).2
  rw [hr] at hstop
  exact hstop y after hy

theorem read?_choices {α : Type} (f : α → Peg) (as : List α) (cs : List Char) :
    (choices (as.map f)).read? cs =
      (as.findSome? fun a => ((f a).read? cs).map (a, ·)).map Prod.snd := by
  induction as with
  | nil => cases cs <;> rfl
  | cons a as ih =>
    rw [List.map_cons, choices, List.foldr_cons, ← choices, read?_choice, ih, List.findSome?_cons]
    cases (f a).read? cs <;> rfl

end Peg

end SqlTables
