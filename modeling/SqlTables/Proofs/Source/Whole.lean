import SqlTables.Proofs.RoundTrip.Spelling
import SqlTables.Proofs.Source.Division

/-! Texts put together of parts that do not divide. A part stays whole before whatever neither goes
on with a literal nor completes a comment marker. -/

namespace SqlTables

namespace Source

open Dialect (double enclose)

variable {α : Type} {c : Char} {as bs cs sep after : List Char}

def Separated (cs : List Char) : Prop :=
  ∀ c, cs.head? = some c → isQuote c = false ∧ c ≠ '-' ∧ c ≠ '*'

/-- Whether a text may be a part of a statement. -/
def Whole (cs : List Char) : Prop := ∀ after, Separated after → Undivided cs after

structure Trailing (cs : List Char) : Prop where
  whole : Whole cs
  separated : Separated cs

theorem separated_nil : Separated [] := by simp [Separated]

theorem separated_append (ha : Separated as) (hb : Separated bs) : Separated (as ++ bs) := by
  cases as with
  | nil => exact hb
  | cons a as => exact ha

theorem whole_nil : Whole [] := fun after _ => Marks.nil after

theorem trailing_nil : Trailing [] := ⟨whole_nil, separated_nil⟩

theorem Whole.append (ha : Whole as) (hb : Trailing bs) : Whole (as ++ bs) := by
  intro after hafter
  exact Marks.append (ha _ (separated_append hb.separated hafter)) (hb.whole after hafter)

theorem Trailing.append (ha : Trailing as) (hb : Trailing bs) : Trailing (as ++ bs) :=
  ⟨ha.whole.append hb, separated_append ha.separated hb.separated⟩

theorem trailing_flatMap {f : α → List Char} {xs : List α} (h : ∀ x ∈ xs, Trailing (f x)) :
    Trailing (xs.flatMap f) := by
  induction xs with
  | nil => exact trailing_nil
  | cons x xs ih =>
    rw [List.forall_mem_cons] at h
    exact h.1.append (ih h.2)

def isInert (c : Char) : Bool := isPlain c && c ≠ ';' && c ≠ '*'

def Inert (cs : List Char) : Prop := cs ≠ [] ∧ ∀ c ∈ cs, isInert c = true

instance (cs : List Char) : Decidable (Inert cs) :=
  decidable_of_iff (cs ≠ [] ∧ cs.all isInert = true) (and_congr_right fun _ => List.all_eq_true)

theorem Inert.undivided (h : Inert cs) (after : List Char) : Undivided cs after := by
  have hc (c : Char) (hc : c ∈ cs) : isPlain c = true ∧ c ≠ ';' := by
    have hi := h.2 c hc
    simp only [isInert, Bool.and_eq_true, decide_eq_true_eq] at hi
    exact hi.1
  refine marks_of_plain (fun c hm => ⟨by simp, ?_⟩) (fun c hm => (hc c hm).1) after
  simpa using (hc c hm).2

theorem Inert.separated (h : Inert as) (bs : List Char) : Separated (as ++ bs) := by
  obtain ⟨a, as, rfl⟩ := List.exists_cons_of_ne_nil h.1
  intro c hc
  rw [List.cons_append, List.head?_cons, Option.some.injEq] at hc
  subst hc
  have ha := h.2 a (by simp)
  simp only [isInert, isPlain, Bool.and_eq_true, Bool.not_eq_true', decide_eq_true_eq] at ha
  exact ⟨ha.1.1.1.1.1, ha.1.1.1.1.2, ha.2⟩

theorem Inert.append (ha : Inert as) (hb : Whole bs) : Trailing (as ++ bs) :=
  ⟨fun after h => Marks.append (ha.undivided _) (hb after h), ha.separated bs⟩

theorem Inert.trailing (h : Inert cs) : Trailing cs := by
  have hcs := h.append whole_nil
  rwa [List.append_nil] at hcs

theorem whole_intercalate {xs : List (List Char)} (hs : Inert sep) (h : ∀ x ∈ xs, Whole x) :
    Whole (sep.intercalate xs) := by
  cases xs with
  | nil => exact whole_nil
  | cons x xs =>
    rw [List.forall_mem_cons] at h
    rw [intercalate_cons]
    exact h.1.append (trailing_flatMap fun y hy => hs.append (h.2 y hy))

theorem inert_toString (n : Nat) : Inert (toString n).toList := by
  refine ⟨toString_ne_nil n, fun c hc => ?_⟩
  have hdigit := isDigit_toString n c hc
  have hplain : isPlain c = true := isPlain_of_class (by decide) hdigit
  have hmarks : c ≠ ';' ∧ c ≠ '*' := by
    constructor <;> rintro rfl <;> exact absurd hdigit (by decide)
  simp [isInert, hplain, hmarks]

theorem Separated.head?_ne (h : Separated after) {quote : Char} (hq : isQuote quote = true) :
    after.head? ≠ some quote := by
  intro hc
  rw [(h quote hc).1] at hq
  exact absurd hq (by simp)

theorem whole_literal {quote : Char} {inside : List Char} (hq : isQuote quote = true)
    (h : ∀ after, after.head? ≠ some quote →
      closing? (quote ≠ '\x60') quote (inside ++ quote :: after) = some (inside, after)) :
    Whole (quote :: inside ++ [quote]) := by
  intro after hafter
  refine marks_literal (fun c => ⟨by simp, by simp⟩) hq (h after (hafter.head?_ne hq))

theorem whole_quoteName (s : String) : Whole (Dialect.mysql.quoteName s).toList := by
  have htext : (Dialect.mysql.quoteName s).toList =
      '\x60' :: double '\x60' s.toList ++ ['\x60'] := String.toList_ofList
  rw [htext]
  exact whole_literal (by decide) fun after h => closing?_double (by simp) (by simp) h

theorem whole_quoteString (s : String) : Whole (Dialect.mysql.quoteString s).toList := by
  have htext : (Dialect.mysql.quoteString s).toList =
      '\x27' :: double '\x27' (double '\\' s.toList) ++ ['\x27'] := String.toList_ofList
  rw [htext]
  exact whole_literal (by decide) fun after h => closing?_escaped h

theorem whole_member {s : String} (h : '\\' ∉ s.toList) :
    Whole (enclose '\x27' s.toList).toList := by
  have htext : (enclose '\x27' s.toList).toList =
      '\x27' :: double '\x27' s.toList ++ ['\x27'] := String.toList_ofList
  rw [htext]
  exact whole_literal (by decide) fun after hn => closing?_double (by simp) (fun _ => h) hn

/-- Whether a text has no quote and no semicolon and opens no comment. -/
def Bare (s : String) : Prop :=
  (∀ c ∈ s.toList, isQuote c = false ∧ c ≠ ';' ∧ c ≠ '#') ∧
    ¬['-', '-'] <:+: s.toList ∧ ¬['/', '*'] <:+: s.toList

instance (s : String) : Decidable (Bare s) :=
  decidable_of_iff ((s.toList.all fun c => isQuote c = false ∧ c ≠ ';' ∧ c ≠ '#') = true ∧
      ¬['-', '-'] <:+: s.toList ∧ ¬['/', '*'] <:+: s.toList)
    (and_congr_left fun _ => by simp only [List.all_eq_true, decide_eq_true_eq])

theorem isInfix_of_next {d : Char} (h : (cs ++ after).head? = some d) (ha : after.head? ≠ some d) :
    [c, d] <:+: c :: cs := by
  cases cs with
  | nil => exact absurd h ha
  | cons e cs =>
    obtain rfl := Option.some.inj h
    exact (List.prefix_append [c, e] cs).isInfix

theorem whole_of_bare {s : String} (h : Bare s) : Whole s.toList := by
  intro after hafter
  obtain ⟨hchars, hminus, hstar⟩ := h
  generalize s.toList = cs at hchars hminus hstar
  induction cs with
  | nil => exact .nil after
  | cons c cs ih =>
    rw [List.forall_mem_cons] at hchars
    have hcs : Undivided cs after := ih hchars.2
      (fun hi => hminus (hi.trans (List.suffix_cons c cs).isInfix))
      (fun hi => hstar (hi.trans (List.suffix_cons c cs).isInfix))
    refine Marks.cons ⟨by simp, by simpa using hchars.1.2.1⟩ hchars.1.1 ?_ hcs
    -- a marker would lie in the text, or end in a character that may not follow it
    rintro (rfl | ⟨rfl, hnext⟩ | ⟨rfl, hnext⟩)
    · exact hchars.1.2.2 rfl
    · exact hminus (isInfix_of_next hnext fun ha => (hafter _ ha).2.1 rfl)
    · exact hstar (isInfix_of_next hnext fun ha => (hafter _ ha).2.2 rfl)

end Source

end SqlTables
