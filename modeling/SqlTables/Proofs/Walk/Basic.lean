import Mathlib.Tactic.SplitIfs
import SqlTables.Declaration.Reference

/-! Reading by position. A walk keeps a position among the tokens and checks each of its own steps:
where it stands, what it passes over, how far down it counts, which slices it takes, and that a loop
gets on. `Reads` says that a walk does none of this wrong and reads what a reader of lists reads. -/

namespace SqlTables

open Declaration

/-- What a walk must never do: stand behind the last token, step over an end token, lower a number
below zero, take a slice out of range, or begin a round of a loop where the last one began. -/
inductive Fault where
  | outside
  | pastEnd
  | underflow
  | badSlice
  | stalled
deriving Repr, DecidableEq

/-- A reader that moves a position through tokens, finds something or gives up where it stands. -/
def Walk (α : Type) : Type := List Token → Nat → Except Fault (Option α × Nat)

instance : Monad Walk where
  pure a := fun _ pos => .ok (some a, pos)
  bind w f := fun ts pos =>
    match w ts pos with
    | .error fault => .error fault
    | .ok (none, next) => .ok (none, next)
    | .ok (some a, next) => f a ts next

def lowered : Nat → Except Fault Nat
  | 0 => .error .underflow
  | n + 1 => .ok n

def slice (ts : List Token) (start stop : Nat) : Except Fault (List Token) :=
  if start ≤ stop ∧ stop ≤ ts.length then .ok ((ts.take stop).drop start) else .error .badSlice

namespace Walk

variable {α β σ : Type}

def giveUp : Walk α := fun _ pos => .ok (none, pos)

def ofOption : Option α → Walk α
  | some a => pure a
  | none => giveUp

def checked (result : Except Fault α) : Walk α := fun _ pos => result.map (some ·, pos)

def position : Walk Nat := fun _ pos => .ok (some pos, pos)

def ahead : Walk (List Token) := fun ts pos => .ok (some (ts.drop pos), pos)

def between (start stop : Nat) : Walk (List Token) :=
  fun ts pos => (slice ts start stop).map (some ·, pos)

def moveTo (next : Nat) : Walk Unit := fun ts pos =>
  if ts.length < next then .error .outside
  else if ((ts.take next).drop pos).any (·.kind == .eof) then .error .pastEnd
  else .ok (some (), next)

def peekAt (distance : Nat) : Walk (Option Token) := fun ts pos =>
  .ok (some (ts[pos + distance]?.filter (·.kind ≠ .eof)), pos)

def peek : Walk (Option Token) := peekAt 0

def moveBy (n : Nat) : Walk Unit := do moveTo ((← position) + n)

def atEnd : Walk Bool := do return (← peek).isNone

def sees (p : Token → Bool) : Walk Bool := do return (← peek).any p

def seesKind (k : TokenKind) : Walk Bool := sees (·.kind == k)

def seesOneOf (ws : List String) : Walk Bool := sees fun t => ws.any t.isKeyword

def take (f : Token → Option α) : Walk α := do
  let t ← ofOption (← peek)
  let a ← ofOption (f t)
  moveBy 1
  return a

def advance : Walk Token := take some

def advance? : Walk (Option Token) := do
  match ← peek with
  | none => return none
  | some t =>
    moveBy 1
    return some t

def identifier : Walk String := take Token.name?

def string : Walk String := take fun t =>
  match t.kind with
  | .string value => some value
  | _ => none

def eatIf (p : Token → Bool) : Walk Bool := do
  if ← sees p then
    moveBy 1
    return true
  else return false

def eat (k : TokenKind) : Walk Bool := eatIf (·.kind == k)

def eatKeyword (w : String) : Walk Bool := eatIf (·.isKeyword w)

def eatKeywords (ws : List String) : Walk Bool := do
  let rest ← ahead
  if ws.length ≤ rest.length ∧ (ws.zip rest).all fun (w, t) => t.isKeyword w then
    moveBy ws.length
    return true
  else return false

def eatOneOf : List (List String) → Walk Bool
  | [] => return false
  | ws :: others => do if ← eatKeywords ws then return true else eatOneOf others

inductive Round (σ β : Type) where
  | again (s : σ)
  | leave (b : β)

/-- Goes round until a round leaves or gives up. Each round gets on by a token at least. -/
def loop (round : σ → Walk (Round σ β)) (s : σ) : Walk β := fun ts pos =>
  match round s ts pos with
  | .error fault => .error fault
  | .ok (none, next) => .ok (none, next)
  | .ok (some (.leave b), next) => .ok (some b, next)
  | .ok (some (.again s), next) =>
    if pos < next ∧ next ≤ ts.length then loop round s ts next else .error .stalled
termination_by ts pos => ts.length - pos

def textOf (w : Walk α) : Walk String := do
  let start ← position
  let _ ← w
  let last ← checked (lowered (← position))
  return Token.sourceText (← between start (last + 1))

/-- From some place a walk runs without a fault, stays among the tokens, and comes to what was found
with the tokens after it. -/
def Runs (w : Walk α) (ts : List Token) (pos : Nat) (found : Option (α × List Token)) : Prop :=
  ∃ a next, w ts pos = .ok (a, next) ∧ next ≤ ts.length ∧ a.map (·, ts.drop next) = found

/-- A walk runs so from every place where `rest` is left. -/
def Reads (w : Walk α) (rest : List Token) (found : Option (α × List Token)) : Prop :=
  ∀ ts pos, pos ≤ ts.length → ts.drop pos = rest → Runs w ts pos found

def Tests (test : Walk Bool) (rest : List Token) (passed : Option (List Token)) : Prop :=
  Reads test rest (some (passed.isSome, passed.getD rest))

variable {w yes no : Walk α} {f : α → Walk β} {test : Walk Bool} {p : Token → Bool} {a : α} {b : β}
  {t : Token} {read rest after ts : List Token} {found : Option (α × List Token)}
  {found' : Option (β × List Token)} {passed : Option (List Token)} {pos next : Nat}

theorem Reads.of_eq {found' : Option (α × List Token)} (h : Reads w rest found)
    (he : found = found') : Reads w rest found' := he ▸ h

theorem reads_pure (a : α) (rest : List Token) : Reads (pure a) rest (some (a, rest)) :=
  fun _ pos hpos hrest => ⟨some a, pos, rfl, hpos, by rw [Option.map_some, hrest]⟩

theorem reads_giveUp (rest : List Token) : Reads (giveUp : Walk α) rest none :=
  fun _ pos hpos _ => ⟨none, pos, rfl, hpos, rfl⟩

theorem Runs.of_some (h : Runs w ts pos (some (a, after))) :
    ∃ next, w ts pos = .ok (some a, next) ∧ next ≤ ts.length ∧ ts.drop next = after := by
  obtain ⟨r, next, hrun, hnext, hfound⟩ := h
  obtain ⟨a', rfl, he⟩ := Option.map_eq_some_iff.1 hfound
  obtain ⟨rfl, hafter⟩ := Prod.mk.inj he
  exact ⟨next, hrun, hnext, hafter⟩

theorem Runs.of_none (h : Runs w ts pos none) :
    ∃ next, w ts pos = .ok (none, next) ∧ next ≤ ts.length := by
  obtain ⟨r, next, hrun, hnext, hfound⟩ := h
  rw [Option.map_eq_none_iff] at hfound
  exact ⟨next, hfound ▸ hrun, hnext⟩

theorem run_bind (h : w ts pos = .ok (some a, next)) :
    (w >>= f) ts pos = f a ts next := by
  simp only [Bind.bind, h]

theorem runs_bind (h : w ts pos = .ok (some a, next))
    (hf : Runs (f a) ts next found') : Runs (w >>= f) ts pos found' := by
  rwa [Runs, run_bind h]

theorem Reads.bind {g : α × List Token → Option (β × List Token)} (hw : Reads w rest found)
    (hf : ∀ a after, found = some (a, after) → Reads (f a) after (g (a, after))) :
    Reads (w >>= f) rest (found.bind g) := by
  intro ts pos hpos hrest
  obtain ⟨a, next, hrun, hnext, rfl⟩ := hw ts pos hpos hrest
  cases a with
  | none => exact ⟨none, next, by simp only [Bind.bind, hrun], hnext, rfl⟩
  | some a =>
    obtain ⟨b, last, hb, hlast, hfound⟩ := hf a _ rfl ts next hnext rfl
    exact ⟨b, last, by rw [run_bind hrun, hb], hlast, hfound⟩

theorem Reads.andThen (hw : Reads w rest (some (a, after))) (hf : Reads (f a) after found') :
    Reads (w >>= f) rest found' :=
  hw.bind (g := fun _ => found') fun _ _ h => by cases h; exact hf

theorem Reads.giveUp (hw : Reads w rest none) : Reads (w >>= f) rest none :=
  hw.bind (g := fun _ => none) fun _ _ h => nomatch h

theorem Reads.map (hw : Reads w rest found) (k : α → β) :
    Reads (do return k (← w)) rest (found.map fun (a, after) => (k a, after)) := by
  rw [Option.map_eq_bind]
  exact hw.bind fun a after _ => reads_pure (k a) after

theorem reads_ofOption (a : Option α) (rest : List Token) :
    Reads (ofOption a) rest (a.map (·, rest)) := by
  cases a
  · exact reads_giveUp rest
  · exact reads_pure _ rest

theorem Tests.ite (h : Tests test rest passed)
    (hyes : ∀ after, passed = some after → Reads yes after found)
    (hno : passed = none → Reads no rest found) :
    Reads (do if ← test then yes else no) rest found := by
  refine h.andThen ?_
  cases passed with
  | none => exact hno rfl
  | some after => exact hyes after rfl

theorem Tests.ite_of_some (h : Tests test rest (some after)) (hyes : Reads yes after found) :
    Reads (do if ← test then yes else no) rest found :=
  h.ite (fun _ he => Option.some.inj he ▸ hyes) nofun

theorem Tests.ite_of_none (h : Tests test rest none) (hno : Reads no rest found) :
    Reads (do if ← test then yes else no) rest found :=
  h.ite nofun fun _ => hno

/-- The same, wherever among the tokens the walk gets to. -/
def Yields (w : Walk α) (rest : List Token) (found : Option α) : Prop :=
  ∀ ts pos, pos ≤ ts.length → ts.drop pos = rest →
    ∃ next, w ts pos = .ok (found, next) ∧ next ≤ ts.length

theorem Reads.yields (h : Reads w rest found) : Yields w rest (found.map (·.1)) := by
  intro ts pos hpos hrest
  obtain ⟨a, next, hrun, hnext, rfl⟩ := h ts pos hpos hrest
  exact ⟨next, by rw [hrun]; cases a <;> rfl, hnext⟩

theorem Reads.andThenYields {found : Option β} (hw : Reads w rest (some (a, after)))
    (hf : Yields (f a) after found) : Yields (w >>= f) rest found := by
  intro ts pos hpos hrest
  obtain ⟨next, hrun, hnext, hafter⟩ := (hw ts pos hpos hrest).of_some
  rw [run_bind hrun]
  exact hf ts next hnext hafter

theorem Reads.bindYields {g : α × List Token → Option β} (hw : Reads w rest found)
    (hf : ∀ a after, found = some (a, after) → Yields (f a) after (g (a, after))) :
    Yields (w >>= f) rest (found.bind g) := by
  cases found with
  | none => exact hw.giveUp.yields
  | some found => exact hw.andThenYields (hf found.1 found.2 rfl)

theorem Yields.map {found : Option α} (h : Yields w rest found) (k : α → β) :
    Yields (do return k (← w)) rest (found.map k) := by
  intro ts pos hpos hrest
  obtain ⟨next, hrun, hnext⟩ := h ts pos hpos hrest
  refine ⟨next, ?_, hnext⟩
  simp only [Bind.bind, hrun]
  cases found <;> rfl

theorem Tests.iteYields {found : Option α} (h : Tests test rest passed)
    (hyes : ∀ after, passed = some after → Yields yes after found)
    (hno : passed = none → Yields no rest found) :
    Yields (do if ← test then yes else no) rest found := by
  refine h.andThenYields ?_
  cases passed with
  | none => exact hno rfl
  | some after => exact hyes after rfl

theorem moveTo_eq_ok_iff : moveTo next ts pos = .ok (some (), next) ↔
    next ≤ ts.length ∧ ∀ t ∈ (ts.take next).drop pos, t.kind ≠ .eof := by
  rw [moveTo]
  split_ifs with hlength heof
  · simp [Nat.not_le.2 hlength]
  · simpa using fun _ => heof
  · simpa using ⟨Nat.le_of_not_lt hlength, by simpa using heof⟩

theorem moveTo_eq (hrest : ts.drop pos = read ++ after) (h : ∀ t ∈ read, t.kind ≠ .eof)
    (hpos : pos ≤ ts.length) :
    moveTo (pos + read.length) ts pos = .ok (some (), pos + read.length) ∧
      pos + read.length ≤ ts.length ∧ ts.drop (pos + read.length) = after := by
  have hlength : ts.length - pos = read.length + after.length := by
    rw [← List.length_drop, hrest, List.length_append]
  have hread : (ts.take (pos + read.length)).drop pos = read := by
    rw [List.drop_take, hrest, Nat.add_sub_cancel_left, List.take_left]
  have hnext : pos + read.length ≤ ts.length := by omega
  refine ⟨moveTo_eq_ok_iff.2 ⟨hnext, by rwa [hread]⟩, hnext, ?_⟩
  rw [← List.drop_drop, hrest, List.drop_left]

theorem reads_moveBy (h : ∀ t ∈ read, t.kind ≠ .eof) :
    Reads (moveBy read.length) (read ++ after) (some ((), after)) := by
  intro ts pos hpos hrest
  obtain ⟨hrun, hnext, hdrop⟩ := moveTo_eq hrest h hpos
  exact ⟨some (), _, hrun, hnext, by rw [hdrop]; rfl⟩

theorem reads_moveBy_one (ht : t.kind ≠ .eof) (after : List Token) :
    Reads (moveBy 1) (t :: after) (some ((), after)) := by
  have hread : ∀ u ∈ [t], u.kind ≠ .eof := by simpa using ht
  exact reads_moveBy hread

theorem reads_peekAt (distance : Nat) (rest : List Token) :
    Reads (peekAt distance) rest (some (rest[distance]?.filter (·.kind ≠ .eof), rest)) := by
  intro ts pos hpos hrest
  refine ⟨_, pos, rfl, hpos, ?_⟩
  rw [← hrest, List.getElem?_drop]
  rfl

theorem reads_peek (rest : List Token) :
    Reads peek rest (some ((take? rest).map (·.1), rest)) := by
  refine (reads_peekAt 0 rest).of_eq ?_
  cases rest with
  | nil => rfl
  | cons t rest =>
    rw [take?]
    split_ifs with ht <;> simp [ht]

theorem take?_cons (ht : t.kind ≠ .eof) (after : List Token) :
    take? (t :: after) = some (t, after) := if_neg ht

theorem reads_peek_cons (ht : t.kind ≠ .eof) (after : List Token) :
    Reads peek (t :: after) (some (some t, t :: after)) :=
  (reads_peek _).of_eq (by rw [take?_cons ht]; rfl)

theorem reads_take (f : Token → Option α) (rest : List Token) :
    Reads (take f) rest ((take? rest).bind fun (t, after) => (f t).map (·, after)) := by
  refine (reads_peek rest).andThen ?_
  cases rest with
  | nil => exact (reads_ofOption _ _).giveUp
  | cons t after =>
    rw [take?]
    split_ifs with ht
    · exact (reads_ofOption _ _).giveUp
    · refine (reads_ofOption (some t) _).andThen ?_
      cases hf : f t with
      | none => simpa [hf] using (reads_ofOption none _).giveUp
      | some a =>
        simpa [hf] using (reads_ofOption (some a) _).andThen
          ((reads_moveBy_one ht after).andThen (reads_pure a after))

theorem reads_advance (rest : List Token) : Reads advance rest (take? rest) := by
  refine (reads_take some rest).of_eq ?_
  cases take? rest <;> rfl

theorem reads_advance? (rest : List Token) :
    Reads advance? rest (some ((take? rest).map (·.1), skipToken rest)) := by
  refine (reads_peek rest).andThen ?_
  cases rest with
  | nil => exact reads_pure none []
  | cons t after =>
    rw [skipToken, take?]
    split_ifs with ht
    · exact reads_pure none _
    · exact (reads_moveBy_one ht after).andThen (reads_pure (some t) after)

theorem reads_advance?_cons (ht : t.kind ≠ .eof) (after : List Token) :
    Reads advance? (t :: after) (some (some t, after)) :=
  (reads_advance? _).of_eq (by rw [skipToken, take?_cons ht]; rfl)

theorem reads_identifier (rest : List Token) : Reads identifier rest (name? rest) := by
  refine (reads_take Token.name? rest).of_eq ?_
  cases rest with
  | nil => rfl
  | cons t after => by_cases ht : t.kind = .eof <;> simp [take?, name?, Token.name?, ht]

theorem reads_string (rest : List Token) : Reads string rest (string? rest) := by
  refine (reads_take _ rest).of_eq ?_
  cases rest with
  | nil => rfl
  | cons t after => cases ht : t.kind <;> simp [take?, string?, ht]

theorem reads_atEnd (rest : List Token) :
    Reads atEnd rest (some (isDone rest, rest)) := by
  refine (reads_peek rest).andThen ?_
  rw [Option.isNone_map]
  exact reads_pure _ rest

def passIf (p : Token → Bool) : List Token → Option (List Token)
  | [] => none
  | t :: rest => if p t then some rest else none

theorem reads_sees (hp : ∀ t, p t = true → t.kind ≠ .eof) (rest : List Token) :
    Reads (sees p) rest (some ((passIf p rest).isSome, rest)) := by
  refine (reads_peek rest).andThen ?_
  cases rest with
  | nil => exact reads_pure false []
  | cons t after =>
    have hseen : ((take? (t :: after)).map (·.1)).any p = (passIf p (t :: after)).isSome := by
      cases ht : p t
      · by_cases he : t.kind = .eof <;> simp [take?, passIf, he, ht]
      · simp [take?, passIf, hp t ht, ht]
    rw [hseen]
    exact reads_pure _ _

theorem reads_seesKind {k : TokenKind} (hk : k ≠ .eof) (rest : List Token) :
    Reads (seesKind k) rest (some (peekKind k rest, rest)) := by
  refine (reads_sees (fun t ht => by rwa [beq_iff_eq.1 ht]) rest).of_eq ?_
  cases rest with
  | nil => rfl
  | cons t rest => cases ht : t.kind == k <;> simp [passIf, peekKind, ht]

theorem reads_seesOneOf (ws : List String) (rest : List Token) :
    Reads (seesOneOf ws) rest (some (ws.any (peekKeyword · rest), rest)) := by
  have hp (t : Token) (ht : ws.any t.isKeyword = true) : t.kind ≠ .eof := by
    obtain ⟨w, -, hw⟩ := List.any_eq_true.1 ht
    exact ne_eof_of_isKeyword hw
  refine (reads_sees hp rest).of_eq ?_
  cases rest with
  | nil => simp [passIf, peekKeyword]
  | cons t rest => cases ht : ws.any t.isKeyword <;> simp [passIf, peekKeyword, ht]

theorem tests_eatIf (hp : ∀ t, p t = true → t.kind ≠ .eof) (rest : List Token) :
    Tests (eatIf p) rest (passIf p rest) := by
  refine (reads_sees hp rest).andThen ?_
  cases rest with
  | nil => exact reads_pure false []
  | cons t after =>
    cases ht : p t with
    | false => simpa [passIf, ht] using reads_pure false (t :: after)
    | true =>
      simpa [passIf, ht] using (reads_moveBy_one (hp t ht) after).andThen (reads_pure true after)

theorem tests_eat {k : TokenKind} (hk : k ≠ .eof) (rest : List Token) :
    Tests (eat k) rest (passIf (·.kind == k) rest) :=
  tests_eatIf (fun t ht => by rwa [beq_iff_eq.1 ht]) rest

theorem passIf_of_eq {k : TokenKind} (ht : t.kind = k) (rest : List Token) :
    passIf (·.kind == k) (t :: rest) = some rest := by
  simp [passIf, ht]

theorem passIf_of_ne {k : TokenKind} (ht : t.kind ≠ k) (rest : List Token) :
    passIf (·.kind == k) (t :: rest) = none := by
  simp [passIf, ht]

theorem tests_eatKeyword (w : String) (rest : List Token) :
    Tests (eatKeyword w) rest (keyword? w rest) := by
  have h := tests_eatIf (p := (·.isKeyword w)) (fun _ => ne_eof_of_isKeyword) rest
  cases rest <;> exact h

theorem keywords?_singleton (w : String) (rest : List Token) :
    keywords? [w] rest = keyword? w rest := by
  cases h : keyword? w rest <;> simp [keywords?, h]

theorem keywords?_eq (ws : List String) (rest : List Token) :
    keywords? ws rest =
      if ws.length ≤ rest.length ∧ (ws.zip rest).all (fun (w, t) => t.isKeyword w) then
        some (rest.drop ws.length)
      else none := by
  induction ws generalizing rest with
  | nil => simp [keywords?]
  | cons w ws ih =>
    cases rest with
    | nil => simp [keywords?, keyword?]
    | cons t rest =>
      cases ht : t.isKeyword w with
      | false => simp [keywords?, keyword?, ht]
      | true =>
        have hfirst : keywords? (w :: ws) (t :: rest) = keywords? ws rest := by
          simp [keywords?, keyword?, ht]
        rw [hfirst, ih]
        simp only [List.length_cons, Nat.add_le_add_iff_right, List.zip_cons_cons, List.all_cons,
          ht, Bool.true_and, List.drop_succ_cons]

theorem tests_eatKeywords (ws : List String) (rest : List Token) :
    Tests (eatKeywords ws) rest (keywords? ws rest) := by
  have hahead : Reads ahead rest (some (rest, rest)) :=
    fun ts pos hpos hrest => ⟨some rest, pos, by rw [ahead, hrest], hpos, by rw [hrest]; rfl⟩
  refine hahead.andThen ?_
  have hkeywords := keywords?_eq ws rest
  split_ifs at hkeywords with hc
  · obtain ⟨read, hread, hsplit⟩ := keywords?_skips hkeywords
    have hlength : read.length = ws.length := by
      have := congrArg List.length hsplit
      rw [List.length_append, List.length_drop] at this
      omega
    rw [if_pos hc, hkeywords]
    have hstep : Reads _ (read ++ rest.drop ws.length) (some ((), _)) := reads_moveBy hread
    rw [hlength, ← hsplit] at hstep
    exact hstep.andThen (reads_pure true _)
  · rw [if_neg hc, hkeywords]
    exact reads_pure false rest

theorem tests_eatOneOf (choices : List (List String)) (rest : List Token) :
    Tests (eatOneOf choices) rest (choices.findSome? (keywords? · rest)) := by
  induction choices with
  | nil => exact reads_pure false rest
  | cons ws others ih =>
    rw [List.findSome?_cons]
    refine (tests_eatKeywords ws rest).ite (fun after h => ?_) fun h => ?_
    · rw [h]
      exact reads_pure true after
    · rw [h]
      exact ih

theorem skipOneOf_eq (choices : List (List String)) (rest : List Token) :
    skipOneOf choices rest = (choices.findSome? (keywords? · rest)).getD rest := by
  induction choices with
  | nil => rfl
  | cons ws others ih =>
    rw [skipOneOf, List.findSome?_cons]
    cases keywords? ws rest
    · exact ih
    · rfl

theorem skipOneOf_singleton (ws : List String) (rest : List Token) :
    skipOneOf [ws] rest = (keywords? ws rest).getD rest := by
  rw [skipOneOf]
  cases keywords? ws rest <;> rfl

variable {round : σ → Walk (Round σ β)} {s s' : σ}

theorem Runs.again (h : round s ts pos = .ok (some (.again s'), next))
    (hlt : pos < next) (hnext : next ≤ ts.length) (hloop : Runs (loop round s') ts next found') :
    Runs (loop round s) ts pos found' := by
  obtain ⟨b, last, hrun, hlast⟩ := hloop
  refine ⟨b, last, ?_, hlast⟩
  rw [loop, h]
  simp only [hlt, hnext, and_self, if_true, hrun]

theorem Runs.leave (h : round s ts pos = .ok (some (.leave b), next))
    (hnext : next ≤ ts.length) : Runs (loop round s) ts pos (some (b, ts.drop next)) :=
  ⟨some b, next, by rw [loop, h], hnext, rfl⟩

theorem Runs.stuck (h : round s ts pos = .ok (none, next)) (hnext : next ≤ ts.length) :
    Runs (loop round s) ts pos none :=
  ⟨none, next, by rw [loop, h], hnext, rfl⟩

theorem Reads.again (h : Reads (round s) rest (some (.again s', after)))
    (hlt : after.length < rest.length) (hloop : Reads (loop round s') after found') :
    Reads (loop round s) rest found' := by
  intro ts pos hpos hrest
  obtain ⟨next, hrun, hnext, hafter⟩ := (h ts pos hpos hrest).of_some
  refine .again hrun ?_ hnext (hloop ts next hnext hafter)
  rw [← hafter, ← hrest, List.length_drop, List.length_drop] at hlt
  omega

theorem Reads.leave (h : Reads (round s) rest (some (.leave b, after))) :
    Reads (loop round s) rest (some (b, after)) := by
  intro ts pos hpos hrest
  obtain ⟨next, hrun, hnext, rfl⟩ := (h ts pos hpos hrest).of_some
  exact .leave hrun hnext

theorem Reads.stuck (h : Reads (round s) rest none) : Reads (loop round s) rest none := by
  intro ts pos hpos hrest
  obtain ⟨next, hrun, hnext⟩ := (h ts pos hpos hrest).of_none
  exact .stuck hrun hnext

theorem slice_eq (hpos : ts.drop pos = read ++ after) (h : pos ≤ ts.length) :
    slice ts pos (pos + read.length) = .ok read := by
  have hlength : ts.length - pos = read.length + after.length := by
    rw [← List.length_drop, hpos, List.length_append]
  rw [slice, if_pos ⟨by omega, by omega⟩, List.drop_take, hpos, Nat.add_sub_cancel_left,
    List.take_left]

theorem Reads.textOf (h : Reads w (read ++ after) (some (a, after))) (hne : read ≠ []) :
    Reads (Walk.textOf w) (read ++ after) (some (Token.sourceText read, after)) := by
  intro ts pos hpos hrest
  obtain ⟨next, hrun, hnext, hafter⟩ := (h ts pos hpos hrest).of_some
  have hlength : ts.length - pos = read.length + after.length := by
    rw [← List.length_drop, hrest, List.length_append]
  have hafter' : ts.length - next = after.length := by rw [← List.length_drop, hafter]
  have hread := List.length_pos_iff.2 hne
  obtain ⟨last, rfl⟩ : ∃ last, next = last + 1 := ⟨next - 1, by omega⟩
  have hslice : between pos (last + 1) ts (last + 1) = .ok (some read, last + 1) := by
    rw [between, show last + 1 = pos + read.length by omega, slice_eq hrest hpos]
    rfl
  refine ⟨some (Token.sourceText read), last + 1, ?_, hnext, by rw [hafter]; rfl⟩
  rw [Walk.textOf, run_bind (w := position) rfl, run_bind hrun, run_bind (w := position) rfl,
    run_bind (w := checked _) rfl, run_bind hslice]
  rfl

theorem Reads.textOf_none (h : Reads w rest none) : Reads (Walk.textOf w) rest none := by
  intro ts pos hpos hrest
  obtain ⟨next, hrun, hnext⟩ := (h ts pos hpos hrest).of_none
  exact ⟨none, next, by simp only [Walk.textOf, Bind.bind, position, hrun], hnext, rfl⟩

end Walk

end SqlTables
