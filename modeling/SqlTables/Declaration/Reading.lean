import SqlTables.Token.Basic

/-! Reading a definition from its tokens. A reader answers with what it read and the tokens after
it; the end token is never read past. `Consumes ts rest` says that at least one token was read. -/

namespace SqlTables.Declaration

/-- `rest` follows some tokens of `ts`, none of them the end. -/
def Skips (ts rest : List Token) : Prop := ∃ read, (∀ t ∈ read, t.kind ≠ .eof) ∧ ts = read ++ rest

def Consumes (ts rest : List Token) : Prop :=
  ∃ t ts', ts = t :: ts' ∧ t.kind ≠ .eof ∧ Skips ts' rest

theorem Skips.refl (ts : List Token) : Skips ts ts := ⟨[], by simp, rfl⟩

theorem Skips.trans {a b c : List Token} (h : Skips a b) (k : Skips b c) : Skips a c := by
  obtain ⟨r, hr, rfl⟩ := h
  obtain ⟨s, hs, rfl⟩ := k
  exact ⟨r ++ s, by simpa [or_imp, forall_and] using ⟨hr, hs⟩, by simp⟩

theorem Consumes.skips {a b : List Token} (h : Consumes a b) : Skips a b := by
  obtain ⟨t, ts, rfl, ht, r, hr, rfl⟩ := h
  exact ⟨t :: r, by simpa using ⟨ht, hr⟩, rfl⟩

theorem Consumes.head {t : Token} {ts rest : List Token} (ht : t.kind ≠ .eof)
    (h : Skips ts rest) : Consumes (t :: ts) rest := ⟨t, ts, rfl, ht, h⟩

theorem Consumes.trans_skips {a b c : List Token} (h : Consumes a b) (k : Skips b c) :
    Consumes a c := by
  obtain ⟨t, ts, rfl, ht, h⟩ := h
  exact .head ht (h.trans k)

theorem Consumes.trans {a b c : List Token} (h : Consumes a b) (k : Consumes b c) :
    Consumes a c := h.trans_skips k.skips

theorem Skips.length_le {a b : List Token} (h : Skips a b) : b.length ≤ a.length := by
  obtain ⟨r, -, rfl⟩ := h
  simp

theorem Consumes.length_lt {a b : List Token} (h : Consumes a b) : b.length < a.length := by
  obtain ⟨t, ts, rfl, -, h⟩ := h
  exact Nat.lt_succ_of_le h.length_le

def take? : List Token → Option (Token × List Token)
  | [] => none
  | t :: rest => if t.kind = .eof then none else some (t, rest)

def isDone (ts : List Token) : Bool := (take? ts).isNone

def peekKeyword (w : String) : List Token → Bool
  | [] => false
  | t :: _ => t.isKeyword w

def peekKind (k : TokenKind) : List Token → Bool
  | [] => false
  | t :: _ => t.kind == k

def keyword? (w : String) : List Token → Option (List Token)
  | [] => none
  | t :: rest => if t.isKeyword w then some rest else none

def keywords? : List String → List Token → Option (List Token)
  | [], ts => some ts
  | w :: ws, ts => (keyword? w ts).bind (keywords? ws)

def skipOneOf : List (List String) → List Token → List Token
  | [], ts => ts
  | ws :: others, ts =>
    match keywords? ws ts with
    | some rest => rest
    | none => skipOneOf others ts

def name? : List Token → Option (String × List Token)
  | [] => none
  | t :: rest => t.name?.map (·, rest)

/-- A name, of which only the part after the last dot counts. -/
def qualifiedName? : List Token → Option (String × List Token)
  | [] => none
  | [t] => t.name?.map (·, [])
  | t :: d :: rest =>
    match t.name? with
    | none => none
    | some name => if d.kind = .dot then qualifiedName? rest else some (name, d :: rest)

def string? : List Token → Option (String × List Token)
  | [] => none
  | t :: rest =>
    match t.kind with
    | .string value => some (value, rest)
    | _ => none

structure Group where
  opening : Token
  inside : List Token
  closing : Token
deriving Repr, DecidableEq

def Group.text (g : Group) : String := Token.sourceText (g.opening :: g.inside ++ [g.closing])

/-- The tokens up to the parenthesis that closes a group, `depth` groups inside it being open. -/
def closeGroup? (depth : Nat) : List Token → Option (List Token × Token × List Token)
  | [] => none
  | t :: rest =>
    if t.kind = .eof then none
    else if t.kind = .leftParen then
      (closeGroup? (depth + 1) rest).map fun (inside, after) => (t :: inside, after)
    else if t.kind = .rightParen then
      match depth with
      | 0 => some ([], t, rest)
      | depth + 1 => (closeGroup? depth rest).map fun (inside, after) => (t :: inside, after)
    else (closeGroup? depth rest).map fun (inside, after) => (t :: inside, after)

def group? : List Token → Option (Group × List Token)
  | [] => none
  | t :: rest =>
    if t.kind = .leftParen then
      (closeGroup? 0 rest).map fun (inside, closing, after) => (⟨t, inside, closing⟩, after)
    else none

def skipGroup (ts : List Token) : List Token :=
  match group? ts with
  | some (_, rest) => rest
  | none => ts

/-- The parts between the commas outside parentheses, `depth` of which are open. -/
def splitCommas (depth : Nat) : List Token → List (List Token)
  | [] => [[]]
  | t :: rest =>
    if t.kind = .comma ∧ depth = 0 then [] :: splitCommas depth rest
    else
      let depth :=
        match t.kind with
        | .leftParen => depth + 1
        | .rightParen => depth - 1
        | _ => depth
      match splitCommas depth rest with
      | part :: parts => (t :: part) :: parts
      | [] => [[t]]

/-- The names that begin the parts of a list such as `(a, b(10), c DESC)`. -/
def columnNames? (inside : List Token) : Option (List String) :=
  (splitCommas 0 inside).mapM fun part => (name? part).map (·.1)

theorem take?_consumes {ts rest : List Token} {t : Token} (h : take? ts = some (t, rest)) :
    Consumes ts rest := by
  unfold take? at h
  split at h
  · simp at h
  · split at h
    · simp at h
    · rename_i ht
      simp only [Option.some.injEq, Prod.mk.injEq] at h
      obtain ⟨rfl, rfl⟩ := h
      exact .head ht (.refl _)

theorem ne_eof_of_isKeyword {t : Token} {w : String} (h : t.isKeyword w = true) :
    t.kind ≠ .eof := by
  intro he
  simp [Token.isKeyword, he] at h

theorem ne_eof_of_name? {t : Token} {name : String} (h : t.name? = some name) : t.kind ≠ .eof := by
  intro he
  simp [Token.name?, he] at h

theorem keyword?_consumes {w : String} {ts rest : List Token} (h : keyword? w ts = some rest) :
    Consumes ts rest := by
  unfold keyword? at h
  split at h
  · simp at h
  · split at h
    · rename_i ht
      simp only [Option.some.injEq] at h
      subst h
      exact .head (ne_eof_of_isKeyword ht) (.refl _)
    · simp at h

theorem keywords?_skips {ws : List String} {ts rest : List Token}
    (h : keywords? ws ts = some rest) : Skips ts rest := by
  induction ws generalizing ts with
  | nil =>
    simp only [keywords?, Option.some.injEq] at h
    exact h ▸ .refl _
  | cons w ws ih =>
    obtain ⟨r, hr, h⟩ := Option.bind_eq_some_iff.1 h
    exact (keyword?_consumes hr).skips.trans (ih h)

theorem keywords?_consumes {w : String} {ws : List String} {ts rest : List Token}
    (h : keywords? (w :: ws) ts = some rest) : Consumes ts rest := by
  obtain ⟨r, hr, h⟩ := Option.bind_eq_some_iff.1 h
  exact (keyword?_consumes hr).trans_skips (keywords?_skips h)

theorem skipOneOf_skips (choices : List (List String)) (ts : List Token) :
    Skips ts (skipOneOf choices ts) := by
  induction choices with
  | nil => exact .refl _
  | cons ws others ih =>
    unfold skipOneOf
    split
    · exact keywords?_skips ‹_›
    · exact ih

theorem name?_consumes {ts rest : List Token} {name : String} (h : name? ts = some (name, rest)) :
    Consumes ts rest := by
  unfold name? at h
  split at h
  · simp at h
  · obtain ⟨n, hn, he⟩ := Option.map_eq_some_iff.1 h
    simp only [Prod.mk.injEq] at he
    obtain ⟨rfl, rfl⟩ := he
    exact .head (ne_eof_of_name? hn) (.refl _)

theorem qualifiedName?_consumes {ts rest : List Token} {name : String}
    (h : qualifiedName? ts = some (name, rest)) : Consumes ts rest := by
  fun_induction qualifiedName? ts generalizing name rest with
  | case1 => simp at h
  | case2 t =>
    obtain ⟨n, hn, he⟩ := Option.map_eq_some_iff.1 h
    simp only [Prod.mk.injEq] at he
    obtain ⟨rfl, rfl⟩ := he
    exact .head (ne_eof_of_name? hn) (.refl _)
  | case3 => simp at h
  | case4 t d tail n hn hd ih =>
    have hd' : d.kind ≠ .eof := by simp [hd]
    exact .head (ne_eof_of_name? hn) (Consumes.head hd' (ih h).skips).skips
  | case5 t d tail n hn hd =>
    simp only [Option.some.injEq, Prod.mk.injEq] at h
    obtain ⟨rfl, rfl⟩ := h
    exact .head (ne_eof_of_name? hn) (.refl _)

theorem string?_consumes {ts rest : List Token} {value : String}
    (h : string? ts = some (value, rest)) : Consumes ts rest := by
  unfold string? at h
  split at h
  · simp at h
  · split at h
    · rename_i hk
      simp only [Option.some.injEq, Prod.mk.injEq] at h
      obtain ⟨rfl, rfl⟩ := h
      exact .head (by simp [hk]) (.refl _)
    · simp at h

theorem closeGroup?_cons_cases {depth : Nat} {t : Token} {ts inside rest : List Token}
    {closing : Token} (h : closeGroup? depth (t :: ts) = some (inside, closing, rest)) :
    t.kind ≠ .eof ∧
      ((inside = [] ∧ ∀ us, closeGroup? depth (t :: us) = some ([], t, us)) ∨
        ∃ depth' inside', inside = t :: inside' ∧
          closeGroup? depth' ts = some (inside', closing, rest) ∧
          ∀ us, closeGroup? depth (t :: us) =
            (closeGroup? depth' us).map fun found => (t :: found.1, found.2)) := by
  have hinner {depth' : Nat}
      (hmap : (closeGroup? depth' ts).map (fun found => (t :: found.1, found.2)) =
        some (inside, closing, rest)) :
      ∃ inside', inside = t :: inside' ∧
        closeGroup? depth' ts = some (inside', closing, rest) := by
    obtain ⟨⟨i, c, r⟩, hi, he⟩ := Option.map_eq_some_iff.1 hmap
    cases he
    exact ⟨i, rfl, hi⟩
  unfold closeGroup? at h
  split at h
  · simp at h
  · rename_i heof
    refine ⟨heof, ?_⟩
    split at h
    · rename_i hleft
      obtain ⟨i, hi, hts⟩ := hinner h
      exact .inr ⟨depth + 1, i, hi, hts, fun us => by simp [closeGroup?, hleft]⟩
    · rename_i hleft
      split at h
      · rename_i hright
        split at h
        · cases h
          exact .inl ⟨rfl, fun us => by simp [closeGroup?, hright]⟩
        · obtain ⟨i, hi, hts⟩ := hinner h
          exact .inr ⟨_, i, hi, hts, fun us => by simp [closeGroup?, hright]⟩
      · rename_i hright
        obtain ⟨i, hi, hts⟩ := hinner h
        exact .inr ⟨depth, i, hi, hts, fun us => by simp [closeGroup?, heof, hleft, hright]⟩

theorem closeGroup?_consumes {depth : Nat} {ts inside rest : List Token} {closing : Token}
    (h : closeGroup? depth ts = some (inside, closing, rest)) : Consumes ts rest := by
  induction ts generalizing depth inside with
  | nil => simp [closeGroup?] at h
  | cons t ts ih =>
    obtain ⟨ht, ⟨rfl, hclose⟩ | ⟨depth', inside', rfl, hts, -⟩⟩ := closeGroup?_cons_cases h
    · rw [hclose] at h
      cases h
      exact .head ht (.refl _)
    · exact .head ht (ih hts).skips

theorem group?_eq_some_iff {ts rest : List Token} {g : Group} :
    group? ts = some (g, rest) ↔
      ∃ us, ts = g.opening :: us ∧ g.opening.kind = .leftParen ∧
        closeGroup? 0 us = some (g.inside, g.closing, rest) := by
  constructor
  · intro h
    unfold group? at h
    split at h
    · simp at h
    · split at h
      · rename_i us hk
        obtain ⟨⟨i, c, r⟩, hi, he⟩ := Option.map_eq_some_iff.1 h
        cases he
        exact ⟨us, rfl, hk, hi⟩
      · simp at h
  · rintro ⟨us, rfl, hk, hi⟩
    simp [group?, hk, hi]

theorem group?_consumes {ts rest : List Token} {g : Group} (h : group? ts = some (g, rest)) :
    Consumes ts rest := by
  obtain ⟨us, rfl, hk, hi⟩ := group?_eq_some_iff.1 h
  exact .head (by simp [hk]) (closeGroup?_consumes hi).skips

theorem skipGroup_skips (ts : List Token) : Skips ts (skipGroup ts) := by
  unfold skipGroup
  split
  · exact (group?_consumes ‹_›).skips
  · exact .refl _

end SqlTables.Declaration
