/-! Quoted literals. A quote inside a literal is written twice; where the literal knows escapes, a
backslash also takes the next character along. -/

namespace SqlTables.Source

def isQuote (c : Char) : Bool := c = '\x27' || c = '\x22' || c = '\x60'

/-- What a character inside a literal does: it stands alone, goes together with the next one, or
closes the literal. -/
inductive LiteralStep where
  | single | pair | close
deriving Repr, DecidableEq

def literalStep (escapes : Bool) (quote c : Char) (next : Option Char) : LiteralStep :=
  if escapes && c = '\\' then .pair
  else if c = quote then if next = some quote then .pair else .close
  else .single

/-- The inside of the literal whose opening quote was just passed, as written, and the text after
its closing quote. -/
def closing? (escapes : Bool) (quote : Char) : List Char → Option (List Char × List Char)
  | [] => none
  | [c] => if literalStep escapes quote c none = .close then some ([], []) else none
  | c :: d :: rest =>
    match literalStep escapes quote c (some d) with
    | .close => some ([], d :: rest)
    | .pair => (closing? escapes quote rest).map fun (inside, after) => (c :: d :: inside, after)
    | .single =>
      (closing? escapes quote (d :: rest)).map fun (inside, after) => (c :: inside, after)

theorem eq_of_literalStep_close {escapes : Bool} {quote c : Char} {next : Option Char}
    (h : literalStep escapes quote c next = .close) : c = quote := by
  unfold literalStep at h
  grind

theorem eq_append_of_closing? {escapes : Bool} {quote : Char} {cs inside rest : List Char}
    (h : closing? escapes quote cs = some (inside, rest)) : cs = inside ++ quote :: rest := by
  fun_induction closing? escapes quote cs generalizing inside rest with
  | case1 => simp at h
  | case2 c hc =>
    simp only [Option.some.injEq, Prod.mk.injEq] at h
    obtain ⟨rfl, rfl⟩ := h
    simp [eq_of_literalStep_close hc]
  | case3 => simp at h
  | case4 c d tail hs =>
    simp only [Option.some.injEq, Prod.mk.injEq] at h
    obtain ⟨rfl, rfl⟩ := h
    simp [eq_of_literalStep_close hs]
  | case5 c d tail hs ih =>
    obtain ⟨⟨i, r⟩, hi, he⟩ := Option.map_eq_some_iff.1 h
    simp only [Prod.mk.injEq] at he
    obtain ⟨rfl, rfl⟩ := he
    simp [ih hi]
  | case6 c d tail hs ih =>
    obtain ⟨⟨i, r⟩, hi, he⟩ := Option.map_eq_some_iff.1 h
    simp only [Prod.mk.injEq] at he
    obtain ⟨rfl, rfl⟩ := he
    simp [ih hi]

end SqlTables.Source
