import SqlTables.Declaration.Reading

/-! Default values. A literal gives its value; a parenthesised expression, a call and a literal with
a prefix such as `b'0'` give their source text. Casts after the value are passed over. -/

namespace SqlTables.Declaration

def call? : List Token → Option (String × List Token)
  | [] => none
  | t :: rest => do
    let _ ← t.name?
    if peekKind .leftParen rest then
      let (g, rest) ← group? rest
      return (Token.sourceText (t :: g.opening :: g.inside ++ [g.closing]), rest)
    return (t.lexeme, rest)

/-- A word that touches the string after it, both as written. -/
def prefixedLiteral? : List Token → Option (String × List Token)
  | t :: u :: rest =>
    match t.kind, u.kind with
    | .word _, .string _ => if u.gap = "" then some (t.lexeme ++ u.lexeme, rest) else none
    | _, _ => none
  | _ => none

def bareDefault? (ts : List Token) : Option (String × List Token) :=
  match ts with
  | [] => none
  | t :: rest =>
    match t.kind with
    | .string value | .quotedName value | .number value => some (value, rest)
    | .leftParen => (group? ts).map fun (g, rest) => (g.text, rest)
    | .word _ => (prefixedLiteral? ts).or (call? ts)
    | _ => none

theorem call?_consumes {ts rest : List Token} {text : String} (h : call? ts = some (text, rest)) :
    Consumes ts rest := by
  unfold call? at h
  split at h
  · simp at h
  · obtain ⟨n, hn, h⟩ := Option.bind_eq_some_iff.1 h
    refine .head (ne_eof_of_name? hn) ?_
    simp only at h
    split at h
    · obtain ⟨⟨g, r⟩, hg, h⟩ := Option.bind_eq_some_iff.1 h
      cases h
      exact (group?_consumes hg).skips
    · cases h
      exact .refl _

theorem prefixedLiteral?_consumes {ts rest : List Token} {text : String}
    (h : prefixedLiteral? ts = some (text, rest)) : Consumes ts rest := by
  unfold prefixedLiteral? at h
  split at h
  · split at h
    · rename_i ht hu
      split at h
      · cases h
        exact .head (by simp [ht]) (Consumes.head (by simp [hu]) (.refl _)).skips
      · simp at h
    · simp at h
  · simp at h

theorem bareDefault?_consumes {ts rest : List Token} {value : String}
    (h : bareDefault? ts = some (value, rest)) : Consumes ts rest := by
  unfold bareDefault? at h
  split at h
  · simp at h
  · split at h
    case h_4 =>
      obtain ⟨⟨g, r⟩, hg, he⟩ := Option.map_eq_some_iff.1 h
      cases he
      exact group?_consumes hg
    case h_5 =>
      rcases Option.or_eq_some_iff.1 h with h | ⟨-, h⟩
      · exact prefixedLiteral?_consumes h
      · exact call?_consumes h
    case h_6 => simp at h
    all_goals
      rename_i hk
      cases h
      exact .head (by simp [hk]) (.refl _)

/-- Passes over casts such as `::character varying`; each needs a type name. -/
def skipCasts? (ts : List Token) : Option (List Token) :=
  match ts with
  | [] => some []
  | t :: rest =>
    if t.kind = .doubleColon then
      match _h : name? rest with
      | none => none
      | some (_, rest') => skipCasts? (skipGroup rest')
    else some (t :: rest)
termination_by ts.length
decreasing_by
  have h1 := (name?_consumes _h).length_lt
  have h2 := (skipGroup_skips rest').length_le
  simp only [List.length_cons]
  omega

theorem skipCasts?_skips {ts rest : List Token} (h : skipCasts? ts = some rest) :
    Skips ts rest := by
  fun_induction skipCasts? ts with
  | case1 =>
    cases h
    exact .refl _
  | case2 => simp at h
  | case3 t tail ht name r hn ih =>
    exact (Consumes.head (by simp [ht])
      ((name?_consumes hn).skips.trans ((skipGroup_skips r).trans (ih h)))).skips
  | case4 =>
    cases h
    exact .refl _

def defaultValue? (ts : List Token) : Option (String × List Token) := do
  let (value, rest) ← bareDefault? ts
  let rest ← skipCasts? rest
  return (value, rest)

theorem defaultValue?_consumes {ts rest : List Token} {value : String}
    (h : defaultValue? ts = some (value, rest)) : Consumes ts rest := by
  obtain ⟨⟨v, r⟩, hv, h⟩ := Option.bind_eq_some_iff.1 h
  obtain ⟨r', hr, h⟩ := Option.bind_eq_some_iff.1 h
  cases h
  exact (bareDefault?_consumes hv).trans_skips (skipCasts?_skips hr)

end SqlTables.Declaration
