import SqlTables.Declaration.Reading
import SqlTables.Text.UpperCase

/-! References to another table: `REFERENCES t [(columns)]`, then actions and match rules in any
order. Of two actions for the same event the later one counts. -/

namespace SqlTables.Declaration

structure Reference where
  table : String
  fields : List String
  onDelete : Option String := none
  onUpdate : Option String := none
deriving Repr, DecidableEq

inductive ReferenceOption where
  | onDelete (action : String)
  | onUpdate (action : String)
  | matchRule
deriving Repr, DecidableEq

def ReferenceOption.apply (r : Reference) : ReferenceOption → Reference
  | .onDelete action => { r with onDelete := some action }
  | .onUpdate action => { r with onUpdate := some action }
  | .matchRule => r

/-- An action in upper case; `SET` and `NO` take a second word. -/
def action? (ts : List Token) : Option (String × List Token) := do
  let (first, rest) ← name? ts
  let first := Text.upperCase first
  if first = "SET" ∨ first = "NO" then
    let (second, rest) ← name? rest
    return (first ++ " " ++ Text.upperCase second, rest)
  return (first, rest)

def skipToken (ts : List Token) : List Token :=
  match take? ts with
  | some (_, rest) => rest
  | none => ts

def beginsReferenceOption (ts : List Token) : Bool :=
  (keywords? ["ON", "DELETE"] ts).isSome || (keywords? ["ON", "UPDATE"] ts).isSome ||
    (keyword? "MATCH" ts).isSome

def referenceOption? (ts : List Token) : Option (ReferenceOption × List Token) :=
  match keywords? ["ON", "DELETE"] ts with
  | some rest => (action? rest).map fun (action, rest) => (.onDelete action, rest)
  | none =>
    match keywords? ["ON", "UPDATE"] ts with
    | some rest => (action? rest).map fun (action, rest) => (.onUpdate action, rest)
    | none => (keyword? "MATCH" ts).map fun rest => (.matchRule, skipToken rest)

theorem action?_consumes {ts rest : List Token} {action : String}
    (h : action? ts = some (action, rest)) : Consumes ts rest := by
  obtain ⟨⟨first, r⟩, hn, h⟩ := Option.bind_eq_some_iff.1 h
  refine (name?_consumes hn).trans_skips ?_
  simp only at h
  split at h
  · obtain ⟨⟨second, r'⟩, hs, h⟩ := Option.bind_eq_some_iff.1 h
    cases h
    exact (name?_consumes hs).skips
  · cases h
    exact .refl _

theorem skipToken_skips (ts : List Token) : Skips ts (skipToken ts) := by
  unfold skipToken
  split
  · exact (take?_consumes ‹_›).skips
  · exact .refl _

theorem referenceOption?_consumes {ts rest : List Token} {o : ReferenceOption}
    (h : referenceOption? ts = some (o, rest)) : Consumes ts rest := by
  unfold referenceOption? at h
  split at h
  · rename_i hk
    obtain ⟨⟨a, r⟩, ha, he⟩ := Option.map_eq_some_iff.1 h
    cases he
    exact (keywords?_consumes hk).trans (action?_consumes ha)
  · split at h
    · rename_i hk
      obtain ⟨⟨a, r⟩, ha, he⟩ := Option.map_eq_some_iff.1 h
      cases he
      exact (keywords?_consumes hk).trans (action?_consumes ha)
    · obtain ⟨r, hr, he⟩ := Option.map_eq_some_iff.1 h
      cases he
      exact (keyword?_consumes hr).trans_skips (skipToken_skips r)

def referenceOptions? (ts : List Token) : Option (List ReferenceOption × List Token) :=
  if beginsReferenceOption ts then
    match _h : referenceOption? ts with
    | none => none
    | some (o, rest) => (referenceOptions? rest).map fun (os, rest) => (o :: os, rest)
  else some ([], ts)
termination_by ts.length
decreasing_by exact (referenceOption?_consumes _h).length_lt

def referencedFields? (ts : List Token) : Option (List String × List Token) :=
  match group? ts with
  | some (g, rest) => (columnNames? g.inside).map (·, rest)
  | none => some ([], ts)

def reference? (ts : List Token) : Option (Reference × List Token) := do
  let rest ← keyword? "REFERENCES" ts
  let (table, rest) ← qualifiedName? rest
  let (fields, rest) ← referencedFields? rest
  let (options, rest) ← referenceOptions? rest
  return (options.foldl ReferenceOption.apply ⟨table, fields, none, none⟩, rest)

theorem referenceOptions?_skips {ts rest : List Token} {os : List ReferenceOption}
    (h : referenceOptions? ts = some (os, rest)) : Skips ts rest := by
  fun_induction referenceOptions? ts generalizing os rest with
  | case1 => simp at h
  | case2 ts _ o r ho ih =>
    obtain ⟨⟨os', r'⟩, hr, he⟩ := Option.map_eq_some_iff.1 h
    cases he
    exact (referenceOption?_consumes ho).skips.trans (ih hr)
  | case3 =>
    cases h
    exact .refl _

theorem referencedFields?_skips {ts rest : List Token} {fields : List String}
    (h : referencedFields? ts = some (fields, rest)) : Skips ts rest := by
  unfold referencedFields? at h
  split at h
  · rename_i hg
    obtain ⟨names, -, he⟩ := Option.map_eq_some_iff.1 h
    cases he
    exact (group?_consumes hg).skips
  · cases h
    exact .refl _

theorem reference?_consumes {ts rest : List Token} {r : Reference}
    (h : reference? ts = some (r, rest)) : Consumes ts rest := by
  obtain ⟨r1, h1, h⟩ := Option.bind_eq_some_iff.1 h
  obtain ⟨⟨table, r2⟩, h2, h⟩ := Option.bind_eq_some_iff.1 h
  obtain ⟨⟨fields, r3⟩, h3, h⟩ := Option.bind_eq_some_iff.1 h
  obtain ⟨⟨os, r4⟩, h4, h⟩ := Option.bind_eq_some_iff.1 h
  cases h
  exact (keyword?_consumes h1).trans ((qualifiedName?_consumes h2).trans_skips
    ((referencedFields?_skips h3).trans (referenceOptions?_skips h4)))

end SqlTables.Declaration
