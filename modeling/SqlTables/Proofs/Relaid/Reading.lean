import Mathlib.Tactic.SplitIfs
import SqlTables.Declaration.Reference
import SqlTables.Declaration.DefaultValue

/-! Reading tokens laid out anew. Readers look at what tokens are and pass over gaps, lexemes and
places, so all but those that take source text commute with any change of these. -/

namespace SqlTables

namespace Token

variable {f : Token → Token} (hf : ∀ t, (f t).kind = t.kind)

include hf

theorem isKeyword_relaid (t : Token) (w : String) : (f t).isKeyword w = t.isKeyword w := by
  rw [isKeyword, isKeyword, hf]

theorem name?_relaid (t : Token) : (f t).name? = t.name? := by rw [name?, name?, hf]

theorem value?_relaid (t : Token) : (f t).value? = t.value? := by rw [value?, value?, hf]

end Token

namespace Declaration

variable {α β : Type} {f : Token → Token}

def relaidRest (f : Token → Token) (read : α × List Token) : α × List Token :=
  (read.1, read.2.map f)

theorem bind_relaidRest {first : Option (α × List Token)}
    {next : α × List Token → Option (β × List Token)}
    (h : ∀ read, next (relaidRest f read) = (next read).map (relaidRest f)) :
    (first.map (relaidRest f)).bind next = (first.bind next).map (relaidRest f) := by
  cases first with
  | none => rfl
  | some read => exact h read

def Group.relaid (f : Token → Token) (g : Group) : Group :=
  ⟨f g.opening, g.inside.map f, f g.closing⟩

theorem skipCasts?_cons (t : Token) (ts : List Token) : skipCasts? (t :: ts) =
    if t.kind = .doubleColon then (name? ts).bind fun read => skipCasts? (skipGroup read.2)
    else some (t :: ts) := by
  rw [skipCasts?]
  split_ifs
  · split
    · rename_i h
      rw [h, Option.bind_none]
    · rename_i h
      rw [h, Option.bind_some]
  · rfl

theorem referenceOptions?_eq (ts : List Token) : referenceOptions? ts =
    if beginsReferenceOption ts then
      (referenceOption? ts).bind fun read =>
        (referenceOptions? read.2).map fun (os, rest) => (read.1 :: os, rest)
    else some ([], ts) := by
  rw [referenceOptions?]
  split_ifs
  · split
    · rename_i h
      rw [h, Option.bind_none]
    · rename_i h
      rw [h, Option.bind_some]
  · rfl

variable (hf : ∀ t, (f t).kind = t.kind) (ts : List Token)

include hf

theorem take?_relaid :
    take? (ts.map f) = (take? ts).map fun (t, rest) => (f t, rest.map f) := by
  cases ts with
  | nil => rfl
  | cons t ts =>
    by_cases h : t.kind = .eof <;> simp [take?, hf, h]

theorem isDone_relaid : isDone (ts.map f) = isDone ts := by
  rw [isDone, isDone, take?_relaid hf, Option.isNone_map]

theorem peekKeyword_relaid (w : String) : peekKeyword w (ts.map f) = peekKeyword w ts := by
  cases ts with
  | nil => rfl
  | cons t ts => exact Token.isKeyword_relaid hf t w

theorem peekKind_relaid (k : TokenKind) : peekKind k (ts.map f) = peekKind k ts := by
  cases ts with
  | nil => rfl
  | cons t ts => rw [List.map_cons, peekKind, peekKind, hf]

theorem keyword?_relaid (w : String) :
    keyword? w (ts.map f) = (keyword? w ts).map (List.map f) := by
  cases ts with
  | nil => rfl
  | cons t ts =>
    by_cases h : t.isKeyword w = true <;> simp [keyword?, Token.isKeyword_relaid hf, h]

theorem keywords?_relaid (ws : List String) :
    keywords? ws (ts.map f) = (keywords? ws ts).map (List.map f) := by
  induction ws generalizing ts with
  | nil => rfl
  | cons w ws ih =>
    rw [keywords?, keywords?, keyword?_relaid hf]
    cases keyword? w ts with
    | none => rfl
    | some rest => exact ih rest

theorem skipOneOf_relaid (choices : List (List String)) :
    skipOneOf choices (ts.map f) = (skipOneOf choices ts).map f := by
  induction choices with
  | nil => rfl
  | cons ws others ih =>
    rw [skipOneOf, skipOneOf, keywords?_relaid hf]
    cases keywords? ws ts with
    | none => exact ih
    | some rest => rfl

theorem name?_relaid : name? (ts.map f) = (name? ts).map (relaidRest f) := by
  cases ts with
  | nil => rfl
  | cons t ts =>
    rw [List.map_cons, name?, name?, Option.map_map, Token.name?_relaid hf]
    rfl

theorem qualifiedName?_relaid :
    qualifiedName? (ts.map f) = (qualifiedName? ts).map (relaidRest f) := by
  fun_induction qualifiedName? ts with
  | case1 => rfl
  | case2 t =>
    rw [List.map_singleton, qualifiedName?, Option.map_map, Token.name?_relaid hf]
    rfl
  | case3 t d rest hn => simp [qualifiedName?, Token.name?_relaid hf, hn]
  | case4 t d rest name hn hd ih =>
    simpa [qualifiedName?, Token.name?_relaid hf, hf, hn, hd] using ih
  | case5 t d rest name hn hd =>
    simp [qualifiedName?, Token.name?_relaid hf, hf, hn, hd, relaidRest]

theorem string?_relaid : string? (ts.map f) = (string? ts).map (relaidRest f) := by
  cases ts with
  | nil => rfl
  | cons t ts =>
    simp only [string?, List.map_cons, hf]
    split <;> rfl

theorem closeGroup?_relaid (depth : Nat) :
    closeGroup? depth (ts.map f) = (closeGroup? depth ts).map
      fun (inside, t, rest) => (inside.map f, f t, rest.map f) := by
  induction ts generalizing depth with
  | nil => rfl
  | cons t ts ih =>
    simp only [List.map_cons, closeGroup?, hf, ih]
    by_cases he : t.kind = .eof
    · simp [he]
    · by_cases hl : t.kind = .leftParen
      · simp [hl, Function.comp_def]
      · by_cases hr : t.kind = .rightParen
        · cases depth <;> simp [hr, Function.comp_def]
        · simp [he, hl, hr, Function.comp_def]

theorem group?_relaid : group? (ts.map f) =
    (group? ts).map fun (g, rest) => (g.relaid f, rest.map f) := by
  cases ts with
  | nil => rfl
  | cons t ts =>
    by_cases h : t.kind = .leftParen
    · simp [group?, hf, h, closeGroup?_relaid hf, Group.relaid, Function.comp_def]
    · simp [group?, hf, h]

theorem skipGroup_relaid : skipGroup (ts.map f) = (skipGroup ts).map f := by
  rw [skipGroup, skipGroup, group?_relaid hf]
  cases group? ts <;> rfl

theorem splitCommas_relaid (depth : Nat) :
    splitCommas depth (ts.map f) = (splitCommas depth ts).map (List.map f) := by
  induction ts generalizing depth with
  | nil => rfl
  | cons t ts ih =>
    simp only [List.map_cons, splitCommas, hf, ih]
    split_ifs
    · rfl
    · generalize splitCommas _ ts = parts
      cases parts <;> rfl

theorem columnNames?_relaid (inside : List Token) :
    columnNames? (inside.map f) = columnNames? inside := by
  have hpart (part : List Token) : (name? (part.map f)).map (·.1) =
      (name? part).map (·.1) := by
    rw [name?_relaid hf, Option.map_map]
    rfl
  rw [columnNames?, columnNames?, splitCommas_relaid hf]
  induction splitCommas 0 inside with
  | nil => rfl
  | cons part parts ih => rw [List.map_cons, List.mapM_cons, List.mapM_cons, hpart, ih]

theorem skipCasts?_relaid :
    skipCasts? (ts.map f) = (skipCasts? ts).map (List.map f) := by
  fun_induction skipCasts? ts with
  | case1 => rw [List.map_nil, skipCasts?]; rfl
  | case2 t ts ht hn =>
    rw [List.map_cons, skipCasts?_cons, if_pos (by rwa [hf]), name?_relaid hf, hn]
    rfl
  | case3 t ts ht name rest hn ih =>
    rw [List.map_cons, skipCasts?_cons, if_pos (by rwa [hf]), name?_relaid hf, hn,
      Option.map_some, Option.bind_some, relaidRest, skipGroup_relaid hf, ih]
  | case4 t ts ht =>
    rw [List.map_cons, skipCasts?_cons, if_neg (by rwa [hf])]
    rfl

theorem action?_relaid : action? (ts.map f) = (action? ts).map (relaidRest f) := by
  rw [action?, name?_relaid hf]
  refine bind_relaidRest fun read => ?_
  simp only [relaidRest, name?_relaid hf]
  split_ifs
  · cases name? read.2 <;> rfl
  · rfl

theorem skipToken_relaid : skipToken (ts.map f) = (skipToken ts).map f := by
  rw [skipToken, skipToken, take?_relaid hf]
  cases take? ts <;> rfl

theorem beginsReferenceOption_relaid :
    beginsReferenceOption (ts.map f) = beginsReferenceOption ts := by
  simp only [beginsReferenceOption, keywords?_relaid hf, keyword?_relaid hf, Option.isSome_map]

theorem referenceOption?_relaid :
    referenceOption? (ts.map f) = (referenceOption? ts).map (relaidRest f) := by
  rw [referenceOption?, referenceOption?, keywords?_relaid hf, keywords?_relaid hf,
    keyword?_relaid hf]
  cases keywords? ["ON", "DELETE"] ts with
  | some rest =>
    simp only [Option.map_some, action?_relaid hf, Option.map_map]
    rfl
  | none =>
    cases keywords? ["ON", "UPDATE"] ts with
    | some rest =>
      simp only [Option.map_some, Option.map_none, action?_relaid hf, Option.map_map]
      rfl
    | none =>
      cases keyword? "MATCH" ts with
      | some rest => simp [skipToken_relaid hf, relaidRest]
      | none => rfl

theorem referenceOptions?_relaid :
    referenceOptions? (ts.map f) = (referenceOptions? ts).map (relaidRest f) := by
  fun_induction referenceOptions? ts with
  | case1 ts hb ho =>
    rw [referenceOptions?_eq, beginsReferenceOption_relaid hf, if_pos hb,
      referenceOption?_relaid hf, ho]
    rfl
  | case2 ts hb o rest ho ih =>
    rw [referenceOptions?_eq, beginsReferenceOption_relaid hf, if_pos hb,
      referenceOption?_relaid hf, ho, Option.map_some, Option.bind_some, relaidRest, ih,
      Option.map_map, Option.map_map]
    rfl
  | case3 ts hb =>
    rw [referenceOptions?_eq, beginsReferenceOption_relaid hf, if_neg hb]
    rfl

theorem referencedFields?_relaid :
    referencedFields? (ts.map f) = (referencedFields? ts).map (relaidRest f) := by
  rw [referencedFields?, referencedFields?, group?_relaid hf]
  cases group? ts with
  | none => rfl
  | some read =>
    simp only [Option.map_some, Group.relaid, columnNames?_relaid hf, Option.map_map]
    rfl

theorem reference?_relaid : reference? (ts.map f) = (reference? ts).map (relaidRest f) := by
  rw [reference?, reference?, keyword?_relaid hf]
  cases keyword? "REFERENCES" ts with
  | none => rfl
  | some rest =>
    simp only [Option.map_some, Option.bind_eq_bind, Option.bind_some]
    rw [qualifiedName?_relaid hf]
    refine bind_relaidRest fun table => ?_
    rw [relaidRest, referencedFields?_relaid hf]
    refine bind_relaidRest fun fields => ?_
    rw [relaidRest, referenceOptions?_relaid hf]
    exact bind_relaidRest fun options => rfl

end Declaration

end SqlTables
