import SqlTables.Declaration.Clause
import SqlTables.Declaration.Setting
import SqlTables.Proofs.Relaid.Reading

/-! Keys, types and settings laid out anew. -/

namespace SqlTables.Declaration

theorem Attribute.readAll_eq (ts : List Token) : readAll ts =
    if isDone ts then ([], true)
    else
      match read? ts with
      | none => ([], false)
      | some (a, rest) => (a :: (readAll rest).1, (readAll rest).2) := by
  rw [readAll]
  split_ifs
  · rfl
  · split
    · rename_i h
      rw [h]
    · rename_i h
      rw [h]

theorem Setting.readAll_cons (ts : List Token) (t : Token) : readAll (t :: ts) =
    if t.kind = .semicolon ∨ t.kind = .eof then []
    else
      match keyword? (t :: ts) with
      | some (make, after) => ((value after).1.bind make).toList ++ readAll (value after).2
      | none => readAll ts := by
  rw [readAll]
  split_ifs
  · rfl
  · split
    · rename_i h
      rw [h]
    · rename_i h
      rw [h]

def Item.relaid (f : Token → Token) (i : Item) : Item := ⟨i.tokens.map f, f i.stop⟩

variable {f : Token → Token} (hf : ∀ t, (f t).kind = t.kind) (ts : List Token)

include hf

namespace Attribute

theorem flag?_relaid : flag? (ts.map f) = (flag? ts).map (relaidRest f) := by
  rw [flag?, flag?, List.map_findSome?]
  congr 1
  funext k
  simp only [keywords?_relaid hf, Function.comp_apply, Option.map_map]
  rfl

theorem skipGeneration_relaid : skipGeneration (ts.map f) = (skipGeneration ts).map f := by
  rw [skipGeneration, skipGeneration, skipOneOf_relaid hf, skipOneOf_relaid hf]

theorem generated_relaid : generated (ts.map f) = relaidRest f (generated ts) := by
  rw [generated, generated, skipGeneration_relaid hf, keyword?_relaid hf]
  cases keyword? "IDENTITY" (skipGeneration ts) with
  | none => rfl
  | some rest =>
    simp only [Option.map_some, skipGroup_relaid hf]
    rfl

theorem charset?_relaid : charset? (ts.map f) = (charset? ts).map (List.map f) := by
  rw [charset?, charset?, List.map_findSome?]
  congr 1
  funext k
  exact keywords?_relaid hf ts (k.1 :: k.2)

end Attribute

theorem TypeParameter.read_relaid (part : List Token) :
    TypeParameter.read (part.map f) = TypeParameter.read part := by
  cases part with
  | nil => rfl
  | cons t part => rw [List.map_cons, TypeParameter.read, TypeParameter.read, hf]

namespace DeclaredType

theorem findSome?_longNames_relaid (name : String) :
    (longNames.findSome? fun (first, second, both) =>
      if name = first then (keyword? second (ts.map f)).map (both, ·) else none) =
    (longNames.findSome? fun (first, second, both) =>
      if name = first then (keyword? second ts).map (both, ·) else none).map (relaidRest f) := by
  rw [List.map_findSome?]
  congr 1
  funext w
  simp only [keyword?_relaid hf, Function.comp_apply, Option.map_map]
  split_ifs
  · rw [Option.map_map]
    rfl
  · rfl

theorem name?_relaid : name? (ts.map f) = (name? ts).map (relaidRest f) := by
  rw [name?, name?, take?_relaid hf]
  cases take? ts with
  | none => rfl
  | some read =>
    simp only [Option.map_some, Option.bind_eq_bind, Option.bind_some, hf,
      findSome?_longNames_relaid hf]
    split
    · rename_i text _
      generalize List.findSome? _ longNames = long
      cases long <;> rfl
    · rfl

theorem readParameters_relaid :
    readParameters (ts.map f) = relaidRest f (readParameters ts) := by
  rw [readParameters, readParameters, group?_relaid hf]
  cases group? ts with
  | none => rfl
  | some read =>
    simp only [Option.map_some, Group.relaid, splitCommas_relaid hf, List.map_map,
      Function.comp_def, TypeParameter.read_relaid hf]
    rfl

theorem skipZone_relaid (name : String) :
    skipZone name (ts.map f) = (skipZone name ts).map f := by
  rw [skipZone, skipZone, skipOneOf_relaid hf]
  split_ifs <;> rfl

theorem read?_relaid : read? (ts.map f) = (read? ts).map (relaidRest f) := by
  rw [read?, read?, name?_relaid hf]
  refine bind_relaidRest fun read => ?_
  simp only [relaidRest, readParameters_relaid hf, skipZone_relaid hf]
  split <;> rfl

end DeclaredType

theorem items?_relaid (depth : Nat) : items? depth (ts.map f) =
    (items? depth ts).map fun (items, rest) => (items.map (.relaid f), rest.map f) := by
  induction ts generalizing depth with
  | nil => rfl
  | cons t ts ih =>
    rw [List.map_cons, items?, items?]
    simp only [hf, ih]
    by_cases he : t.kind = .eof ∨ t.kind = .semicolon
    · simp [he]
    by_cases hclose : depth = 0 ∧ t.kind = .rightParen
    · simp [hclose, Item.relaid]
    by_cases hcomma : depth = 0 ∧ t.kind = .comma
    · simp [hcomma, Item.relaid, Function.comp_def]
    rw [if_neg he, if_neg hclose, if_neg hcomma, if_neg he, if_neg hclose, if_neg hcomma]
    generalize items? _ ts = found
    match found with
    | none | some ([], _) | some (_ :: _, _) => rfl

namespace Clause

theorem constraintName?_relaid :
    constraintName? (ts.map f) = (constraintName? ts).map (relaidRest f) := by
  rw [constraintName?, constraintName?, keyword?_relaid hf]
  cases keyword? "CONSTRAINT" ts with
  | none => rfl
  | some rest =>
    simp only [Option.map_some, peekKeyword_relaid hf, name?_relaid hf, Option.map_map]
    split_ifs
    · rfl
    · rw [Option.map_map]
      rfl

theorem skipMethod_relaid : skipMethod (ts.map f) = (skipMethod ts).map f := by
  rw [skipMethod, skipMethod, keyword?_relaid hf]
  cases keyword? "USING" ts with
  | none => rfl
  | some rest => exact skipToken_relaid hf rest

theorem columns?_relaid : columns? (ts.map f) = (columns? ts).map (relaidRest f) := by
  rw [columns?, columns?, group?_relaid hf]
  cases group? ts with
  | none => rfl
  | some read =>
    simp only [Option.map_some, Option.bind_eq_bind, Option.bind_some, Group.relaid,
      columnNames?_relaid hf]
    cases columnNames? read.1.inside <;> rfl

theorem findSome?_kinds_relaid (kinds : List (String × IndexKind)) :
    (kinds.findSome? fun (w, kind) => (keyword? w (ts.map f)).map (kind, ·)) =
      (kinds.findSome? fun (w, kind) => (keyword? w ts).map (kind, ·)).map (relaidRest f) := by
  rw [List.map_findSome?]
  congr 1
  funext k
  simp only [keyword?_relaid hf, Function.comp_apply, Option.map_map]
  rfl

theorem indexKind?_relaid : indexKind? (ts.map f) = (indexKind? ts).map (relaidRest f) := by
  unfold indexKind?
  simp only [findSome?_kinds_relaid hf, peekKeyword_relaid hf, skipOneOf_relaid hf]
  generalize List.findSome? _ _ = found
  cases found with
  | some read =>
    simp only [Option.map_some, relaidRest, skipOneOf_relaid hf]
  | none =>
    simp only [Option.map_none]
    split_ifs <;> rfl

theorem indexName?_relaid : indexName? (ts.map f) = (indexName? ts).map (relaidRest f) := by
  rw [indexName?, indexName?, isDone_relaid hf, peekKind_relaid hf, peekKeyword_relaid hf,
    name?_relaid hf, Option.map_map]
  split_ifs
  · rfl
  · rw [Option.map_map]
    rfl

theorem index?_relaid (kind : IndexKind) (constraint : Option String) :
    index? kind constraint (ts.map f) = index? kind constraint ts := by
  rw [index?, index?, indexName?_relaid hf]
  cases indexName? ts with
  | none => rfl
  | some read =>
    simp only [Option.map_some, Option.bind_eq_bind, Option.bind_some, relaidRest,
      skipMethod_relaid hf, columns?_relaid hf]
    cases columns? (skipMethod read.2) <;> rfl

theorem columns?_bind_reference?_relaid (name : Option String) :
    ((columns? (ts.map f)).bind fun (columns, rest) =>
      (reference? rest).bind fun (target, _) => some (foreignKey name columns target)) =
    ((columns? ts).bind fun (columns, rest) =>
      (reference? rest).bind fun (target, _) => some (foreignKey name columns target)) := by
  rw [columns?_relaid hf]
  cases columns? ts with
  | none => rfl
  | some read =>
    simp only [Option.map_some, Option.bind_some, relaidRest, reference?_relaid hf]
    cases reference? read.2 <;> rfl

theorem foreignKey?_relaid (constraint : Option String) :
    foreignKey? constraint (ts.map f) = foreignKey? constraint ts := by
  unfold foreignKey?
  rw [peekKind_relaid hf]
  split_ifs
  · exact columns?_bind_reference?_relaid hf ts (constraint.or none)
  · rw [name?_relaid hf]
    cases name? ts with
    | none => rfl
    | some read => exact columns?_bind_reference?_relaid hf read.2 (constraint.or (some read.1))

end Clause

namespace Setting

theorem keyword?_relaid : keyword? (ts.map f) = (keyword? ts).map (relaidRest f) := by
  rw [keyword?, keyword?, List.map_findSome?]
  congr 1
  funext k
  simp only [keywords?_relaid hf, Function.comp_apply, Option.map_map]
  rfl

theorem skipEquals_relaid : skipEquals (ts.map f) = (skipEquals ts).map f := by
  cases ts with
  | nil => rfl
  | cons t ts => by_cases h : t.kind = .equals <;> simp [skipEquals, hf, h]

theorem value_relaid : value (ts.map f) = relaidRest f (value ts) := by
  rw [value, value, skipEquals_relaid hf]
  cases skipEquals ts with
  | nil => rfl
  | cons t ts =>
    simp only [List.map_cons, Token.value?_relaid hf]
    split <;> rfl

theorem readAll_relaid : readAll (ts.map f) = readAll ts := by
  fun_induction readAll ts with
  | case1 => rw [List.map_nil, readAll]
  | case2 t ts ht => rw [List.map_cons, readAll_cons, if_pos (by rwa [hf])]
  | case3 t ts ht make after hk found ih =>
    have hkeyword := keyword?_relaid hf (t :: ts)
    rw [hk, List.map_cons] at hkeyword
    rw [List.map_cons, readAll_cons, if_neg (by rwa [hf]), hkeyword]
    simp only [Option.map_some, relaidRest, value_relaid hf]
    rw [ih]
  | case4 t ts ht hk ih =>
    have hkeyword := keyword?_relaid hf (t :: ts)
    rw [hk, List.map_cons] at hkeyword
    rw [List.map_cons, readAll_cons, if_neg (by rwa [hf]), hkeyword]
    exact ih

end Setting

end SqlTables.Declaration
