import SqlTables.Proofs.Items.Shape
import SqlTables.Proofs.Walk.Groups

/-! Walks over columns. The attributes are tried in an order of their own here, which is of no
account: those that are keywords only begin with other keywords than those that take a value. -/

namespace SqlTables

open Declaration

namespace Walk

def typeName : Walk String := do
  let t ← advance
  match t.kind with
  | .word text =>
    let name := Text.upperCase text
    if name = "DOUBLE" then
      if ← eatKeyword "PRECISION" then return "DOUBLE PRECISION" else return name
    else if name = "CHARACTER" ∨ name = "CHAR" then
      if ← eatKeyword "VARYING" then return "CHARACTER VARYING" else return name
    else return name
  | _ => giveUp

def skipZone (name : String) : Walk Unit := do
  if name = "TIME" ∨ name = "TIMESTAMP" then
    let _ ← eatOneOf [["WITH", "TIME", "ZONE"], ["WITHOUT", "TIME", "ZONE"]]
    return ()
  else return ()

def typeParameters : Option (List Token) → Walk (List TypeParameter)
  | none => return []
  | some inside => do return (← checked (splitTopLevel inside)).map TypeParameter.read

def columnType : Walk DeclaredType := do
  let name ← typeName
  let inside ← optionalGroup
  skipZone name
  let parameters ← typeParameters inside
  match DeclaredType.serialType? name with
  | some type => return ⟨type, true, parameters⟩
  | none => return ⟨.ofName name, false, parameters⟩

def generated : Walk Attribute := do
  let _ ← eatOneOf [["ALWAYS"], ["BY", "DEFAULT"]]
  let _ ← eatKeyword "AS"
  if ← eatKeyword "IDENTITY" then
    let _ ← optionalGroup
    return .autoIncrement
  else return .neutral

def laterAttribute : Walk Attribute := do
  if ← eatOneOf [["CHARACTER", "SET"], ["CHARSET"], ["COLLATE"]] then
    let _ ← advance
    return .neutral
  else if ← eatKeywords ["ON", "UPDATE"] then return .onUpdate (← callText)
  else if ← eatKeyword "GENERATED" then generated
  else if ← seesOneOf ["REFERENCES"] then return .references (← reference)
  else if ← eatKeyword "CHECK" then return .check (Token.sourceText (← group))
  else if ← eatKeyword "CONSTRAINT" then
    let _ ← identifier
    return .neutral
  else
    match ← optionalGroup with
    | some _ => return .skippedGroup
    | none => return .skippedWord (← advance).lexeme

def columnAttribute : Walk Attribute := do
  if ← eatKeywords ["NOT", "NULL"] then return .nullable false
  else if ← eatKeyword "NULL" then return .nullable true
  else if ← eatKeyword "DEFAULT" then return .default (← defaultValue)
  else if ← eatOneOf [["AUTO_INCREMENT"], ["AUTOINCREMENT"]] then return .autoIncrement
  else if ← eatKeyword "UNSIGNED" then return .unsigned true
  else if ← eatKeyword "SIGNED" then return .unsigned false
  else if ← eatKeyword "ZEROFILL" then return .zerofill
  else if ← eatKeyword "COMMENT" then return .comment (← string)
  else if ← eatKeywords ["PRIMARY", "KEY"] then return .primaryKey
  else if ← eatKeyword "UNIQUE" then
    let _ ← eatOneOf [["KEY"], ["INDEX"]]
    return .unique
  else laterAttribute

def attributeRound (read : List Attribute) : Walk (Round (List Attribute) (List Attribute)) := do
  if ← atEnd then return .leave read else return .again (read ++ [← columnAttribute])

def column : Walk Column := do
  let name ← identifier
  let type ← columnType
  let attributes ← loop attributeRound []
  return ⟨name, type, attributes⟩

variable {rest after : List Token}

theorem reads_typeName (rest : List Token) : Reads typeName rest (DeclaredType.name? rest) := by
  refine (reads_advance rest).bind fun t after _ => ?_
  dsimp only
  cases t.kind with
  | word text =>
    dsimp only
    generalize Text.upperCase text = name
    split_ifs with hdouble hchar
    · subst hdouble
      refine (tests_eatKeyword _ after).ite (fun after h => ?_) fun h => ?_
      · exact (reads_pure _ after).of_eq (by simp [DeclaredType.longNames, h])
      · exact (reads_pure _ _).of_eq (by simp [DeclaredType.longNames, h])
    · refine (tests_eatKeyword _ after).ite (fun after h => ?_) fun h => ?_
      · exact (reads_pure _ after).of_eq (by
          rcases hchar with rfl | rfl <;> simp [DeclaredType.longNames, h])
      · exact (reads_pure _ _).of_eq (by
          rcases hchar with rfl | rfl <;> simp [DeclaredType.longNames, h])
    · exact (reads_pure _ _).of_eq (by simp_all [DeclaredType.longNames])
  | _ => exact reads_giveUp after

theorem reads_skipZone (name : String) (rest : List Token) :
    Reads (skipZone name) rest (some ((), DeclaredType.skipZone name rest)) := by
  rw [skipZone, DeclaredType.skipZone]
  split_ifs
  · refine (tests_eatOneOf _ rest).andThen ?_
    rw [skipOneOf_eq]
    exact reads_pure () _
  · exact reads_pure () rest

theorem reads_typeParameters (inside : Option (List Token)) (rest : List Token) :
    Reads (typeParameters inside) rest
      (some (inside.elim [] fun inside => (splitCommas 0 inside).map TypeParameter.read,
        rest)) := by
  cases inside with
  | none => exact reads_pure [] rest
  | some inside => exact (reads_splitTopLevel inside rest).map _

theorem reads_columnType (rest : List Token) :
    Reads columnType rest (DeclaredType.read? rest) := by
  refine (reads_typeName rest).bind fun name after _ => ?_
  refine (reads_optionalGroup after).andThen ((reads_skipZone name _).andThen ?_)
  have hparameters := reads_typeParameters ((group? after).map (·.1.inside))
    (DeclaredType.skipZone name (skipGroup after))
  refine hparameters.andThen ?_
  dsimp only
  unfold skipGroup DeclaredType.readParameters
  cases group? after <;> cases DeclaredType.serialType? name <;> exact reads_pure _ _

theorem reads_generated (rest : List Token) :
    Reads generated rest (some (Attribute.generated rest)) := by
  refine (tests_eatOneOf _ rest).andThen ?_
  rw [← skipOneOf_eq]
  refine (tests_eatKeyword _ _).andThen ?_
  rw [← keywords?_singleton, ← skipOneOf_singleton]
  refine (tests_eatKeyword _ _).ite (fun after h => ?_) fun h => ?_
  · rw [Attribute.generated, Attribute.skipGeneration, h]
    exact (reads_optionalGroup after).andThen (reads_pure _ _)
  · rw [Attribute.generated, Attribute.skipGeneration, h]
    exact reads_pure _ _

theorem reads_laterAttribute {ts : List Token} (hflag : Attribute.flag? ts = none)
    (hdefault : keyword? "DEFAULT" ts = none) (hcomment : keyword? "COMMENT" ts = none) :
    Reads laterAttribute ts (Attribute.read? ts) := by
  rw [Attribute.read?, hflag, hdefault, hcomment]
  dsimp only
  have hcharset : Tests (eatOneOf [["CHARACTER", "SET"], ["CHARSET"], ["COLLATE"]]) ts
      (Attribute.charset? ts) := tests_eatOneOf _ ts
  refine hcharset.ite (fun after h => ?_) fun h => ?_
  · rw [h]
    exact (reads_advance after).map _
  refine (tests_eatKeywords _ ts).ite (fun after hupdate => ?_) fun hupdate => ?_
  · rw [h, hupdate]
    exact (reads_callText after).map _
  refine (tests_eatKeyword _ ts).ite (fun after hgenerated => ?_) fun hgenerated => ?_
  · rw [h, hupdate, hgenerated]
    exact reads_generated after
  rw [h, hupdate, hgenerated]
  dsimp only
  refine (reads_seesOneOf _ ts).andThen ?_
  rw [List.any_cons, List.any_nil, Bool.or_false]
  split_ifs
  · exact (reads_reference ts).map _
  refine (tests_eatKeyword _ ts).ite (fun after hcheck => ?_) fun hcheck => ?_
  · rw [hcheck]
    refine ((reads_group after).map _).of_eq ?_
    dsimp only
    cases group? after <;> rfl
  refine (tests_eatKeyword _ ts).ite (fun after hconstraint => ?_) fun hconstraint => ?_
  · rw [hcheck, hconstraint]
    exact (reads_identifier after).map _
  rw [hcheck, hconstraint]
  refine (reads_optionalGroup ts).andThen ?_
  unfold skipGroup
  dsimp only
  rw [Attribute.skipped?]
  cases group? ts with
  | none => exact (reads_advance ts).map _
  | some found => exact reads_pure _ _

theorem keywords?_flag_eq_none {w : String} {ts : List Token} {e : String × List String × Attribute}
    (h : peekKeyword w ts = true) (he : Text.foldCase w.toList ≠ Text.foldCase e.1.toList) :
    (keywords? (e.1 :: e.2.1) ts).map (e.2.2, ·) = none := by
  rw [Option.map_eq_none_iff, Option.eq_none_iff_forall_ne_some]
  intro after hafter
  have hfirst := peekKeyword_of_keywords? hafter
  rw [peekKeyword_eq_false h he] at hfirst
  cases hfirst

theorem flag?_eq_none {w : String} {ts : List Token} (h : keyword? w ts = some rest)
    (hw : ∀ e ∈ Attribute.flags, Text.foldCase w.toList ≠ Text.foldCase e.1.toList) :
    Attribute.flag? ts = none := by
  rw [Attribute.flag?, List.findSome?_eq_none_iff]
  exact fun e he => keywords?_flag_eq_none (peekKeyword_of_keyword? h) (hw e he)

theorem flag?_of_keywords {w : String} {ws : List String} {a : Attribute} {ts : List Token}
    (h : keywords? (w :: ws) ts = some after) (hmem : (w, ws, a) ∈ Attribute.flags)
    (honly : ∀ e ∈ Attribute.flags,
      e = (w, ws, a) ∨ Text.foldCase w.toList ≠ Text.foldCase e.1.toList) :
    Attribute.flag? ts = some (a, after) := by
  have hthis : (keywords? (w :: ws) ts).map (a, ·) = some (a, after) := by rw [h]; rfl
  cases hf : Attribute.flag? ts with
  | none => exact (List.findSome?_eq_none_iff.1 hf _ hmem).symm.trans hthis
  | some found =>
    obtain ⟨e, he, hfound⟩ := List.exists_of_findSome?_eq_some hf
    rcases honly e he with rfl | hne
    · exact hfound.symm.trans hthis
    · have hnone := keywords?_flag_eq_none (peekKeyword_of_keywords? h) hne
      exact absurd (hnone.symm.trans hfound) nofun

theorem tests_eatKeyword_singleton (w : String) (ts : List Token) :
    Tests (eatKeyword w) ts (keywords? [w] ts) :=
  keywords?_singleton w ts ▸ tests_eatKeyword w ts

theorem reads_flag {a : Attribute} {ts : List Token}
    (h : Attribute.flag? ts = some (a, after)) : Reads (pure a) after (Attribute.read? ts) :=
  (reads_pure a after).of_eq (by rw [Attribute.read?, h])

theorem reads_columnAttribute (ts : List Token) :
    Reads columnAttribute ts (Attribute.read? ts) := by
  -- the branches of flags need nothing of those before them, for no flag but `UNIQUE` begins with
  -- the first keyword of another
  have hword (w : String) := tests_eatKeyword_singleton w ts
  refine (tests_eatKeywords _ ts).ite
    (fun _ h => reads_flag (flag?_of_keywords h (by decide) (by decide))) fun hnot => ?_
  refine (hword _).ite
    (fun _ h => reads_flag (flag?_of_keywords h (by decide) (by decide))) fun hnull => ?_
  refine (tests_eatKeyword _ ts).ite (fun after h => ?_) fun hdefault => ?_
  · rw [Attribute.read?, flag?_eq_none h (by decide), h]
    exact (reads_defaultValue after).map _
  refine (tests_eatOneOf _ ts).ite (fun after h => ?_) fun hauto => ?_
  · obtain ⟨ws, hws, h⟩ := List.exists_of_findSome?_eq_some h
    simp only [List.mem_cons, List.not_mem_nil, or_false] at hws
    rcases hws with rfl | rfl <;> exact reads_flag (flag?_of_keywords h (by decide) (by decide))
  refine (hword _).ite
    (fun _ h => reads_flag (flag?_of_keywords h (by decide) (by decide))) fun hunsigned => ?_
  refine (hword _).ite
    (fun _ h => reads_flag (flag?_of_keywords h (by decide) (by decide))) fun hsigned => ?_
  refine (hword _).ite
    (fun _ h => reads_flag (flag?_of_keywords h (by decide) (by decide))) fun hzerofill => ?_
  refine (tests_eatKeyword _ ts).ite (fun after h => ?_) fun hcomment => ?_
  · rw [Attribute.read?, flag?_eq_none h (by decide), hdefault, h]
    exact (reads_string after).map _
  refine (tests_eatKeywords _ ts).ite
    (fun _ h => reads_flag (flag?_of_keywords h (by decide) (by decide))) fun hprimary => ?_
  obtain ⟨hfirst, hsecond⟩ : keywords? ["AUTO_INCREMENT"] ts = none ∧
      keywords? ["AUTOINCREMENT"] ts = none := by simpa using hauto
  refine (tests_eatKeyword _ ts).ite (fun after h => ?_) fun hunique => ?_
  · refine (tests_eatOneOf _ after).andThen (reads_flag ?_)
    have hunique (ws : List String) : keywords? ("UNIQUE" :: ws) ts = keywords? ws after := by
      rw [keywords?, h]
      rfl
    simp only [Attribute.flag?, Attribute.flags, List.findSome?_cons, hnot, hnull, hfirst, hsecond,
      hunsigned, hsigned, hzerofill, hprimary, hunique, Option.map_none]
    cases keywords? ["KEY"] after <;> cases keywords? ["INDEX"] after <;> rfl
  · refine reads_laterAttribute ?_ hdefault hcomment
    have hunique (ws : List String) : keywords? ("UNIQUE" :: ws) ts = none := by
      rw [keywords?, hunique]
      rfl
    simp [Attribute.flag?, Attribute.flags, hnot, hnull, hfirst, hsecond, hunsigned, hsigned,
      hzerofill, hprimary, hunique]

theorem reads_attributeRound (read : List Attribute) (ts : List Token) :
    Reads (attributeRound read) ts
      (if isDone ts then some (.leave read, ts)
      else (Attribute.read? ts).map fun (a, after) => (.again (read ++ [a]), after)) := by
  refine (reads_atEnd ts).andThen ?_
  split_ifs
  · exact reads_pure _ ts
  · exact (reads_columnAttribute ts).map _

theorem exists_reads_attributeRounds (read : List Attribute) (ts : List Token) :
    ∃ after, Reads (loop attributeRound read) ts
      (if (Attribute.readAll ts).2 then some (read ++ (Attribute.readAll ts).1, after)
      else none) := by
  fun_induction Attribute.readAll ts generalizing read with
  | case1 ts hdone =>
    refine ⟨ts, ?_⟩
    rw [if_pos rfl, List.append_nil]
    exact .leave ((reads_attributeRound read ts).of_eq (if_pos hdone))
  | case2 ts hdone hnone =>
    exact ⟨ts, .stuck ((reads_attributeRound read ts).of_eq (by rw [if_neg hdone, hnone]; rfl))⟩
  | case3 ts hdone a after ha others complete hall ih =>
    obtain ⟨last, hlast⟩ := ih (read ++ [a])
    refine ⟨last, .again ((reads_attributeRound read ts).of_eq (by rw [if_neg hdone, ha]; rfl))
      (Attribute.read?_consumes ha).length_lt (hlast.of_eq ?_)⟩
    rw [hall]
    simp

theorem yields_column (ts : List Token) :
    Yields column ts
      ((Column.read? ts).bind fun found => if found.2 then some found.1 else none) := by
  have hread : (Column.read? ts).bind (fun found => if found.2 then some found.1 else none) =
      (name? ts).bind fun name => (DeclaredType.read? name.2).bind fun type =>
        if (Attribute.readAll type.2).2 then
          some ⟨name.1, type.1, (Attribute.readAll type.2).1⟩
        else none := by
    rw [Column.read?, Option.bind_eq_bind, Option.bind_assoc]
    congr 1
    funext found
    dsimp only
    rw [Option.bind_eq_bind, Option.bind_assoc]
    rfl
  rw [hread]
  refine (reads_identifier ts).bindYields fun name after _ => ?_
  refine (reads_columnType after).bindYields fun type after _ => ?_
  obtain ⟨last, hlast⟩ := exists_reads_attributeRounds [] after
  have hcolumn := (hlast.map fun attributes => (⟨name, type, attributes⟩ : Column)).yields
  dsimp only
  split_ifs with hall <;> simpa [hall] using hcolumn

end Walk

end SqlTables
