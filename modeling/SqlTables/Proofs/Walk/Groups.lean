import SqlTables.Declaration.DefaultValue
import SqlTables.Proofs.Relaid.Source
import SqlTables.Proofs.RoundTrip.Grouping
import SqlTables.Proofs.Schema.Parsed
import SqlTables.Proofs.Walk.Basic

/-! Walks over groups and what is made of them: lists of columns, references, default values. The
depth of a group is counted from its opening parenthesis, so it is never lowered from zero. -/

namespace SqlTables

open Declaration

namespace Walk

def groupEnd (depth pos : Nat) : List Token → Except Fault (Option Nat)
  | [] => .ok none
  | t :: rest =>
    match t.kind with
    | .eof => .ok none
    | .leftParen => groupEnd (depth + 1) (pos + 1) rest
    | .rightParen => do
      let depth ← lowered depth
      if depth = 0 then return some (pos + 1) else groupEnd depth (pos + 1) rest
    | _ => groupEnd depth (pos + 1) rest

def openedGroup : Walk (Option (List Token)) := do
  let start ← position
  let rest ← ahead
  match ← checked (groupEnd 0 start rest) with
  | none => return none
  | some stop =>
    moveTo stop
    let last ← checked (lowered stop)
    return some (← between (start + 1) last)

def optionalGroup : Walk (Option (List Token)) := do
  if ← seesKind .leftParen then openedGroup else return none

def group : Walk (List Token) := do ofOption (← optionalGroup)

def partsFrom (ts : List Token) (depth start pos : Nat) :
    List Token → Except Fault (List (List Token))
  | [] => do return [← slice ts start ts.length]
  | t :: rest =>
    if t.kind = .comma ∧ depth = 0 then do
      let part ← slice ts start pos
      return part :: (← partsFrom ts depth (pos + 1) (pos + 1) rest)
    else partsFrom ts (depthAfter depth t.kind) start (pos + 1) rest

def splitTopLevel (ts : List Token) : Except Fault (List (List Token)) := partsFrom ts 0 0 0 ts

def columnList (inside : List Token) : Walk (List String) := do
  let parts ← checked (splitTopLevel inside)
  ofOption (parts.mapM fun part => (name? part).map (·.1))

def nameRound (name : String) : Walk (Round String String) := do
  if ← eat .dot then return .again (← identifier) else return .leave name

def qualifiedName : Walk String := do loop nameRound (← identifier)

def action : Walk String := do
  let first := Text.upperCase (← identifier)
  if first = "SET" ∨ first = "NO" then
    return first ++ " " ++ Text.upperCase (← identifier)
  else return first

def referenceRound (r : Reference) : Walk (Round Reference Reference) := do
  if ← eatKeywords ["ON", "DELETE"] then return .again { r with onDelete := some (← action) }
  else if ← eatKeywords ["ON", "UPDATE"] then return .again { r with onUpdate := some (← action) }
  else if ← eatKeyword "MATCH" then
    let _ ← advance?
    return .again r
  else return .leave r

def referencedFields : Walk (List String) := do
  match ← optionalGroup with
  | some inside => columnList inside
  | none => return []

def reference : Walk Reference := do
  if ← eatKeyword "REFERENCES" then
    let table ← qualifiedName
    let fields ← referencedFields
    loop referenceRound ⟨table, fields, none, none⟩
  else giveUp

def arguments : Walk Unit := do
  if ← seesKind .leftParen then
    let _ ← group
    return ()
  else return ()

def callText : Walk String :=
  textOf do
    let _ ← identifier
    arguments

def prefixedLiteral : Walk (Option String) := do
  match ← peekAt 0, ← peekAt 1 with
  | some t, some u =>
    match u.kind with
    | .string _ =>
      if u.gap = "" then
        let _ ← advance?
        let _ ← advance?
        return some (t.lexeme ++ u.lexeme)
      else return none
    | _ => return none
  | _, _ => return none

def bareDefault : Walk String := do
  let t ← ofOption (← peek)
  match t.kind with
  | .string value | .quotedName value | .number value =>
    let _ ← advance?
    return value
  | .leftParen => textOf group
  | .word _ =>
    match ← prefixedLiteral with
    | some text => return text
    | none => callText
  | _ => giveUp

def castRound (value : String) : Walk (Round String String) := do
  if ← eat .doubleColon then
    let _ ← identifier
    let _ ← optionalGroup
    return .again value
  else return .leave value

def defaultValue : Walk String := do loop castRound (← bareDefault)

variable {read rest after inside : List Token}

theorem groupEnd_eq (depth pos : Nat) (rest : List Token) :
    groupEnd (depth + 1) pos rest =
      .ok ((closeGroup? depth rest).map fun found => pos + found.1.length + 1) := by
  induction rest generalizing depth pos with
  | nil => rfl
  | cons t rest ih =>
    have hstep (d : Nat) : Except.ok (ε := Fault)
        ((closeGroup? d rest).map fun found => pos + 1 + found.1.length + 1) =
        .ok (((closeGroup? d rest).map fun found => (t :: found.1, found.2)).map
          fun found => pos + found.1.length + 1) := by
      rw [Option.map_map]
      congr 2
      funext found
      simp only [Function.comp_apply, List.length_cons]
      omega
    unfold closeGroup?
    rw [groupEnd]
    cases ht : t.kind with
    | eof => rfl
    | leftParen => exact (ih _ _).trans (hstep _)
    | rightParen =>
      cases depth with
      | zero => rfl
      | succ depth => exact (ih _ _).trans (hstep _)
    | _ => exact (ih _ _).trans (hstep _)

theorem reads_openedGroup {t : Token} (ht : t.kind = .leftParen) (rest : List Token) :
    Reads openedGroup (t :: rest)
      (some ((group? (t :: rest)).map (·.1.inside), skipGroup (t :: rest))) := by
  intro ts pos hpos hrest
  have hend : checked (groupEnd 0 pos (ts.drop pos)) ts pos =
      .ok (some ((closeGroup? 0 rest).map fun found => pos + 1 + found.1.length + 1), pos) := by
    rw [hrest, checked, groupEnd, ht, groupEnd_eq 0 (pos + 1) rest]
    rfl
  refine runs_bind (w := position) rfl (runs_bind (w := ahead) rfl (runs_bind hend ?_))
  rw [skipGroup, group?, if_pos ht]
  cases hclose : closeGroup? 0 rest with
  | none => exact ⟨some none, pos, rfl, hpos, by rw [hrest]; rfl⟩
  | some found =>
    obtain ⟨inside, closing, after⟩ := found
    obtain ⟨read, hread, hskips⟩ :=
      (Consumes.head (t := t) (by simp [ht]) (closeGroup?_consumes hclose).skips).skips
    have hsplit : t :: rest = (t :: inside ++ [closing]) ++ after := by
      rw [eq_append_of_closeGroup? hclose]
      simp
    obtain rfl : read = t :: inside ++ [closing] :=
      List.append_cancel_right (hskips.symm.trans hsplit)
    have hlength : (t :: inside ++ [closing]).length = 1 + inside.length + 1 := by
      simp [Nat.add_comm]
    obtain ⟨hmove, hnext, hafter⟩ := moveTo_eq (hrest.trans hsplit) hread hpos
    have hinside : slice ts (pos + 1) (pos + 1 + inside.length) = .ok inside := by
      have hdrop : ts.drop (pos + 1) = inside ++ closing :: after := by
        rw [← List.drop_drop, hrest, hsplit]
        simp
      exact slice_eq hdrop (by omega)
    rw [hlength, ← Nat.add_assoc, ← Nat.add_assoc] at hmove hnext hafter
    refine ⟨some (some inside), _, ?_, hnext, by rw [hafter]; rfl⟩
    have hbetween : between (pos + 1) (pos + 1 + inside.length) ts (pos + 1 + inside.length + 1) =
        .ok (some inside, pos + 1 + inside.length + 1) := by
      rw [between, hinside]
      rfl
    exact (run_bind hmove).trans ((run_bind (w := checked _) rfl).trans (run_bind hbetween))

theorem reads_optionalGroup (rest : List Token) :
    Reads optionalGroup rest (some ((group? rest).map (·.1.inside), skipGroup rest)) := by
  refine (reads_seesKind (by decide) rest).andThen ?_
  cases rest with
  | nil => exact reads_pure none []
  | cons t rest =>
    by_cases ht : t.kind = .leftParen
    · simpa [peekKind, ht] using reads_openedGroup ht rest
    · simpa [peekKind, group?, skipGroup, ht] using reads_pure none (t :: rest)

theorem reads_group (rest : List Token) :
    Reads group rest ((group? rest).map fun (g, after) => (g.inside, after)) := by
  refine (reads_optionalGroup rest).andThen ((reads_ofOption _ _).of_eq ?_)
  unfold skipGroup
  cases group? rest <;> rfl

theorem reads_textOf_group (rest : List Token) :
    Reads (textOf group) rest ((group? rest).map fun (g, after) => (g.text, after)) := by
  have h := reads_group rest
  cases hg : group? rest with
  | none =>
    rw [hg] at h
    exact h.textOf_none
  | some found =>
    obtain ⟨g, after⟩ := found
    rw [hg, (eq_append_of_group? hg).1] at h
    rw [(eq_append_of_group? hg).1]
    exact h.textOf (by simp)

theorem partsFrom_eq {ts : List Token} {start : Nat} (depth : Nat) (current rest : List Token)
    (hstart : start ≤ ts.length) (hdrop : ts.drop start = current ++ rest) :
    partsFrom ts depth start (start + current.length) rest =
      .ok ((splitCommas depth rest).modifyHead (current ++ ·)) := by
  induction rest generalizing depth start current with
  | nil =>
    have hlength : ts.length = start + current.length := by
      have := congrArg List.length hdrop
      rw [List.length_drop, List.append_nil] at this
      omega
    rw [partsFrom, hlength, slice_eq hdrop hstart]
    simp [splitCommas, Bind.bind, Except.bind, Pure.pure, Except.pure]
  | cons t rest ih =>
    rw [partsFrom, splitCommas]
    split_ifs with ht
    · have hlength : start + current.length + 1 ≤ ts.length := by
        have := congrArg List.length hdrop
        rw [List.length_drop, List.length_append, List.length_cons] at this
        omega
      have hafter : ts.drop (start + current.length + 1) = [] ++ rest := by
        rw [← List.drop_drop, ← List.drop_drop, hdrop, List.drop_left]
        rfl
      have hparts : partsFrom ts depth (start + current.length + 1) (start + current.length + 1)
          rest = .ok (splitCommas depth rest) := by
        refine (ih depth [] hlength hafter).trans ?_
        obtain ⟨part, parts, hsplit⟩ := List.exists_cons_of_ne_nil (splitCommas_ne_nil depth rest)
        rw [hsplit]
        rfl
      rw [slice_eq hdrop hstart]
      simp [hparts, Bind.bind, Except.bind, Pure.pure, Except.pure]
    · have hparts := ih (depthAfter depth t.kind) (current ++ [t]) hstart (by simpa using hdrop)
      rw [List.length_append, List.length_singleton, ← Nat.add_assoc] at hparts
      rw [hparts]
      dsimp only
      split
      · rename_i part parts hsplit
        have hafter : splitCommas (depthAfter depth t.kind) rest = part :: parts := hsplit
        rw [hafter]
        simp
      · rename_i hsplit
        exact absurd hsplit (splitCommas_ne_nil _ rest)

theorem splitTopLevel_eq (ts : List Token) : splitTopLevel ts = .ok (splitCommas 0 ts) := by
  rw [splitTopLevel]
  refine (partsFrom_eq 0 [] ts (Nat.zero_le _) rfl).trans ?_
  obtain ⟨part, parts, hsplit⟩ := List.exists_cons_of_ne_nil (splitCommas_ne_nil 0 ts)
  rw [hsplit]
  rfl

theorem reads_splitTopLevel (inside rest : List Token) :
    Reads (checked (splitTopLevel inside)) rest (some (splitCommas 0 inside, rest)) :=
  fun ts pos hpos hrest =>
    ⟨some _, pos, by rw [checked, splitTopLevel_eq]; rfl, hpos, by rw [hrest]; rfl⟩

theorem reads_columnList (inside rest : List Token) :
    Reads (columnList inside) rest ((columnNames? inside).map (·, rest)) :=
  (reads_splitTopLevel inside rest).andThen (reads_ofOption _ _)

theorem qualifiedName?_eq_none (h : name? rest = none) : qualifiedName? rest = none := by
  match rest with
  | [] => rfl
  | [t] => exact h
  | t :: d :: rest =>
    rw [name?, Option.map_eq_none_iff] at h
    rw [qualifiedName?, h]

theorem reads_nameRounds {ts : List Token} {name : String} (h : name? ts = some (name, rest)) :
    Reads (loop nameRound name) rest (qualifiedName? ts) := by
  have htest := fun rest => tests_eat (k := .dot) (by decide) rest
  fun_induction qualifiedName? ts generalizing name rest with
  | case1 => simp [name?] at h
  | case2 t =>
    obtain ⟨_, hname, he⟩ := Option.map_eq_some_iff.1 h
    cases he
    rw [hname]
    exact .leave ((htest []).ite_of_none (reads_pure _ _))
  | case3 t d tail hname => simp [name?, hname] at h
  | case4 t d tail found hname hd ih =>
    rw [name?, hname] at h
    cases h
    have hdot := htest (d :: tail)
    rw [passIf_of_eq hd] at hdot
    have hround : Reads (nameRound found) (d :: tail)
        ((name? tail).map fun next => (.again next.1, next.2)) :=
      hdot.ite_of_some ((reads_identifier tail).map _)
    cases hnext : name? tail with
    | none =>
      rw [qualifiedName?_eq_none hnext]
      exact .stuck (hround.of_eq (by rw [hnext]; rfl))
    | some next =>
      exact .again (hround.of_eq (by rw [hnext]; rfl))
        ((name?_consumes hnext).length_lt.trans (Nat.lt_succ_self _)) (ih hnext)
  | case5 t d tail found hname hd =>
    rw [name?, hname] at h
    cases h
    have hdot := htest (d :: tail)
    rw [passIf_of_ne hd] at hdot
    exact .leave (hdot.ite_of_none (reads_pure _ _))

theorem reads_qualifiedName (rest : List Token) :
    Reads qualifiedName rest (qualifiedName? rest) := by
  have h := reads_identifier rest
  cases hname : name? rest with
  | none =>
    rw [hname] at h
    rw [qualifiedName?_eq_none hname]
    exact h.giveUp
  | some found =>
    rw [hname] at h
    exact h.andThen (reads_nameRounds hname)

theorem reads_action (rest : List Token) : Reads action rest (action? rest) := by
  refine (reads_identifier rest).bind fun first after _ => ?_
  dsimp only
  split_ifs
  · exact (reads_identifier after).bind fun second after _ => reads_pure _ _
  · exact reads_pure _ _

theorem reads_referenceRound (r : Reference) (rest : List Token) :
    Reads (referenceRound r) rest
      (if beginsReferenceOption rest then
        (referenceOption? rest).map fun (o, after) => (.again (o.apply r), after)
      else some (.leave r, rest)) := by
  refine (tests_eatKeywords _ rest).ite (fun after hdelete => ?_) fun hdelete => ?_
  · refine ((reads_action after).map _).of_eq ?_
    rw [beginsReferenceOption, referenceOption?, hdelete]
    dsimp only
    cases action? after <;> rfl
  refine (tests_eatKeywords _ rest).ite (fun after hupdate => ?_) fun hupdate => ?_
  · refine ((reads_action after).map _).of_eq ?_
    rw [beginsReferenceOption, referenceOption?, hdelete, hupdate]
    dsimp only
    cases action? after <;> rfl
  refine (tests_eatKeyword _ rest).ite (fun after hmatch => ?_) fun hmatch => ?_
  · refine (reads_advance? after).andThen ((reads_pure _ _).of_eq ?_)
    simp [beginsReferenceOption, referenceOption?, hdelete, hupdate, hmatch, ReferenceOption.apply]
  · exact (reads_pure _ _).of_eq (by simp [beginsReferenceOption, hdelete, hupdate, hmatch])

theorem reads_referenceRounds (r : Reference) (rest : List Token) :
    Reads (loop referenceRound r) rest
      ((referenceOptions? rest).map fun (os, after) =>
        (os.foldl ReferenceOption.apply r, after)) := by
  fun_induction referenceOptions? rest generalizing r with
  | case1 rest hb hnone =>
    exact .stuck ((reads_referenceRound r rest).of_eq (by rw [if_pos hb, hnone]; rfl))
  | case2 rest hb o after ho ih =>
    refine .again ((reads_referenceRound r rest).of_eq ?_)
      (referenceOption?_consumes ho).length_lt ((ih (o.apply r)).of_eq ?_)
    · rw [if_pos hb, ho]
      rfl
    · cases referenceOptions? after <;> rfl
  | case3 rest hb =>
    exact .leave ((reads_referenceRound r rest).of_eq (by rw [if_neg hb]; rfl))

theorem reads_referencedFields (rest : List Token) :
    Reads referencedFields rest (referencedFields? rest) := by
  refine (reads_optionalGroup rest).andThen ?_
  unfold skipGroup referencedFields?
  cases group? rest with
  | none => exact reads_pure [] rest
  | some found => exact reads_columnList _ _

theorem reads_reference (rest : List Token) : Reads reference rest (reference? rest) := by
  refine (tests_eatKeyword _ rest).ite (fun after h => ?_) fun h => ?_
  · rw [reference?, h]
    refine (reads_qualifiedName after).bind fun table after _ => ?_
    refine (reads_referencedFields after).bind fun fields after _ => ?_
    refine (reads_referenceRounds _ after).of_eq ?_
    dsimp only
    cases referenceOptions? after <;> rfl
  · rw [reference?, h]
    exact reads_giveUp rest

theorem reads_arguments (rest : List Token) :
    Reads arguments rest
      (if peekKind .leftParen rest then (group? rest).map fun (_, after) => ((), after)
      else some ((), rest)) := by
  refine (reads_seesKind (by decide) rest).andThen ?_
  split_ifs
  · refine ((reads_group rest).map _).of_eq ?_
    cases group? rest <;> rfl
  · exact reads_pure () rest

theorem reads_callText (rest : List Token) : Reads callText rest (call? rest) := by
  have hname := reads_identifier rest
  cases rest with
  | nil => exact hname.giveUp.textOf_none
  | cons t rest =>
    rw [name?] at hname
    rw [call?]
    cases ht : t.name? with
    | none =>
      rw [ht] at hname
      exact hname.giveUp.textOf_none
    | some name =>
      rw [ht] at hname
      have hcall := hname.andThen (f := fun _ => arguments) (reads_arguments rest)
      split_ifs at hcall with hpeek
      · simp only [hpeek, if_true]
        cases hg : group? rest with
        | none =>
          rw [hg] at hcall
          exact hcall.textOf_none
        | some found =>
          obtain ⟨g, after⟩ := found
          have hsplit : t :: rest = (t :: g.opening :: g.inside ++ [g.closing]) ++ after := by
            rw [(eq_append_of_group? hg).1]
            rfl
          rw [hg, hsplit] at hcall
          rw [hsplit]
          exact hcall.textOf (by simp)
      · simp only [hpeek]
        have hcall : Reads _ ([t] ++ rest) (some ((), rest)) := hcall
        exact hcall.textOf (by simp)

theorem reads_prefixedLiteral {t : Token} {word : String} (ht : t.kind = .word word)
    (rest : List Token) :
    Reads prefixedLiteral (t :: rest)
      (some (match prefixedLiteral? (t :: rest) with
        | some (text, after) => (some text, after)
        | none => (none, t :: rest))) := by
  have hte : t.kind ≠ .eof := by simp [ht]
  have hfirst : Reads (peekAt 0) (t :: rest) (some (some t, t :: rest)) :=
    (reads_peekAt 0 _).of_eq (by simp [hte])
  refine hfirst.andThen ((reads_peekAt 1 _).andThen ?_)
  cases rest with
  | nil => simpa [prefixedLiteral?] using reads_pure none [t]
  | cons u rest =>
    cases hu : u.kind with
    | string value =>
      have hue : u.kind ≠ .eof := by simp [hu]
      have hsecond : (t :: u :: rest)[1]?.filter (·.kind ≠ .eof) = some u := by simp [hue]
      rw [hsecond]
      simp only [prefixedLiteral?, ht, hu]
      split_ifs
      · exact (reads_advance?_cons hte _).andThen
          ((reads_advance?_cons hue _).andThen (reads_pure _ rest))
      · exact reads_pure none _
    | _ => simpa [prefixedLiteral?, ht, hu, Option.filter] using reads_pure none (t :: u :: rest)

theorem reads_bareDefault (rest : List Token) : Reads bareDefault rest (bareDefault? rest) := by
  refine (reads_peek rest).andThen ?_
  cases rest with
  | nil => exact (reads_ofOption _ _).giveUp
  | cons t rest =>
    by_cases hte : t.kind = .eof
    · simpa [take?, bareDefault?, hte] using (reads_ofOption none (t :: rest)).giveUp
    rw [take?_cons hte]
    refine (reads_ofOption (some t) _).andThen ?_
    rw [bareDefault?]
    cases ht : t.kind with
    | string value | quotedName value | number value =>
      exact (reads_advance?_cons hte rest).andThen (reads_pure value rest)
    | leftParen => exact reads_textOf_group _
    | word text =>
      refine (reads_prefixedLiteral ht rest).andThen ?_
      cases prefixedLiteral? (t :: rest) with
      | none => exact reads_callText _
      | some found => exact reads_pure found.1 found.2
    | _ => exact reads_giveUp _

theorem reads_castRounds (value : String) (rest : List Token) :
    Reads (loop castRound value) rest ((skipCasts? rest).map (value, ·)) := by
  have htest := fun rest => tests_eat (k := .doubleColon) (by decide) rest
  fun_induction skipCasts? rest with
  | case1 => exact .leave ((htest []).ite_of_none (reads_pure _ _))
  | case2 t rest ht hnone =>
    have hcast := htest (t :: rest)
    rw [passIf_of_eq ht] at hcast
    exact .stuck (hcast.ite_of_some ((reads_identifier rest).of_eq hnone).giveUp)
  | case3 t rest ht name after hn ih =>
    have hcast := htest (t :: rest)
    rw [passIf_of_eq ht] at hcast
    refine .again (hcast.ite_of_some (((reads_identifier rest).of_eq hn).andThen
      ((reads_optionalGroup after).andThen (reads_pure _ _)))) ?_ ih
    have h1 := (name?_consumes hn).length_lt
    have h2 := (skipGroup_skips after).length_le
    simp only [List.length_cons]
    omega
  | case4 t rest ht =>
    have hcast := htest (t :: rest)
    rw [passIf_of_ne ht] at hcast
    exact .leave (hcast.ite_of_none (reads_pure _ _))

theorem reads_defaultValue (rest : List Token) : Reads defaultValue rest (defaultValue? rest) := by
  refine (reads_bareDefault rest).bind fun value after _ => ?_
  refine (reads_castRounds value after).of_eq ?_
  dsimp only
  cases skipCasts? after <;> rfl

end Walk

end SqlTables
