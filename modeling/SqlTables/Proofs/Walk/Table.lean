import SqlTables.Draft.Read
import SqlTables.Proofs.Places
import SqlTables.Proofs.Walk.Clause

/-! A walk over a whole definition. It never stands outside of the tokens, steps over an end token,
lowers a number below zero, takes a slice that is not there, or goes round a loop in one place, and
reads the draft that is read of the list. -/

namespace SqlTables

open Declaration

namespace Walk

def seekRound (_ : Unit) : Walk (Round Unit Unit) := do
  if ← atEnd then giveUp
  else if ← eatKeyword "CREATE" then
    let _ ← eatOneOf [["TEMPORARY"], ["TEMP"]]
    if ← eatKeyword "TABLE" then return .leave () else return .again ()
  else
    let _ ← advance?
    return .again ()

def seekCreateTable : Walk Unit := loop seekRound ()

def header : Walk (String × Token) := do
  let _ ← seekCreateTable
  let _ ← eatKeywords ["IF", "NOT", "EXISTS"]
  let name ← qualifiedName
  match ← peek with
  | none => giveUp
  | some t => if t.kind = .leftParen then return (name, t) else giveUp

/-- The items cut off so far, the place where the next one begins, and the number of open groups. -/
structure Cut where
  items : List Item
  start : Nat
  depth : Nat

def cutItem (s : Cut) (stop : Token) : Walk (List Item) := do
  let last ← checked (lowered (← position))
  return s.items ++ [⟨← between s.start last, stop⟩]

def itemStep (s : Cut) (t : Token) : Walk (Round Cut (List Item)) := do
  match t.kind with
  | .leftParen => return .again { s with depth := s.depth + 1 }
  | .rightParen =>
    if s.depth = 0 then return .leave (← cutItem s t)
    else return .again { s with depth := ← checked (lowered s.depth) }
  | .comma =>
    if s.depth = 0 then
      let items ← cutItem s t
      return .again ⟨items, ← position, 0⟩
    else return .again s
  | .semicolon => giveUp
  | _ => return .again s

def itemRound (s : Cut) : Walk (Round Cut (List Item)) := do itemStep s (← advance)

def columnItems : Walk (List Item) := do
  let _ ← advance?
  loop itemRound ⟨[], ← position, 0⟩

def settingKeyword :
    List (String × List String × (String → Option Setting)) →
      Walk (Option (String → Option Setting))
  | [] => return none
  | (w, ws, make) :: others => do
    if ← eatKeywords (w :: ws) then return some make else settingKeyword others

def settingValue : Walk (Option String) := do
  let _ ← eat .equals
  match ← peek with
  | none => return none
  | some t =>
    match t.value? with
    | none => return none
    | some value =>
      let _ ← advance?
      return some value

def settingRound (found : List Setting) : Walk (Round (List Setting) (List Setting)) := do
  match ← peek with
  | none => return .leave found
  | some t =>
    if t.kind = .semicolon then return .leave found
    else
      match ← settingKeyword Setting.keywords with
      | some make => return .again (found ++ ((← settingValue).bind make).toList)
      | none =>
        let _ ← advance?
        return .again found

def settings : Walk (List Setting) := loop settingRound []

def attempt {α : Type} (w : Walk α) : Walk (Option α) :=
  fun ts pos => (w ts pos).map fun (found, next) => (some found, next)

def within {α : Type} (inside : List Token) (w : Walk α) : Walk (Option α) :=
  fun _ pos => (w inside 0).map fun (found, _) => (some found, pos)

def clauses : List Item → Walk (Except ParseError (List Clause))
  | [] => return .ok []
  | i :: rest => do
    match ← within i.tokens clause with
    | none => return .error (Draft.unreadable i)
    | some c => return (← clauses rest).map (c :: ·)

def table : Walk (Except ParseError Draft) := do
  match ← attempt header with
  | none => return .error .missingHeader
  | some (name, opening) =>
    match ← attempt columnItems with
    | none =>
      return .error (.unterminatedColumnList opening.start.line opening.start.column)
    | some items =>
      match ← clauses items with
      | .error e => return .error e
      | .ok cs => return .ok (Draft.ofClauses name cs (← settings))

variable {t : Token} {rest after ts current : List Token}

theorem afterCreateTable?_cons_of_isKeyword {w : String} (h : t.isKeyword w = true)
    (hw : Text.foldCase "CREATE".toList ≠ Text.foldCase w.toList) (rest : List Token) :
    Draft.afterCreateTable? (t :: rest) = Draft.afterCreateTable? rest := by
  have hcreate : t.isKeyword "CREATE" = false :=
    Bool.eq_false_iff.2 fun h' => hw (Token.foldCase_eq_of_isKeyword h' h)
  rw [Draft.afterCreateTable?, if_neg (ne_eof_of_isKeyword h), hcreate]
  rfl

theorem afterCreateTable?_skipOneOf (rest : List Token) :
    Draft.afterCreateTable? (skipOneOf [["TEMPORARY"], ["TEMP"]] rest) =
      Draft.afterCreateTable? rest := by
  cases rest with
  | nil => rfl
  | cons t rest =>
    simp only [skipOneOf, keywords?_singleton, keyword?]
    cases hlong : t.isKeyword "TEMPORARY" with
    | true => exact (afterCreateTable?_cons_of_isKeyword hlong (by decide) rest).symm
    | false =>
      cases hshort : t.isKeyword "TEMP" with
      | true => exact (afterCreateTable?_cons_of_isKeyword hshort (by decide) rest).symm
      | false => rfl

theorem reads_seekCreateTable (rest : List Token) :
    Reads seekCreateTable rest ((Draft.afterCreateTable? rest).map ((), ·)) := by
  induction hn : rest.length using Nat.strong_induction_on generalizing rest with
  | _ n ih =>
    -- strong induction, since a round may pass over two tokens
    have hend := reads_atEnd rest
    cases rest with
    | nil => exact .stuck (hend.andThen (reads_giveUp []))
    | cons t rest =>
      rw [Draft.afterCreateTable?]
      by_cases hte : t.kind = .eof
      · rw [if_pos hte]
        refine .stuck (hend.andThen ?_)
        simpa [isDone, take?, hte] using reads_giveUp (t :: rest)
      have hgo {next : List Token} (hnext : next.length ≤ rest.length)
          (hround : Reads (seekRound ()) (t :: rest) (some (.again (), next))) :
          Reads seekCreateTable (t :: rest) ((Draft.afterCreateTable? next).map ((), ·)) := by
        have hlt : next.length < (t :: rest).length := Nat.lt_succ_of_le hnext
        exact .again hround hlt (ih _ (hn ▸ hlt) next rfl)
      have hdone : isDone (t :: rest) = false := by simp [isDone, take?, hte]
      rw [hdone] at hend
      have hcreate := tests_eatKeyword "CREATE" (t :: rest)
      rw [keyword?] at hcreate
      rw [if_neg hte]
      split_ifs at hcreate ⊢ with hc
      · have hskip := tests_eatOneOf [["TEMPORARY"], ["TEMP"]] rest
        rw [Tests, ← skipOneOf_eq] at hskip
        have htable := tests_eatKeyword "TABLE" (skipOneOf [["TEMPORARY"], ["TEMP"]] rest)
        cases hfound : keyword? "TABLE" (skipOneOf [["TEMPORARY"], ["TEMP"]] rest) with
        | some after =>
          rw [hfound] at htable
          exact .leave (hend.andThen (hcreate.ite_of_some (hskip.andThen
            (htable.ite_of_some (reads_pure _ after)))))
        | none =>
          rw [hfound] at htable
          dsimp only
          rw [← afterCreateTable?_skipOneOf]
          exact hgo (skipOneOf_skips _ rest).length_le (hend.andThen (hcreate.ite_of_some
            (hskip.andThen (htable.ite_of_none (reads_pure _ _)))))
      · exact hgo le_rfl (hend.andThen (hcreate.ite_of_none
          ((reads_advance?_cons hte rest).andThen (reads_pure _ rest))))

theorem reads_header (ts : List Token) :
    Reads header ts
      ((Draft.header? ts).map fun found => ((found.1, found.2.1), found.2.1 :: found.2.2)) := by
  have hseek := reads_seekCreateTable ts
  rw [Draft.header?, Option.bind_eq_bind]
  cases hcreate : Draft.afterCreateTable? ts with
  | none =>
    rw [hcreate] at hseek
    exact hseek.giveUp
  | some rest =>
    rw [hcreate] at hseek
    refine hseek.andThen ((tests_eatKeywords _ rest).andThen ?_)
    rw [← skipOneOf_singleton, Option.bind_some, Option.bind_eq_bind]
    have hname := reads_qualifiedName (skipOneOf [["IF", "NOT", "EXISTS"]] rest)
    cases hq : qualifiedName? (skipOneOf [["IF", "NOT", "EXISTS"]] rest) with
    | none =>
      rw [hq] at hname
      exact hname.giveUp
    | some found =>
      obtain ⟨name, after⟩ := found
      rw [hq] at hname
      refine hname.andThen ((reads_peek after).andThen ?_)
      cases after with
      | nil => exact reads_giveUp []
      | cons t after =>
        by_cases ht : t.kind = .leftParen
        · simpa [take?, ht] using reads_pure (name, t) (t :: after)
        · by_cases hte : t.kind = .eof <;> simpa [take?, ht, hte] using reads_giveUp (t :: after)

theorem run_advance {pos : Nat} (hte : t.kind ≠ .eof) (hpos : pos ≤ ts.length)
    (hrest : ts.drop pos = t :: rest) :
    advance ts pos = .ok (some t, pos + 1) ∧ pos + 1 ≤ ts.length ∧ ts.drop (pos + 1) = rest := by
  have hreads := reads_advance (t :: rest)
  rw [take?_cons hte] at hreads
  obtain ⟨next, hrun, hnext, hafter⟩ := (hreads ts pos hpos hrest).of_some
  have hlength := congrArg List.length hrest
  have hlength' := congrArg List.length hafter
  rw [List.length_drop, List.length_cons] at hlength
  rw [List.length_drop] at hlength'
  obtain rfl : next = pos + 1 := by omega
  exact ⟨hrun, hnext, hafter⟩

variable {items : List Item} {start depth : Nat}

theorem run_cutItem (hstart : start ≤ ts.length) (hcurrent : ts.drop start = current ++ rest)
    (stop : Token) :
    cutItem ⟨items, start, depth⟩ stop ts (start + current.length + 1) =
      .ok (some (items ++ [⟨current, stop⟩]), start + current.length + 1) := by
  have hbetween : between start (start + current.length) ts (start + current.length + 1) =
      .ok (some current, start + current.length + 1) := by
    rw [between, slice_eq hcurrent hstart]
    rfl
  exact (run_bind (w := position) rfl).trans
    ((run_bind (w := checked _) rfl).trans (run_bind hbetween))

theorem run_itemStep_inner {s : Cut} {pos : Nat} (hs : t.kind ≠ .semicolon)
    (hd : s.depth = 0 → t.kind ≠ .rightParen ∧ t.kind ≠ .comma) :
    itemStep s t ts pos =
      .ok (some (.again { s with depth := depthAfter s.depth t.kind }), pos) := by
  obtain ⟨items, start, depth⟩ := s
  rw [itemStep]
  cases ht : t.kind with
  | semicolon => exact absurd ht hs
  | rightParen =>
    obtain ⟨depth, rfl⟩ := Nat.exists_eq_succ_of_ne_zero fun h => (hd h).1 ht
    rfl
  | comma =>
    obtain ⟨depth, rfl⟩ := Nat.exists_eq_succ_of_ne_zero fun h => (hd h).2 ht
    rfl
  | _ => rfl

theorem run_itemStep_close (hk : t.kind = .rightParen) (hstart : start ≤ ts.length)
    (hcurrent : ts.drop start = current ++ rest) :
    itemStep ⟨items, start, 0⟩ t ts (start + current.length + 1) =
      .ok (some (.leave (items ++ [⟨current, t⟩])), start + current.length + 1) := by
  rw [itemStep, hk]
  exact run_bind (run_cutItem hstart hcurrent t)

theorem run_itemStep_comma (hk : t.kind = .comma) (hstart : start ≤ ts.length)
    (hcurrent : ts.drop start = current ++ rest) :
    itemStep ⟨items, start, 0⟩ t ts (start + current.length + 1) =
      .ok (some (.again ⟨items ++ [⟨current, t⟩], start + current.length + 1, 0⟩),
        start + current.length + 1) := by
  rw [itemStep, hk]
  exact run_bind (run_cutItem hstart hcurrent t)

theorem runs_itemRounds_of_none {s : Cut} {pos : Nat} (h : Runs advance ts pos none) :
    Runs (loop itemRound s) ts pos none := by
  obtain ⟨next, hrun, hnext⟩ := h.of_none
  exact .stuck (by simp only [itemRound, Bind.bind, hrun]) hnext

theorem prepend_items?_close (hk : t.kind = .rightParen) (current rest : List Token) :
    prepend current (items? 0 (t :: rest)) = some ([⟨current, t⟩], rest) := by
  rw [items?_close hk]
  simp [prepend]

theorem prepend_items?_comma (hk : t.kind = .comma) (current rest : List Token) :
    prepend current (items? 0 (t :: rest)) =
      (items? 0 rest).map fun found => (⟨current, t⟩ :: found.1, found.2) := by
  rw [items?_comma hk]
  cases items? 0 rest <;> simp [prepend]

theorem runs_itemRounds (items : List Item) (depth : Nat) (hstart : start ≤ ts.length)
    (hcurrent : ts.drop start = current ++ rest) (hpos : start + current.length ≤ ts.length) :
    Runs (loop itemRound ⟨items, start, depth⟩) ts (start + current.length)
      ((prepend current (items? depth rest)).map fun (found, after) =>
        (items ++ found, after)) := by
  have hrest : ts.drop (start + current.length) = rest := by
    rw [← List.drop_drop, hcurrent, List.drop_left]
  have hadvance := reads_advance rest ts _ hpos hrest
  -- the tokens from `start` on are those of the item so far and then those that are left
  induction rest generalizing items start depth current with
  | nil => exact runs_itemRounds_of_none hadvance
  | cons t rest ih =>
    rw [take?] at hadvance
    split_ifs at hadvance with hte
    · rw [items?, if_pos (.inl hte)]
      exact runs_itemRounds_of_none hadvance
    obtain ⟨hrun, hnext, hafter⟩ := run_advance hte hpos hrest
    have hstep : itemRound ⟨items, start, depth⟩ ts (start + current.length) =
        itemStep ⟨items, start, depth⟩ t ts (start + current.length + 1) := run_bind hrun
    by_cases hs : t.kind = .semicolon
    · rw [items?, if_pos (.inr hs)]
      refine .stuck (hstep.trans ?_) hnext
      rw [itemStep, hs]
      rfl
    by_cases hd : depth = 0 → t.kind ≠ .rightParen ∧ t.kind ≠ .comma
    · -- the token belongs to the item
      have hcurrent' : ts.drop start = (current ++ [t]) ++ rest := by simpa using hcurrent
      have hlength : start + (current ++ [t]).length = start + current.length + 1 := by
        rw [List.length_append, List.length_singleton, Nat.add_assoc]
      have hloop := ih items (depthAfter depth t.kind) hstart hcurrent'
      rw [hlength] at hloop
      rw [items?_cons (by simp [hte, hs]) hd, ← prepend_append]
      exact .again (hstep.trans (run_itemStep_inner hs hd)) (Nat.lt_succ_self _) hnext
        (hloop hnext hafter (reads_advance rest ts _ hnext hafter))
    obtain ⟨rfl, hends⟩ := Classical.not_imp.1 hd
    by_cases hk : t.kind = .rightParen
    · have hfound := Runs.leave (hstep.trans (run_itemStep_close hk hstart hcurrent)) hnext
      rwa [prepend_items?_close hk, ← hafter]
    -- a comma outside groups begins the next item behind it
    have hcomma : t.kind = .comma := by tauto
    have hcurrent' : ts.drop (start + current.length + 1) = [] ++ rest := hafter
    have hloop := ih (items ++ [⟨current, t⟩]) 0 hnext hcurrent' hnext hafter
      (reads_advance rest ts _ hnext hafter)
    rw [prepend_items?_comma hcomma]
    refine .again (hstep.trans (run_itemStep_comma hcomma hstart hcurrent)) (Nat.lt_succ_self _)
      hnext ?_
    rw [prepend_nil_items?] at hloop
    cases h : items? 0 rest <;> simpa [h] using hloop

theorem reads_columnItems (ht : t.kind = .leftParen) (rest : List Token) :
    Reads columnItems (t :: rest) (items? 0 rest) := by
  intro ts pos hpos hrest
  have hpass := reads_advance?_cons (t := t) (by simp [ht]) rest ts pos hpos hrest
  obtain ⟨next, hrun, hnext, hafter⟩ := hpass.of_some
  have hcurrent : ts.drop next = [] ++ rest := hafter
  have hloop := runs_itemRounds [] 0 hnext hcurrent hnext
  refine runs_bind hrun (runs_bind (w := position) rfl ?_)
  rw [prepend_nil_items?] at hloop
  cases h : items? 0 rest <;> simpa [h] using hloop

theorem reads_settingKeyword (table : List (String × List String × (String → Option Setting)))
    (ts : List Token) :
    Reads (settingKeyword table) ts
      (some (match table.findSome? fun (w, ws, make) => (keywords? (w :: ws) ts).map (make, ·) with
        | some (make, rest) => (some make, rest)
        | none => (none, ts))) := by
  induction table with
  | nil => exact reads_pure none ts
  | cons entry others ih =>
    obtain ⟨w, ws, make⟩ := entry
    rw [List.findSome?_cons]
    dsimp only
    refine (tests_eatKeywords (w :: ws) ts).ite (fun rest h => ?_) fun h => ?_
    · rw [h]
      exact reads_pure (some make) rest
    · rw [h]
      exact ih

theorem reads_settingValue (ts : List Token) :
    Reads settingValue ts (some (Setting.value ts)) := by
  have hskip : (passIf (·.kind == .equals) ts).getD ts = Setting.skipEquals ts := by
    cases ts with
    | nil => rfl
    | cons t ts => by_cases ht : t.kind = .equals <;> simp [passIf, Setting.skipEquals, ht]
  refine (tests_eat (by decide) ts).andThen ?_
  rw [hskip, Setting.value]
  refine (reads_peek _).andThen ?_
  cases Setting.skipEquals ts with
  | nil => exact reads_pure none []
  | cons t rest =>
    by_cases hte : t.kind = .eof
    · simpa [take?, Token.value?, hte] using reads_pure none (t :: rest)
    rw [take?_cons hte, Option.map_some]
    dsimp only
    cases t.value? with
    | none => exact reads_pure none _
    | some value => exact (reads_advance?_cons hte rest).andThen (reads_pure (some value) rest)

theorem reads_settingRound (hs : t.kind ≠ .semicolon) (hte : t.kind ≠ .eof) (found : List Setting)
    (rest : List Token) :
    Reads (settingRound found) (t :: rest)
      (some (match Setting.keyword? (t :: rest) with
        | some (make, after) =>
          (.again (found ++ ((Setting.value after).1.bind make).toList), (Setting.value after).2)
        | none => (.again found, rest))) := by
  refine (reads_peek_cons hte rest).andThen ?_
  simp only [hs, if_false]
  refine (reads_settingKeyword Setting.keywords (t :: rest)).andThen ?_
  rw [← Setting.keyword?]
  cases Setting.keyword? (t :: rest) with
  | none => exact (reads_advance?_cons hte rest).andThen (reads_pure _ rest)
  | some entry => exact (reads_settingValue entry.2).andThen (reads_pure _ _)

theorem exists_reads_settingRounds (found : List Setting) (ts : List Token) :
    ∃ after, Reads (loop settingRound found) ts (some (found ++ Setting.readAll ts, after)) := by
  fun_induction Setting.readAll ts generalizing found with
  | case1 =>
    refine ⟨[], ?_⟩
    rw [List.append_nil]
    exact .leave ((reads_peek []).andThen (reads_pure _ _))
  | case2 t rest ht =>
    refine ⟨t :: rest, .leave ((reads_peek _).andThen ?_)⟩
    rw [List.append_nil]
    rcases ht with ht | ht <;> simpa [take?, ht] using
      reads_pure (Round.leave found) (t :: rest)
  | case3 t rest ht make after h value ih =>
    obtain ⟨hsemicolon, hte⟩ := not_or.1 ht
    obtain ⟨last, hlast⟩ := ih (found ++ (value.1.bind make).toList)
    have hround := reads_settingRound hsemicolon hte found rest
    rw [h] at hround
    refine ⟨last, .again hround ?_ (hlast.of_eq (by rw [List.append_assoc]))⟩
    exact (Setting.value_skips after).length_le.trans_lt (Setting.keyword?_consumes h).length_lt
  | case4 t rest ht h ih =>
    obtain ⟨hsemicolon, hte⟩ := not_or.1 ht
    obtain ⟨last, hlast⟩ := ih found
    have hround := reads_settingRound hsemicolon hte found rest
    rw [h] at hround
    exact ⟨last, .again hround (Nat.lt_succ_self _) hlast⟩

section

variable {α β : Type} {w : Walk α} {f : Option α → Walk β} {a : α} {found : Option β}

theorem attempt_of_some (h : Reads w rest (some (a, after)))
    (hf : Yields (f (some a)) after found) : Yields (attempt w >>= f) rest found := by
  intro ts pos hpos hrest
  obtain ⟨next, hrun, hnext, hafter⟩ := (h ts pos hpos hrest).of_some
  have hattempt : attempt w ts pos = .ok (some (some a), next) := by rw [attempt, hrun]; rfl
  rw [run_bind hattempt]
  exact hf ts next hnext hafter

theorem attempt_of_none (h : Reads w rest none) (hf : ∀ rest, Yields (f none) rest found) :
    Yields (attempt w >>= f) rest found := by
  intro ts pos hpos hrest
  obtain ⟨next, hrun, hnext⟩ := (h ts pos hpos hrest).of_none
  have hattempt : attempt w ts pos = .ok (some none, next) := by rw [attempt, hrun]; rfl
  rw [run_bind hattempt]
  exact hf _ ts next hnext rfl

theorem reads_within {inside : List Token} {found : Option α} (h : Yields w inside found)
    (rest : List Token) : Reads (within inside w) rest (some (found, rest)) := by
  intro ts pos hpos hrest
  obtain ⟨next, hrun, -⟩ := h inside 0 (Nat.zero_le _) rfl
  exact ⟨some found, pos, by rw [within, hrun]; rfl, hpos, by rw [hrest]; rfl⟩

end

theorem reads_clauses (items : List Item) (rest : List Token) :
    Reads (clauses items) rest (some (Draft.clauses items, rest)) := by
  induction items with
  | nil => exact reads_pure _ rest
  | cons i items ih =>
    rw [Draft.clauses]
    refine (reads_within (yields_clause i.tokens) rest).andThen ?_
    cases (Clause.read i.tokens).clause? with
    | none => exact reads_pure _ rest
    | some c => exact ih.map fun found => found.map (c :: ·)

theorem yields_table (ts : List Token) : Yields table ts (some (Draft.read ts)) := by
  have hheader := reads_header ts
  rw [Draft.read, Draft.Definition.read]
  cases hh : Draft.header? ts with
  | none =>
    rw [hh] at hheader
    exact attempt_of_none hheader fun rest => (reads_pure _ rest).yields
  | some found =>
    obtain ⟨name, opening, rest⟩ := found
    rw [hh] at hheader
    refine attempt_of_some hheader ?_
    have hitems := reads_columnItems (Draft.eq_append_of_header? hh).2 rest
    dsimp only
    cases hi : items? 0 rest with
    | none =>
      rw [hi] at hitems
      exact attempt_of_none hitems fun rest => (reads_pure _ rest).yields
    | some found =>
      obtain ⟨items, after⟩ := found
      rw [hi] at hitems
      refine attempt_of_some hitems ((reads_clauses items after).andThenYields ?_)
      dsimp only
      cases Draft.clauses items with
      | error e => exact (reads_pure _ after).yields
      | ok cs =>
        obtain ⟨last, hlast⟩ := exists_reads_settingRounds [] after
        exact (hlast.map fun found =>
          (.ok (Draft.ofClauses name cs found) : Except ParseError Draft)).yields

/-- On any tokens at all the walk over a definition comes to the draft that is read of the list,
without a fault. -/
theorem table_eq_read (ts : List Token) :
    ∃ next, table ts 0 = .ok (some (Draft.read ts), next) ∧ next ≤ ts.length :=
  yields_table ts ts 0 (Nat.zero_le _) rfl

end Walk

end SqlTables
