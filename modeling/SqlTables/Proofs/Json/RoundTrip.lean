import SqlTables.Proofs.Json.Scalar

/-! A JSON value that is laid out on lines reads as itself. -/

namespace SqlTables.Json

open Reader

variable {v : Json} {vs : List Json} {ms : List (String × Json)} {depth fuel : Nat}
  {cs rest : List Char}

theorem skipBlanks_append {bs : List Char} (hb : ∀ c ∈ bs, c = '\n' ∨ c = ' ') (cs : List Char) :
    skipBlanks (bs ++ cs) = skipBlanks cs := by
  apply List.dropWhile_append_of_pos
  intro c hc
  rcases hb c hc with rfl | rfl <;> rfl

theorem skipBlanks_indent (depth : Nat) (cs : List Char) :
    skipBlanks ((indent depth).toList ++ cs) = skipBlanks cs := by
  apply skipBlanks_append
  intro c hc
  rw [indent, String.toList_ofList, List.mem_cons] at hc
  exact hc.imp id List.eq_of_mem_replicate

theorem value_congr {as bs : List Char} (h : skipBlanks as = skipBlanks bs) (fuel : Nat) :
    value fuel as = value fuel bs := by
  cases fuel with
  | zero => rw [value, value]
  | succ fuel => rw [value, value, h]

theorem items_congr {as bs : List Char} (h : skipBlanks as = skipBlanks bs) (fuel : Nat) :
    items fuel as = items fuel bs := by
  cases fuel with
  | zero => rw [items, items]
  | succ fuel => rw [items, items, value_congr h]

theorem members_congr {as bs : List Char} (h : skipBlanks as = skipBlanks bs) (fuel : Nat) :
    members fuel as = members fuel bs := by
  cases fuel with
  | zero => rw [members, members]
  | succ fuel => rw [members, members, h]

theorem prettyItems_eq (depth : Nat) (vs : List Json) :
    prettyItems depth vs = vs.map (prettyAt depth) := by
  induction vs with
  | nil => rfl
  | cons v vs ih => rw [prettyItems, ih, List.map_cons]

def prettyMember (depth : Nat) (m : String × Json) : String :=
  quote m.1 ++ ": " ++ m.2.prettyAt depth

theorem prettyMembers_eq (depth : Nat) (ms : List (String × Json)) :
    prettyMembers depth ms = ms.map (prettyMember depth) := by
  induction ms with
  | nil => rfl
  | cons m ms ih => rw [prettyMembers, ih, List.map_cons, prettyMember]

def following (closing : Char) (depth : Nat) (entries : List String) : List Char :=
  entries.flatMap (fun e => ',' :: ((indent (depth + 1)).toList ++ e.toList)) ++
    ((indent depth).toList ++ [closing])

theorem toList_block (opening closing : Char) (depth : Nat) (e : String) (es : List String) :
    (block (String.singleton opening) (String.singleton closing) depth (e :: es)).toList =
      opening :: ((indent (depth + 1)).toList ++ (e.toList ++ following closing depth es)) := by
  have hcomma : (",").toList = [','] := rfl
  have hentry (x : String) : (indent (depth + 1) ++ x).toList =
      (indent (depth + 1)).toList ++ x.toList := String.toList_append
  simp only [block, String.toList_append, String.toList_singleton, String.toList_intercalate,
    List.map_map, List.map_cons, intercalate_cons, List.flatMap_map, Function.comp_def, hcomma,
    hentry, following, List.append_assoc, List.cons_append, List.nil_append]

theorem following_cons (closing : Char) (depth : Nat) (e : String) (es : List String) :
    following closing depth (e :: es) =
      ',' :: ((indent (depth + 1)).toList ++ (e.toList ++ following closing depth es)) := by
  simp [following]

theorem ends_following (closing : Char) (depth : Nat) (es : List String) (rest : List Char) :
    Ends (following closing depth es ++ rest) := by
  cases es with
  | nil =>
    rw [following, List.flatMap_nil, List.nil_append, indent, String.toList_ofList]
    exact ends_newline _
  | cons e es =>
    rw [following_cons]
    exact ends_comma _

/-- The value reads as itself before every end. The fuel is that of its own text. -/
def Reads (depth : Nat) (v : Json) : Prop :=
  ∀ fuel rest, 2 * (v.prettyAt depth).toList.length ≤ fuel → Ends rest →
    value fuel ((v.prettyAt depth).toList ++ rest) = some (v, rest)

def Opens (cs : List Char) : Prop :=
  ∃ c rest, cs = c :: rest ∧ c ∉ [' ', '\t', '\n', '\r', ']', '\x7d']

theorem Opens.skipBlanks (h : Opens cs) : skipBlanks cs = cs := by
  obtain ⟨c, rest, rfl, hc⟩ := h
  simp only [List.mem_cons, List.not_mem_nil, or_false, not_or] at hc
  simp [Reader.skipBlanks, hc]

theorem Opens.append (h : Opens cs) (after : List Char) : Opens (cs ++ after) := by
  obtain ⟨c, rest, rfl, hc⟩ := h
  exact ⟨c, rest ++ after, rfl, hc⟩

theorem opens_quote (s : String) : Opens (quote s).toList :=
  ⟨'\x22', _, toList_quote s, by decide⟩

theorem opens_toString (n : Int) : Opens (toString n).toList := by
  obtain ⟨c, cs, htext, hc⟩ := exists_toString_eq_cons n
  refine ⟨c, cs, htext, fun hmem => ?_⟩
  simp only [List.mem_cons, List.not_mem_nil, or_false] at hmem
  rcases hmem with rfl | rfl | rfl | rfl | rfl | rfl <;> exact absurd hc (by decide)

theorem opens_prettyAt (depth : Nat) (v : Json) : Opens (v.prettyAt depth).toList := by
  cases v with
  | null => exact ⟨'n', ['u', 'l', 'l'], by simp [prettyAt, scalar], by decide⟩
  | bool b => cases b with
    | true => exact ⟨'t', ['r', 'u', 'e'], by simp [prettyAt, scalar], by decide⟩
    | false => exact ⟨'f', ['a', 'l', 's', 'e'], by simp [prettyAt, scalar], by decide⟩
  | int n => exact opens_toString n
  | real m e =>
    have htext : (prettyAt depth (.real m e)).toList = _ := toList_real m e
    rw [htext]
    exact (opens_toString m).append _
  | str s => exact opens_quote s
  | arr vs => cases vs with
    | nil => exact ⟨'[', [']'], by simp [prettyAt, scalar], by decide⟩
    | cons v vs => exact ⟨'[', _, toList_block '[' ']' depth _ _, by decide⟩
  | obj ms => cases ms with
    | nil => exact ⟨'\x7b', ['\x7d'], by simp [prettyAt, scalar], by decide⟩
    | cons m ms => exact ⟨'\x7b', _, toList_block '\x7b' '\x7d' depth _ _, by decide⟩

theorem skipBlanks_following_nil (closing : Char) (hc : closing = ']' ∨ closing = '\x7d')
    (depth : Nat) (rest : List Char) :
    skipBlanks (following closing depth [] ++ rest) = closing :: rest := by
  rw [following, List.flatMap_nil, List.nil_append, List.append_assoc, skipBlanks_indent]
  rcases hc with rfl | rfl <;> rfl

theorem skipBlanks_comma (cs : List Char) : skipBlanks (',' :: cs) = ',' :: cs := rfl

structure ReadsEntry {α : Type} (run : Nat → List Char → Option (List α × List Char))
    (entry : α → String) (closing : Char) (depth : Nat) (x : α) : Prop where
  last : ∀ fuel rest, 2 * (entry x).toList.length ≤ fuel →
    run (fuel + 1) ((entry x).toList ++ (following closing depth [] ++ rest)) = some ([x], rest)
  more : ∀ fuel cs xs rest, 2 * (entry x).toList.length ≤ fuel → run fuel cs = some (xs, rest) →
    run (fuel + 1) ((entry x).toList ++ ',' :: cs) = some (x :: xs, rest)

theorem run_following {α : Type} {run : Nat → List Char → Option (List α × List Char)}
    {entry : α → String} {closing : Char} {x : α} {xs : List α}
    (hindent : ∀ fuel cs, run fuel ((indent (depth + 1)).toList ++ cs) = run fuel cs)
    (h : ∀ y ∈ x :: xs, ReadsEntry run entry closing depth y)
    (hf : 2 * ((entry x).toList ++ following closing depth (xs.map entry)).length ≤ fuel)
    (rest : List Char) :
    run fuel ((entry x).toList ++ (following closing depth (xs.map entry) ++ rest)) =
      some (x :: xs, rest) := by
  induction xs generalizing x fuel with
  | nil =>
    have hlength : 0 < (following closing depth []).length := by simp [following]
    rw [List.length_append, List.map_nil] at hf
    obtain ⟨fuel, rfl⟩ : ∃ n, fuel = n + 1 := ⟨fuel - 1, by omega⟩
    exact (h x (by simp)).last fuel rest (by omega)
  | cons y ys ih =>
    rw [List.map_cons, following_cons, List.length_append, List.length_cons,
      List.length_append] at hf
    obtain ⟨fuel, rfl⟩ : ∃ n, fuel = n + 1 := ⟨fuel - 1, by omega⟩
    have hnext := ih (x := y) (fun z hz => h z (List.mem_cons_of_mem x hz))
      (show _ ≤ fuel by omega)
    rw [← hindent] at hnext
    rw [List.map_cons, following_cons]
    simp only [List.cons_append, List.append_assoc]
    exact (h x (by simp)).more fuel _ _ rest (by omega) hnext

theorem readsEntry_item (h : Reads (depth + 1) v) :
    ReadsEntry items (prettyAt (depth + 1)) ']' depth v where
  last fuel rest hf := by
    have hclose := skipBlanks_following_nil ']' (.inl rfl) depth rest
    rw [items, h fuel _ hf (ends_following ']' depth [] rest)]
    simp [hclose]
  more fuel cs vs rest hf hcs := by
    rw [items, h fuel _ hf (ends_comma cs)]
    simp [skipBlanks_comma, hcs]

theorem members_prettyMember (m : String × Json) (depth fuel : Nat) (after : List Char) :
    members (fuel + 1) ((prettyMember depth m).toList ++ after) = (do
      let (v, rest) ← value fuel ((m.2.prettyAt depth).toList ++ after)
      match skipBlanks rest with
      | ',' :: rest =>
        let (ms, rest) ← members fuel rest
        some ((m.1, v) :: ms, rest)
      | '\x7d' :: rest => some ([(m.1, v)], rest)
      | _ => none) := by
  have htext : (prettyMember depth m).toList ++ after =
      '\x22' :: (m.1.toList.flatMap escapeChar ++
        '\x22' :: ':' :: ([' '] ++ ((m.2.prettyAt depth).toList ++ after))) := by
    simp [prettyMember, toList_quote]
  have hquote (cs : List Char) : skipBlanks ('\x22' :: cs) = '\x22' :: cs := rfl
  have hcolon (cs : List Char) : skipBlanks (':' :: cs) = ':' :: cs := rfl
  have hblank : skipBlanks ([' '] ++ ((m.2.prettyAt depth).toList ++ after)) =
      skipBlanks ((m.2.prettyAt depth).toList ++ after) := skipBlanks_append (by simp) _
  rw [htext, members, hquote]
  simp only [quoted_escaped, Option.bind_eq_bind, Option.bind_some, hcolon]
  exact congrArg (Option.bind · _) (value_congr hblank fuel)

theorem length_prettyMember (depth : Nat) (m : String × Json) :
    (m.2.prettyAt depth).toList.length ≤ (prettyMember depth m).toList.length := by
  rw [prettyMember, String.toList_append, List.length_append]
  omega

theorem readsEntry_member {m : String × Json} (h : Reads (depth + 1) m.2) :
    ReadsEntry members (prettyMember (depth + 1)) '\x7d' depth m where
  last fuel rest hf := by
    have hvalue := length_prettyMember (depth + 1) m
    have hclose := skipBlanks_following_nil '\x7d' (.inr rfl) depth rest
    rw [members_prettyMember, h fuel _ (by omega) (ends_following '\x7d' depth [] rest)]
    simp [hclose]
  more fuel cs ms rest hf hcs := by
    have hvalue := length_prettyMember (depth + 1) m
    rw [members_prettyMember, h fuel _ (by omega) (ends_comma cs)]
    simp [skipBlanks_comma, hcs]

theorem value_of_number {c : Char} (hc : c.isDigit = true ∨ c = '-')
    (hs : skipBlanks cs = c :: rest) : value (fuel + 1) cs = number? (c :: rest) := by
  have hne : c ≠ '\x22' ∧ c ≠ '[' ∧ c ≠ '\x7b' ∧ c ≠ 'n' ∧ c ≠ 't' ∧ c ≠ 'f' := by
    refine ⟨?_, ?_, ?_, ?_, ?_, ?_⟩ <;> rintro rfl <;> exact absurd hc (by decide)
  rw [value, hs]
  split
  case h_8 => rfl
  all_goals simp_all

theorem value_toString (n : Int) (tail : List Char) :
    value (fuel + 1) ((toString n).toList ++ tail) = number? ((toString n).toList ++ tail) := by
  have hopens := ((opens_toString n).append tail).skipBlanks
  obtain ⟨c, cs, htext, hc⟩ := exists_toString_eq_cons n
  rw [htext, List.cons_append] at hopens ⊢
  exact value_of_number hc hopens

theorem reads_of_succ (h : ∀ fuel rest, Ends rest →
    value (fuel + 1) ((v.prettyAt depth).toList ++ rest) = some (v, rest)) : Reads depth v := by
  intro fuel rest hf hr
  obtain ⟨c, cs, hcs, -⟩ := opens_prettyAt depth v
  rw [hcs, List.length_cons] at hf
  obtain ⟨fuel, rfl⟩ : ∃ n, fuel = n + 1 := ⟨fuel - 1, by omega⟩
  exact h fuel rest hr

theorem value_bracket_entry (h : Opens cs) :
    value (fuel + 1) ('[' :: ((indent depth).toList ++ cs)) =
      (items fuel ((indent depth).toList ++ cs)).map fun r => (.arr r.1, r.2) := by
  have hbracket (cs : List Char) : skipBlanks ('[' :: cs) = '[' :: cs := rfl
  rw [value, hbracket, items_congr (skipBlanks_indent depth cs)]
  simp only [skipBlanks_indent, h.skipBlanks]
  obtain ⟨c, rest, rfl, hc⟩ := h
  split
  · simp_all
  · rfl

theorem value_brace_entry (h : Opens cs) :
    value (fuel + 1) ('\x7b' :: ((indent depth).toList ++ cs)) =
      (members fuel ((indent depth).toList ++ cs)).map fun r => (.obj r.1, r.2) := by
  have hbrace (cs : List Char) : skipBlanks ('\x7b' :: cs) = '\x7b' :: cs := rfl
  rw [value, hbrace, members_congr (skipBlanks_indent depth cs)]
  simp only [skipBlanks_indent, h.skipBlanks]
  obtain ⟨c, rest, rfl, hc⟩ := h
  split
  · simp_all
  · rfl

theorem reads_block {α : Type} {run : Nat → List Char → Option (List α × List Char)}
    {entry : α → String} {opening closing : Char} {x : α} {xs : List α} {wrap : List α → Json}
    (htext : (prettyAt depth (wrap (x :: xs))).toList =
      opening :: ((indent (depth + 1)).toList ++
        ((entry x).toList ++ following closing depth (xs.map entry))))
    (hopens : Opens (entry x).toList)
    (hvalue : ∀ fuel cs, Opens cs →
      value (fuel + 1) (opening :: ((indent (depth + 1)).toList ++ cs)) =
        (run fuel ((indent (depth + 1)).toList ++ cs)).map fun r => (wrap r.1, r.2))
    (hindent : ∀ fuel cs, run fuel ((indent (depth + 1)).toList ++ cs) = run fuel cs)
    (h : ∀ y ∈ x :: xs, ReadsEntry run entry closing depth y) : Reads depth (wrap (x :: xs)) := by
  intro fuel rest hf _
  rw [htext, List.length_cons, List.length_append] at hf
  obtain ⟨fuel, rfl⟩ : ∃ n, fuel = n + 1 := ⟨fuel - 1, by omega⟩
  have hrun := run_following hindent h (show _ ≤ fuel by omega) rest
  rw [htext, List.cons_append, List.append_assoc, List.append_assoc,
    hvalue fuel _ (hopens.append _), hindent, hrun]
  rfl

theorem reads_arr (h : ∀ v ∈ vs, Reads (depth + 1) v) : Reads depth (.arr vs) := by
  cases vs with
  | nil => exact reads_of_succ fun fuel rest _ => by simp [prettyAt, scalar, value, skipBlanks]
  | cons v vs =>
    have htext : (prettyAt depth (.arr (v :: vs))).toList = _ := toList_block '[' ']' depth _ _
    rw [prettyItems_eq] at htext
    exact reads_block htext (opens_prettyAt (depth + 1) v) (fun _ _ hcs => value_bracket_entry hcs)
      (fun fuel cs => items_congr (skipBlanks_indent _ cs) fuel)
      fun w hw => readsEntry_item (h w hw)

theorem reads_obj (h : ∀ m ∈ ms, Reads (depth + 1) m.2) : Reads depth (.obj ms) := by
  cases ms with
  | nil => exact reads_of_succ fun fuel rest _ => by simp [prettyAt, scalar, value, skipBlanks]
  | cons m ms =>
    have htext : (prettyAt depth (.obj (m :: ms))).toList = _ :=
      toList_block '\x7b' '\x7d' depth (prettyMember (depth + 1) m) _
    rw [prettyMembers_eq] at htext
    have hopens : Opens (prettyMember (depth + 1) m).toList := by
      rw [prettyMember, String.append_assoc, String.toList_append]
      exact (opens_quote m.1).append _
    exact reads_block htext hopens (fun _ _ hcs => value_brace_entry hcs)
      (fun fuel cs => members_congr (skipBlanks_indent _ cs) fuel)
      fun n hn => readsEntry_member (h n hn)

theorem reads (v : Json) (depth : Nat) : Reads depth v := by
  cases v with
  | arr vs => exact reads_arr fun v hv => reads v (depth + 1)
  | obj ms => exact reads_obj fun m hm => reads m.2 (depth + 1)
  | null =>
    refine reads_of_succ fun fuel rest _ => ?_
    simp [prettyAt, scalar, value, skipBlanks, keyword?]
  | bool b =>
    refine reads_of_succ fun fuel rest _ => ?_
    cases b <;> simp [prettyAt, scalar, value, skipBlanks, keyword?]
  | int n =>
    exact reads_of_succ fun fuel rest hr => (value_toString n rest).trans (number?_int n hr)
  | real m e =>
    refine reads_of_succ fun fuel rest hr => ?_
    have htext : (prettyAt depth (.real m e)).toList = _ := toList_real m e
    have hread := number?_real m e hr
    rw [toList_real, List.append_assoc] at hread
    rw [htext, List.append_assoc, value_toString]
    exact hread
  | str s =>
    refine reads_of_succ fun fuel rest _ => ?_
    have hquote (cs : List Char) : skipBlanks ('\x22' :: cs) = '\x22' :: cs := rfl
    change value (fuel + 1) ((quote s).toList ++ rest) = _
    rw [toList_quote, List.cons_append, List.append_assoc, value, hquote]
    simp [quoted_escaped]
termination_by sizeOf v
decreasing_by
  · have := List.sizeOf_lt_of_mem hv
    simp
    omega
  · have := List.sizeOf_lt_of_mem hm
    cases m
    simp_all
    omega

theorem parse?_pretty (v : Json) {after : String} (ha : after = "" ∨ after = "\n") :
    parse? (v.pretty ++ after) = some v := by
  have hends : Ends after.toList := by
    rcases ha with rfl | rfl <;> simp [Ends]
  have hblank : skipBlanks after.toList = [] := by
    rcases ha with rfl | rfl <;> rfl
  have hfuel : 2 * (v.prettyAt 0).toList.length ≤
      2 * ((v.prettyAt 0).toList ++ after.toList).length + 2 := by
    rw [List.length_append]
    omega
  have hread := reads v 0 _ after.toList hfuel hends
  rw [parse?, String.toList_append, pretty]
  simp only [hread, hblank]
  rfl

end SqlTables.Json
