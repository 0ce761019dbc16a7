import SqlTables.Proofs.Script.Terminator

/-! Readers with more tokens after what they read. As long as the tokens that follow do not go on
with it, what is read stays the same. -/

namespace SqlTables

open Declaration

variable {ts us rest : List Token} {opening : Token} {name : String}

namespace Declaration

theorem keyword?_cons (w : String) (t : Token) (ts : List Token) :
    keyword? w (t :: ts) = if t.isKeyword w then some ts else none := rfl

theorem keyword?_append (h : keyword? w rest = none) (ts : List Token) :
    keyword? w (ts ++ rest) = (keyword? w ts).map (· ++ rest) := by
  cases ts with
  | nil => exact h
  | cons t ts =>
    rw [List.cons_append, keyword?_cons, keyword?_cons]
    split_ifs <;> rfl

theorem keywords?_append {ws : List String} (h : ∀ w ∈ ws, keyword? w rest = none)
    (ts : List Token) : keywords? ws (ts ++ rest) = (keywords? ws ts).map (· ++ rest) := by
  induction ws generalizing ts with
  | nil => rfl
  | cons w ws ih =>
    rw [List.forall_mem_cons] at h
    rw [keywords?, keywords?, keyword?_append h.1]
    cases keyword? w ts with
    | none => rfl
    | some after => exact ih h.2 after

theorem skipOneOf_append {choices : List (List String)}
    (h : ∀ ws ∈ choices, ∀ w ∈ ws, keyword? w rest = none) (ts : List Token) :
    skipOneOf choices (ts ++ rest) = skipOneOf choices ts ++ rest := by
  induction choices with
  | nil => rfl
  | cons ws choices ih =>
    rw [List.forall_mem_cons] at h
    rw [skipOneOf, skipOneOf, keywords?_append h.1]
    cases keywords? ws ts with
    | none => exact ih h.2
    | some after => rfl

theorem closeGroup?_append_rest {depth : Nat} {inside : List Token} {closing : Token}
    (h : closeGroup? depth ts = some (inside, closing, us)) (rest : List Token) :
    closeGroup? depth (ts ++ rest) = some (inside, closing, us ++ rest) := by
  induction ts generalizing depth inside with
  | nil => simp [closeGroup?] at h
  | cons t ts ih =>
    rw [List.cons_append]
    obtain ⟨-, ⟨rfl, hclose⟩ | ⟨depth', inside', rfl, hts, hstep⟩⟩ := closeGroup?_cons_cases h
    · rw [hclose] at h ⊢
      cases h
      rfl
    · rw [hstep, ih hts]
      rfl

theorem group?_append_rest {g : Group} (h : group? ts = some (g, us)) (rest : List Token) :
    group? (ts ++ rest) = some (g, us ++ rest) := by
  obtain ⟨ts, rfl, hk, hi⟩ := group?_eq_some_iff.1 h
  exact group?_eq_some_iff.2 ⟨ts ++ rest, rfl, hk, closeGroup?_append_rest hi rest⟩

theorem keyword?_of_leftParen (ho : opening.kind = .leftParen) (w : String) (ts : List Token) :
    keyword? w (opening :: ts) = none := by
  simp [keyword?, Token.isKeyword, ho]

theorem qualifiedName?_append (ho : opening.kind = .leftParen) (ts rest : List Token) :
    qualifiedName? (ts ++ opening :: rest) =
      (qualifiedName? ts).map fun (name, after) => (name, after ++ opening :: rest) := by
  have hname : opening.name? = none := by simp [Token.name?, ho]
  fun_induction qualifiedName? ts with
  | case1 => cases rest <;> simp [qualifiedName?, hname]
  | case2 t => cases ht : t.name? <;> simp [qualifiedName?, ht, ho]
  | case3 t d ts hn => simp [qualifiedName?, hn]
  | case4 t d ts n hn hd ih => simp [qualifiedName?, hn, hd, ih]
  | case5 t d ts n hn hd => simp [qualifiedName?, hn, hd]

end Declaration

namespace Draft

theorem headerAfter?_append_rest (h : headerAfter? ts = some (name, opening, rest)) :
    ∃ before, ts = before ++ opening :: rest ∧ opening.kind = .leftParen ∧
      ∀ rest', headerAfter? (before ++ opening :: rest') = some (name, opening, rest') := by
  obtain ⟨⟨_, after⟩, hname, h⟩ := Option.bind_eq_some_iff.1 h
  cases after with
  | nil => cases h
  | cons t after =>
    dsimp only at h
    split_ifs at h with ho
    cases h
    have hskip (ts rest : List Token) :
        skipOneOf [["IF", "NOT", "EXISTS"]] (ts ++ opening :: rest) =
          skipOneOf [["IF", "NOT", "EXISTS"]] ts ++ opening :: rest :=
      skipOneOf_append (fun _ _ w _ => keyword?_of_leftParen ho w rest) ts
    obtain ⟨skipped, -, hts⟩ := skipOneOf_skips [["IF", "NOT", "EXISTS"]] ts
    obtain ⟨read, -, hread⟩ := (qualifiedName?_consumes hname).skips
    rw [hread] at hts hname
    have hbefore : skipOneOf [["IF", "NOT", "EXISTS"]] (skipped ++ read) = read := by
      have hsame := hskip (skipped ++ read) rest
      rwa [List.append_assoc, ← hts, hread, List.append_left_inj, eq_comm] at hsame
    have hwhole : qualifiedName? read = some (name, []) := by
      rw [qualifiedName?_append ho] at hname
      obtain ⟨⟨n, left⟩, hn, he⟩ := Option.map_eq_some_iff.1 hname
      rw [Prod.mk.injEq, List.append_left_eq_self] at he
      rw [hn, he.1, he.2]
    refine ⟨skipped ++ read, by rw [hts, List.append_assoc], ho, fun rest' => ?_⟩
    rw [headerAfter?, hskip, hbefore, qualifiedName?_append ho, hwhole]
    simp [ho]

theorem header?_append_rest (h : header? ts = some (name, opening, rest)) :
    ∃ before, ts = before ++ opening :: rest ∧ opening.kind = .leftParen ∧
      ∀ rest', header? (before ++ opening :: rest') = some (name, opening, rest') := by
  obtain ⟨found, hfound, -⟩ := Option.bind_eq_some_iff.1 h
  rw [header?_eq_headerAfter? hfound] at h
  obtain ⟨t, u, read, rfl, hread⟩ := afterCreateTable?_append_rest hfound
  obtain ⟨before, rfl, ho, hbefore⟩ := headerAfter?_append_rest h
  refine ⟨t :: u :: read ++ before, by simp, ho, fun rest' => ?_⟩
  rw [List.append_assoc, header?_eq_headerAfter? (hread _), hbefore]

end Draft

end SqlTables
