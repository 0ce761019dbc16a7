import SqlTables.Json.Reader
import SqlTables.Json.Writer
import SqlTables.Proofs.Text.Writing

/-! Strings and numbers of a JSON text are read back from what is written for them. -/

namespace SqlTables.Json

open Reader

variable {fuel : Nat} {rest : List Char}

def Ends (rest : List Char) : Prop := ∀ c ∈ rest.head?, c = ',' ∨ c = '\n'

theorem ends_comma (cs : List Char) : Ends (',' :: cs) := by simp [Ends]

theorem ends_newline (cs : List Char) : Ends ('\n' :: cs) := by simp [Ends]

theorem Ends.isDigit_eq_false (h : Ends rest) : ∀ c ∈ rest.head?, c.isDigit = false := by
  intro c hc
  rcases h c hc with rfl | rfl <;> rfl

theorem hexValue?_hexDigit : ∀ n < 16, hexValue? (hexDigit n) = some n := by decide

theorem escape?_hex {c : Char} (hc : c.toNat < 32) (rest : List Char) :
    escape? ('u' :: '0' :: '0' :: hexDigit (c.toNat / 16) :: hexDigit (c.toNat % 16) :: rest) =
      some (c, rest) := by
  have hhigh := hexValue?_hexDigit (c.toNat / 16) (by omega)
  have hlow := hexValue?_hexDigit (c.toNat % 16) (by omega)
  have hzero : hexValue? '0' = some 0 := rfl
  have hvalue : c.toNat / 16 * 16 + c.toNat % 16 = c.toNat := by omega
  have hscalar : c.toNat < 55296 := by omega
  simp [escape?, unicodeEscape?, hex4?, hhigh, hlow, hzero, hvalue, hscalar]

theorem escapeChar_cases (c : Char) :
    (escapeChar c = [c] ∧ c ≠ '\x22' ∧ c ≠ '\\' ∧ 32 ≤ c.toNat) ∨
      ∃ escape, escapeChar c = '\\' :: escape ∧
        ∀ rest, escape? (escape ++ rest) = some (c, rest) := by
  unfold escapeChar
  split_ifs with hquote hslash hn hr ht hb hf hcontrol
  case pos => exact .inr ⟨['\x22'], rfl, fun _ => by rw [hquote]; rfl⟩
  case pos => exact .inr ⟨['\\'], rfl, fun _ => by rw [hslash]; rfl⟩
  case pos => exact .inr ⟨['n'], rfl, fun _ => by rw [hn]; rfl⟩
  case pos => exact .inr ⟨['r'], rfl, fun _ => by rw [hr]; rfl⟩
  case pos => exact .inr ⟨['t'], rfl, fun _ => by rw [ht]; rfl⟩
  case pos => exact .inr ⟨['b'], rfl, fun _ => by rw [hb]; rfl⟩
  case pos => exact .inr ⟨['f'], rfl, fun _ => by rw [hf]; rfl⟩
  case pos => exact .inr ⟨_, rfl, escape?_hex hcontrol⟩
  case neg => exact .inl ⟨rfl, hquote, hslash, Nat.le_of_not_lt hcontrol⟩

theorem stringBody_escapeChar (c : Char) (fuel : Nat) (rest : List Char) :
    stringBody (fuel + 1) (escapeChar c ++ rest) =
      (stringBody fuel rest).map fun (body, after) => (c :: body, after) := by
  rcases escapeChar_cases c with ⟨hc, hquote, hslash, hcontrol⟩ | ⟨escape, hc, hescape⟩
  · rw [hc, List.singleton_append, stringBody]
    · rw [if_neg (by omega)]
      cases stringBody fuel rest <;> rfl
    · simpa using hquote
    · simpa using hslash
  · rw [hc, List.cons_append, stringBody, hescape]
    cases hbody : stringBody fuel rest <;> simp [hbody]

theorem stringBody_escaped (cs : List Char) (hf : cs.length < fuel) (rest : List Char) :
    stringBody fuel (cs.flatMap escapeChar ++ '\x22' :: rest) = some (cs, rest) := by
  induction cs generalizing fuel with
  | nil =>
    obtain ⟨fuel, rfl⟩ := Nat.exists_eq_add_of_lt hf
    simp [stringBody]
  | cons c cs ih =>
    obtain ⟨fuel, rfl⟩ : ∃ n, fuel = n + 1 := ⟨fuel - 1, by omega⟩
    rw [List.length_cons] at hf
    rw [List.flatMap_cons, List.append_assoc, stringBody_escapeChar, ih (by omega)]
    rfl

theorem length_le_flatMap_escapeChar (cs : List Char) :
    cs.length ≤ (cs.flatMap escapeChar).length := by
  induction cs with
  | nil => simp
  | cons c cs ih =>
    have hc : 1 ≤ (escapeChar c).length := by
      rcases escapeChar_cases c with ⟨hc, -⟩ | ⟨escape, hc, -⟩ <;> simp [hc]
    rw [List.flatMap_cons, List.length_append, List.length_cons]
    omega

theorem quoted_escaped (s : String) (rest : List Char) :
    quoted (s.toList.flatMap escapeChar ++ '\x22' :: rest) = some (s, rest) := by
  have hlength := length_le_flatMap_escapeChar s.toList
  rw [quoted, stringBody_escaped]
  · simp
  · rw [List.length_append]
    omega

theorem toList_quote (s : String) :
    (quote s).toList = '\x22' :: (s.toList.flatMap escapeChar ++ ['\x22']) := by
  rw [quote, String.toList_ofList, List.cons_append]

theorem magnitude?_toString (n : Nat) (hr : ∀ c ∈ rest.head?, c.isDigit = false) :
    magnitude? ((toString n).toList ++ rest) = some ((toString n).toList, rest) := by
  unfold magnitude?
  split
  · rename_i after h
    have hhead : (toString n).toList.head? = some '0' := by
      rw [← List.head?_append_of_ne_nil _ (toString_ne_nil n), h]
      rfl
    obtain rfl := eq_zero_of_head?_toString hhead
    obtain rfl : rest = after := by simpa using h
    have hdigit : (rest.head?.map Char.isDigit).getD false = false := by
      cases rest with
      | nil => rfl
      | cons c rest => exact hr c rfl
    rw [if_neg (by simp [hdigit])]
    rfl
  · exact digits?_append_of_isDigit (isDigit_toString n) (toString_ne_nil n) hr

theorem toList_toString_int (n : Int) :
    (0 ≤ n ∧ (toString n).toList = (toString n.natAbs).toList) ∨
      (n < 0 ∧ (toString n).toList = '-' :: (toString n.natAbs).toList) := by
  cases n with
  | ofNat n => exact .inl ⟨Int.natCast_nonneg n, rfl⟩
  | negSucc n =>
    refine .inr ⟨Int.negSucc_lt_zero n, ?_⟩
    change ("-" ++ toString (n + 1)).toList = _
    rw [String.toList_append]
    rfl

theorem exists_toString_eq_cons (n : Int) :
    ∃ c cs, (toString n).toList = c :: cs ∧ (c.isDigit = true ∨ c = '-') := by
  obtain ⟨c, cs, hcs⟩ := List.exists_cons_of_ne_nil (toString_ne_nil n.natAbs)
  rcases toList_toString_int n with ⟨_, htext⟩ | ⟨_, htext⟩
  · exact ⟨c, cs, htext.trans hcs, .inl (isDigit_toString n.natAbs c (hcs ▸ List.mem_cons_self))⟩
  · exact ⟨'-', _, htext, .inr rfl⟩

theorem toString_append_ne {c : Char} (hc : c.isDigit = false) (n : Nat) (after cs : List Char) :
    (toString n).toList ++ after ≠ c :: cs := by
  intro h
  apply head?_toString_ne hc n
  rw [← List.head?_append_of_ne_nil _ (toString_ne_nil n), h]
  rfl

theorem number?_toString (n : Int) {power : Option Int} {tail : List Char}
    (ht : ∀ c ∈ tail.head?, c.isDigit = false ∧ c ≠ '.')
    (hpower : exponent? tail = some (power, rest)) :
    number? ((toString n).toList ++ tail) =
      some (if power.isNone then .int n else .real n (power.getD 0), rest) := by
  have hsize := magnitude?_toString n.natAbs fun c hc => (ht c hc).1
  have hfraction : fraction? tail = some ([], tail) := by
    cases tail with
    | nil => rfl
    | cons c tail =>
      have hdot := (ht c rfl).2
      simp [fraction?, hdot]
  have hvalue := digitsValue_toString n.natAbs
  have hminus : ∀ cs, (toString n.natAbs).toList ++ tail ≠ '-' :: cs :=
    toString_append_ne (by decide) n.natAbs tail
  rcases toList_toString_int n with ⟨hn, htext⟩ | ⟨hn, htext⟩
  · have habs : (n.natAbs : Int) = n := Int.natAbs_of_nonneg hn
    rw [htext, number?]
    · generalize (toString n.natAbs).toList = ds at hsize hvalue ⊢
      cases power <;> simp [hsize, hfraction, hpower, hvalue, habs]
    · exact hminus
  · have habs : (n.natAbs : Int) = -n := Int.ofNat_natAbs_of_nonpos hn.le
    have hne : n ≠ 0 := hn.ne
    rw [htext, List.cons_append, number?]
    generalize (toString n.natAbs).toList = ds at hsize hvalue ⊢
    cases power <;> simp [hsize, hfraction, hpower, hvalue, habs, hne]

theorem number?_int (n : Int) (hr : Ends rest) :
    number? ((toString n).toList ++ rest) = some (.int n, rest) := by
  have hexponent : exponent? rest = some (none, rest) := by
    cases rest with
    | nil => rfl
    | cons c rest => rcases hr c rfl with rfl | rfl <;> rfl
  have htail : ∀ c ∈ rest.head?, c.isDigit = false ∧ c ≠ '.' := by
    intro c hc
    rcases hr c hc with rfl | rfl <;> exact ⟨rfl, by decide⟩
  rw [number?_toString n htail hexponent]
  rfl

theorem exponent?_toString (e : Int) (hr : Ends rest) :
    exponent? ('e' :: ((toString e).toList ++ rest)) = some (some e, rest) := by
  have hdigits : exponentDigits? ((toString e.natAbs).toList ++ rest) = some (e.natAbs, rest) := by
    rw [exponentDigits?, digits?_append_of_isDigit (isDigit_toString _) (toString_ne_nil _)
      hr.isDigit_eq_false]
    simp only [Option.map_some, digitsValue_toString]
  rcases toList_toString_int e with ⟨he, htext⟩ | ⟨he, htext⟩
  · have habs : (e.natAbs : Int) = e := Int.natAbs_of_nonneg he
    have hminus := toString_append_ne (c := '-') (by decide) e.natAbs rest
    have hplus := toString_append_ne (c := '+') (by decide) e.natAbs rest
    rw [htext]
    generalize (toString e.natAbs).toList ++ rest = cs at hdigits hminus hplus ⊢
    rw [exponent?]
    · rw [hdigits]
      simp [habs]
    · exact hminus
    · exact hplus
  · have habs : (e.natAbs : Int) = -e := Int.ofNat_natAbs_of_nonpos he.le
    rw [htext, List.cons_append, exponent?, hdigits]
    simp [habs]

theorem toList_real (m e : Int) :
    (scalar (.real m e)).toList = (toString m).toList ++ 'e' :: (toString e).toList := by
  change (toString m ++ "e" ++ toString e).toList = _
  simp only [String.toList_append, List.append_assoc]
  rfl

theorem number?_real (m e : Int) (hr : Ends rest) :
    number? ((scalar (.real m e)).toList ++ rest) = some (.real m e, rest) := by
  have htail : ∀ c ∈ ('e' :: ((toString e).toList ++ rest)).head?,
      c.isDigit = false ∧ c ≠ '.' := by
    intro c hc
    cases hc
    exact ⟨rfl, by decide⟩
  rw [toList_real, List.append_assoc, List.cons_append,
    number?_toString m htail (exponent?_toString e hr)]
  rfl

end SqlTables.Json
