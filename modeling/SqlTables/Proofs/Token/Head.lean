import SqlTables.Proofs.Source.Literals

/-! What a token is made of. A token begun by a quote is a literal as read from the text; any other
holds no quote, and holds a semicolon only if it is one. -/

namespace SqlTables

def TokenKind.isLiteral : TokenKind → Bool
  | .quotedName _ | .string _ => true
  | _ => false

namespace Scan

open Source (isQuote closing? Unquoted)

variable {c : Char} {cs ds rest text : List Char} {t : Head}

theorem isGap_of_isQuote (h : isQuote c = true) : isGap c = false := by
  rcases Source.isQuote_iff.1 h with rfl | rfl | rfl <;> decide

theorem head?_of_quote (hc : isQuote c = true) (h : head? c rest = some t) :
    t.kind.isLiteral = true ∧ ∃ inside, closing? (c = '\x27') c rest = some (inside, t.rest) ∧
      t.lexeme = c :: inside ++ [c] := by
  rw [head?, if_pos hc, literal?] at h
  obtain ⟨⟨inside, after⟩, hclose, rfl⟩ := Option.map_eq_some_iff.1 h
  refine ⟨?_, inside, hclose, rfl⟩
  dsimp only
  split <;> rfl

def inNumber (c : Char) : Bool :=
  c.isDigit || c = '.' || c = 'e' || c = 'E' || c = '+' || c = '-'

theorem isDigit_of_digits? (h : Text.digits? cs = some (ds, rest)) :
    ∀ c ∈ ds, c.isDigit = true := by
  unfold Text.digits? at h
  split at h
  · simp at h
  · rename_i d ds' hd
    simp only [Option.some.injEq, Prod.mk.injEq] at h
    rw [← h.1, ← hd]
    exact fun _ => List.mem_takeWhile_imp

theorem inNumber_of_fraction? (h : fraction? cs = some (ds, rest)) :
    ∀ c ∈ ds, inNumber c = true := by
  unfold fraction? at h
  split at h
  · obtain ⟨⟨ds', r⟩, hd, he⟩ := Option.map_eq_some_iff.1 h
    simp only [Prod.mk.injEq] at he
    obtain ⟨rfl, rfl⟩ := he
    have hdigits := isDigit_of_digits? hd
    exact List.forall_mem_cons.2 ⟨by decide, fun c hc => by simp [inNumber, hdigits c hc]⟩
  · simp at h

theorem inNumber_of_exponent? (h : exponent? cs = some (ds, rest)) :
    ∀ c ∈ ds, inNumber c = true := by
  unfold exponent? at h
  split at h
  · split at h
    · rename_i e s tail he
      split at h
      all_goals
        obtain ⟨⟨ds', r⟩, hd, heq⟩ := Option.map_eq_some_iff.1 h
        simp only [Prod.mk.injEq] at heq
        obtain ⟨rfl, rfl⟩ := heq
        have hdigits := isDigit_of_digits? hd
        intro c hc
        have := hdigits c
        simp only [List.mem_cons] at hc
        grind [inNumber]
    · simp at h
  · simp at h

theorem extend_induction {P : List Char → Prop} (happend : ∀ {as bs}, P as → P bs → P (as ++ bs))
    (part? : List Char → Option (List Char × List Char))
    (hp : ∀ {cs ds rest}, part? cs = some (ds, rest) → P ds) {found : List Char × List Char}
    (hf : P found.1) : P (extend part? found).1 := by
  unfold extend
  split
  · rename_i h
    exact happend hf (hp h)
  · exact hf

theorem magnitude?_induction {P : List Char → Prop}
    (happend : ∀ {as bs}, P as → P bs → P (as ++ bs))
    (hdigits : ∀ {cs ds rest}, Text.digits? cs = some (ds, rest) → P ds)
    (hfraction : ∀ {cs ds rest}, fraction? cs = some (ds, rest) → P ds)
    (hexponent : ∀ {cs ds rest}, exponent? cs = some (ds, rest) → P ds)
    (h : magnitude? cs = some (text, rest)) : P text := by
  obtain ⟨found, hd, he⟩ := Option.map_eq_some_iff.1 h
  have hwhole := extend_induction happend fraction? hfraction (hdigits hd)
  have hall := extend_induction happend exponent? hexponent hwhole
  rwa [he] at hall

theorem inNumber_of_magnitude? (h : magnitude? cs = some (text, rest)) :
    ∀ c ∈ text, inNumber c = true := by
  refine magnitude?_induction (P := fun text => ∀ c ∈ text, inNumber c = true) ?_ ?_
    inNumber_of_fraction? inNumber_of_exponent? h
  · intro as bs ha hb c hc
    rcases List.mem_append.1 hc with hc | hc
    · exact ha c hc
    · exact hb c hc
  · intro cs ds rest hd c hc
    simp [inNumber, isDigit_of_digits? hd c hc]

theorem inNumber_of_number? (h : number? cs = some (text, rest)) :
    ∀ c ∈ text, inNumber c = true := by
  unfold number? at h
  split at h
  · obtain ⟨⟨ds, r⟩, hd, he⟩ := Option.map_eq_some_iff.1 h
    simp only [Prod.mk.injEq] at he
    obtain ⟨rfl, rfl⟩ := he
    have hmagnitude := inNumber_of_magnitude? hd
    exact List.forall_mem_cons.2 ⟨by decide, hmagnitude⟩
  · exact inNumber_of_magnitude? h

theorem not_special_of_class {p : Char → Bool}
    (hq : p '\x27' = false ∧ p '\x22' = false ∧ p '\x60' = false) (hs : p ';' = false)
    (h : p c = true) :
    isQuote c = false ∧ c ≠ ';' := by
  refine ⟨Source.not_quote_of_class hq h, ?_⟩
  rintro rfl
  exact absurd h (by simp [hs])

theorem head?_of_not_quote (hc : isQuote c = false) (h : head? c rest = some t) :
    t.kind.isLiteral = false ∧ Unquoted t.lexeme ∧
      (';' ∈ t.lexeme → t.kind = .semicolon ∧ t.lexeme = [';']) := by
  rw [head?, if_neg (by simp [hc])] at h
  split at h
  · rename_i text after hn
    simp only [Option.some.injEq] at h
    subst h
    have hall (d : Char) (hd : d ∈ text) := not_special_of_class (by decide) (by decide)
      (inNumber_of_number? hn d hd)
    exact ⟨rfl, fun d hd => (hall d hd).1, fun hs => absurd rfl (hall _ hs).2⟩
  · split at h
    · rename_i hb
      simp only [Option.some.injEq] at h
      subst h
      have hall : ∀ d ∈ c :: rest.takeWhile continuesWord, isQuote d = false ∧ d ≠ ';' := by
        intro d hd
        apply not_special_of_class (p := continuesWord) (by decide) (by decide)
        rcases List.mem_cons.1 hd with rfl | hd
        · simp [continuesWord, hb]
        · exact List.mem_takeWhile_imp hd
      exact ⟨rfl, fun d hd => (hall d hd).1, fun hs => absurd rfl (hall _ hs).2⟩
    · split at h
      · simp only [Option.some.injEq] at h
        subst h
        have hcolon : isQuote ':' = false := by decide
        exact ⟨rfl, by simp [Unquoted, hcolon], by simp⟩
      · simp only [Option.some.injEq] at h
        subst h
        refine ⟨?_, ?_, ?_⟩
        · dsimp only
          unfold punctuation
          split <;> rfl
        · simpa [Unquoted] using hc
        · intro hs
          rw [← List.mem_singleton.1 hs]
          exact ⟨rfl, rfl⟩

end Scan

end SqlTables
