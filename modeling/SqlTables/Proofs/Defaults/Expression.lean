import SqlTables.Proofs.Relaid.Source
import SqlTables.Proofs.RoundTrip.Moved

/-! Defaults that are their own source text: numbers, words, literals with a prefix, groups and
calls. Any other default is a quoted text, which takes more room than its value. -/

namespace SqlTables

open Declaration Lexeme
open Text (Position)
open Token (Spelled extent sourceText)

variable {ws : List Lexeme} {w : Lexeme} {ts rest : List Token} {p : Position} {v : String}

/-- What a default may be besides a quoted text. -/
inductive Lexeme.Expression : List Lexeme → Prop where
  | number {w : Lexeme} {s : String} (hk : w.kind = .number s) (ht : w.text = s.toList) :
    Expression [w]
  | word {w : Lexeme} {s : String} (hk : w.kind = .word s) : Expression [w]
  | literal {w u : Lexeme} {s value : String} (hw : w.kind = .word s)
    (hu : u.kind = .string value) (hg : u.gap = []) : Expression [w, u]
  | group {opening closing : Lexeme} {inside : List Lexeme} (ho : opening.kind = .leftParen)
    (hc : closing.kind = .rightParen) (hi : nesting? 0 (tokensAt .start inside) = some 0) :
    Expression (opening :: (inside ++ [closing]))
  | call {w opening closing : Lexeme} {s : String} {inside : List Lexeme} (hw : w.kind = .word s)
    (ho : opening.kind = .leftParen) (hc : closing.kind = .rightParen)
    (hi : nesting? 0 (tokensAt .start inside) = some 0) :
    Expression (w :: opening :: (inside ++ [closing]))

theorem Lexeme.Expression.withGap (h : Expression (w :: ws)) (gap : List Char) :
    Expression ({ w with gap := gap } :: ws) := by
  generalize hs : w :: ws = vs at h
  cases h with
  | number hk ht =>
    cases hs
    exact .number hk ht
  | word hk =>
    cases hs
    exact .word hk
  | literal hw hu hg =>
    cases hs
    exact .literal hw hu hg
  | group ho hc hi =>
    cases hs
    exact .group ho hc hi
  | call hw ho hc hi =>
    cases hs
    exact .call hw ho hc hi

theorem nesting?_inside (h : nesting? 0 (tokensAt .start ws) = some 0) (p : Position) :
    nesting? 0 (tokensAt p ws) = some 0 := by
  rw [← h]
  exact nesting?_congr (by rw [map_kind_tokensAt, map_kind_tokensAt]) 0

theorem tokensAt_parens (p : Position) (opening closing : Lexeme) (inside : List Lexeme) :
    ∃ q q', tokensAt p (opening :: (inside ++ [closing])) =
      opening.token p :: tokensAt q inside ++ [closing.token q'] := by
  rw [tokensAt_cons, tokensAt_append]
  exact ⟨_, _, rfl⟩

theorem Lexeme.Expression.enclosed (h : Expression ws) (p : Position) :
    Enclosed (tokensAt p ws) := by
  cases h with
  | number hk _ => exact enclosed_of_isPart (by simp [hk, TokenKind.isPart, TokenKind.isInner]) p
  | word hk => exact enclosed_of_isPart (by simp [hk, TokenKind.isPart, TokenKind.isInner]) p
  | literal hw hu _ =>
    exact enclosed_of_isPart (by simp [hw, hu, TokenKind.isPart, TokenKind.isInner]) p
  | @group opening closing inside ho hc hi =>
    obtain ⟨q, q', hs⟩ := tokensAt_parens p opening closing inside
    rw [hs]
    exact enclosed_group ho hc (nesting?_inside hi q)
  | @call w opening closing s inside hw ho hc hi =>
    obtain ⟨q, q', hs⟩ := tokensAt_parens (p.advance w.chars) opening closing inside
    rw [tokensAt_cons, hs]
    refine enclosed_cons ?_ ?_ (enclosed_group ho hc (nesting?_inside hi q))
    · simp [token, hw, TokenKind.isInner]
    · simp [token, hw]

theorem bareDefault?_of_leftParen {t : Token} (h : t.kind = .leftParen) (ts : List Token) :
    bareDefault? (t :: ts) = (group? (t :: ts)).map fun (g, rest) => (g.text, rest) := by
  simp [bareDefault?, h]

theorem bareDefault?_of_word {t : Token} {s : String} (h : t.kind = .word s) (ts : List Token) :
    bareDefault? (t :: ts) = (prefixedLiteral? (t :: ts)).or (call? (t :: ts)) := by
  simp [bareDefault?, h]

theorem Lexeme.Expression.bareDefault? (h : Expression ws) (p : Position) :
    bareDefault? (tokensAt p ws) = some (sourceText (tokensAt p ws), []) := by
  cases h with
  | @number w s hk ht => simp [Declaration.bareDefault?, token, hk, ht, sourceText]
  | @word w s hk =>
    simp [Declaration.bareDefault?, Declaration.prefixedLiteral?, Declaration.call?, token, hk,
      Token.name?, peekKind, sourceText]
  | @literal w u s value hw hu hg =>
    simp [Declaration.bareDefault?, Declaration.prefixedLiteral?, token, hw, hu, hg, sourceText]
  | @group opening closing inside ho hc hi =>
    obtain ⟨q, q', hs⟩ := tokensAt_parens p opening closing inside
    have hgroup := @group?_append _ (opening.token p) (closing.token q') ho hc
      (nesting?_inside hi q) []
    rw [hs, List.cons_append, bareDefault?_of_leftParen ho, ← List.cons_append, hgroup]
    rfl
  | @call w opening closing s inside hw ho hc hi =>
    obtain ⟨q, q', hs⟩ := tokensAt_parens (p.advance w.chars) opening closing inside
    have hgroup := @group?_append _ (opening.token (p.advance w.chars)) (closing.token q') ho hc
      (nesting?_inside hi q) []
    have hliteral (ts : List Token) :
        prefixedLiteral? (w.token p :: opening.token (p.advance w.chars) :: ts) = none := by
      simp [Declaration.prefixedLiteral?, token, hw, ho]
    have hname : (w.token p).name? = some s := by simp [Token.name?, token, hw]
    rw [tokensAt_cons, hs, @bareDefault?_of_word (w.token p) s hw, List.cons_append, hliteral,
      Option.none_or, Declaration.call?, hname, ← List.cons_append, hgroup]
    simp [peekKind, token, ho]

theorem nesting?_of_closeGroup? {depth : Nat} {inside : List Token} {closing : Token}
    (h : closeGroup? depth ts = some (inside, closing, rest))
    (hs : ∀ t ∈ ts, t.kind ≠ .semicolon) :
    nesting? depth inside = some 0 ∧ closing.kind = .rightParen := by
  induction ts generalizing depth inside with
  | nil => simp [closeGroup?] at h
  | cons t ts ih =>
    rw [List.forall_mem_cons] at hs
    unfold closeGroup? at h
    split_ifs at h with heof hleft hright
    · obtain ⟨⟨i, c, r⟩, hi, he⟩ := Option.map_eq_some_iff.1 h
      cases he
      have hrest := ih hi hs.2
      simp [nesting?, hleft, hrest]
    · cases depth with
      | zero =>
        cases h
        exact ⟨rfl, hright⟩
      | succ depth =>
        obtain ⟨⟨i, c, r⟩, hi, he⟩ := Option.map_eq_some_iff.1 h
        cases he
        have hrest := ih hi hs.2
        simp [nesting?, hright, hrest]
    · obtain ⟨⟨i, c, r⟩, hi, he⟩ := Option.map_eq_some_iff.1 h
      cases he
      have hrest := ih hi hs.2
      simp [nesting?, heof, hleft, hright, hs.1, hrest]

theorem nesting?_of_group? {g : Group} (h : group? ts = some (g, rest))
    (hs : ∀ t ∈ ts, t.kind ≠ .semicolon) :
    nesting? 0 (tokensAt .start (g.inside.map ofToken)) = some 0 ∧
      g.closing.kind = .rightParen := by
  obtain ⟨us, rfl, hk, hi⟩ := group?_eq_some_iff.1 h
  obtain ⟨hinside, hclosing⟩ := nesting?_of_closeGroup? hi fun t ht =>
    hs t (List.mem_cons_of_mem _ ht)
  refine ⟨?_, hclosing⟩
  rw [← hinside]
  refine nesting?_congr ?_ 0
  rw [map_kind_tokensAt, List.map_map]
  rfl

theorem expression_of_prefixedLiteral? (h : prefixedLiteral? ts = some (v, rest)) :
    ∃ es, ts = es ++ rest ∧ Expression (es.map ofToken) ∧ v = sourceText es := by
  unfold prefixedLiteral? at h
  split at h
  · rename_i t u tail
    split at h
    · rename_i s value ht hu
      split_ifs at h with hgap
      cases h
      refine ⟨[t, u], rfl, .literal ht hu (by simp [ofToken, hgap]), ?_⟩
      simp [sourceText, hgap]
    · cases h
  · cases h

theorem expression_of_call? {t : Token} {s : String} (ht : t.kind = .word s)
    (h : call? (t :: ts) = some (v, rest)) (hs : ∀ u ∈ t :: ts, u.kind ≠ .semicolon) :
    ∃ es, t :: ts = es ++ rest ∧ Expression (es.map ofToken) ∧ v = sourceText es := by
  have hname : t.name? = some s := by simp [Token.name?, ht]
  rw [call?, hname] at h
  simp only [Option.bind_eq_bind, Option.bind_some] at h
  split_ifs at h
  · obtain ⟨⟨g, r⟩, hg, he⟩ := Option.bind_eq_some_iff.1 h
    cases he
    obtain ⟨happ, ho⟩ := eq_append_of_group? hg
    obtain ⟨hi, hc⟩ := nesting?_of_group? hg (List.forall_mem_cons.1 hs).2
    have hcall : Expression (ofToken t :: ofToken g.opening ::
        (g.inside.map ofToken ++ [ofToken g.closing])) := .call ht ho hc hi
    exact ⟨t :: g.opening :: g.inside ++ [g.closing], by rw [happ]; rfl, by simpa using hcall, rfl⟩
  · cases h
    exact ⟨[t], rfl, .word ht, rfl⟩

theorem bareDefault?_cases (h : bareDefault? ts = some (v, rest)) (hspelled : ∀ t ∈ ts, Spelled t)
    (hs : ∀ t ∈ ts, t.kind ≠ .semicolon) :
    (∃ t, ts = t :: rest ∧ v.length < t.lexeme.length) ∨
      ∃ es, ts = es ++ rest ∧ Expression (es.map ofToken) ∧ v = sourceText es := by
  cases ts with
  | nil => simp [bareDefault?] at h
  | cons t ts =>
    have ht := hspelled t (by simp)
    cases hk : t.kind with
    | string s =>
      have hlength := ht.string s hk
      rw [length_quoteString] at hlength
      simp only [bareDefault?, hk, Option.some.injEq, Prod.mk.injEq] at h
      obtain ⟨rfl, rfl⟩ := h
      refine .inl ⟨t, rfl, ?_⟩
      rw [← String.length_toList]
      omega
    | quotedName s =>
      simp only [bareDefault?, hk, Option.some.injEq, Prod.mk.injEq] at h
      obtain ⟨rfl, rfl⟩ := h
      exact .inl ⟨t, rfl, ht.name s hk⟩
    | number s =>
      simp only [bareDefault?, hk, Option.some.injEq, Prod.mk.injEq] at h
      obtain ⟨rfl, rfl⟩ := h
      have hlexeme := ht.number s hk
      exact .inr ⟨[t], rfl, .number hk (by simp [ofToken, hlexeme]), by simp [sourceText, hlexeme]⟩
    | leftParen =>
      rw [bareDefault?_of_leftParen hk] at h
      obtain ⟨⟨g, r⟩, hg, he⟩ := Option.map_eq_some_iff.1 h
      cases he
      obtain ⟨happ, ho⟩ := eq_append_of_group? hg
      obtain ⟨hi, hc⟩ := nesting?_of_group? hg hs
      refine .inr ⟨_, happ, ?_, rfl⟩
      have hgroup : Expression (ofToken g.opening ::
          (g.inside.map ofToken ++ [ofToken g.closing])) := .group ho hc hi
      simpa using hgroup
    | word s =>
      rw [bareDefault?_of_word hk] at h
      rcases Option.or_eq_some_iff.1 h with hliteral | ⟨-, hcall⟩
      · exact .inr (expression_of_prefixedLiteral? hliteral)
      · exact .inr (expression_of_call? hk hcall hs)
    | _ => simp [bareDefault?, hk] at h

theorem length_sourceText_cons (t : Token) (ts : List Token) :
    (sourceText (t :: ts)).length = t.lexeme.length + extent ts := by
  rw [← String.length_toList, toList_sourceText_cons, List.length_append, String.length_toList,
    extent_eq_length_textOf]

theorem length_bareDefault?_le (h : bareDefault? ts = some (v, rest))
    (hspelled : ∀ t ∈ ts, Spelled t) (hs : ∀ t ∈ ts, t.kind ≠ .semicolon) :
    v.length ≤ extent ts := by
  rcases bareDefault?_cases h hspelled hs with ⟨t, rfl, hlength⟩ | ⟨es, rfl, -, rfl⟩
  · rw [Token.extent_cons, Token.width]
    omega
  · rw [Token.extent_append]
    cases es with
    | nil => simp [sourceText]
    | cons t es =>
      rw [length_sourceText_cons, Token.extent_cons, Token.width]
      omega

theorem exists_of_read?_default (h : Attribute.read? ts = some (.default v, rest)) :
    ∃ t r r', ts = t :: r ∧ bareDefault? r = some (v, r') := by
  have hmap {α : Type} {found : Option α} {f : α → Attribute × List Token}
      (h : found.map f = some (.default v, rest)) (hf : ∀ x, (f x).1 ≠ .default v) : False := by
    obtain ⟨x, -, he⟩ := Option.map_eq_some_iff.1 h
    exact hf x (by rw [he])
  unfold Attribute.read? at h
  split at h
  · rename_i hflag
    rw [h] at hflag
    obtain ⟨⟨w, ws, a⟩, hmem, hfound⟩ := List.exists_of_findSome?_eq_some hflag
    obtain ⟨r, -, he⟩ := Option.map_eq_some_iff.1 hfound
    cases he
    simp [Attribute.flags] at hmem
  split at h
  · rename_i r hk
    obtain ⟨found, hv, he⟩ := Option.map_eq_some_iff.1 h
    cases he
    obtain ⟨⟨value, r'⟩, hbare, he⟩ := Option.bind_eq_some_iff.1 hv
    obtain ⟨_, -, he⟩ := Option.bind_eq_some_iff.1 he
    cases he
    cases ts with
    | nil => simp [keyword?] at hk
    | cons t ts =>
      rw [keyword?, Option.ite_none_right_eq_some] at hk
      cases hk.2
      exact ⟨t, _, _, rfl, hbare⟩
  split at h
  · exact (hmap h (by simp)).elim
  split at h
  · exact (hmap h (by simp)).elim
  split at h
  · exact (hmap h (by simp)).elim
  split at h
  · simp only [Attribute.generated, Option.some.injEq] at h
    split at h <;> cases h
  split at h
  · exact (hmap h (by simp)).elim
  split at h
  · exact (hmap h (by simp)).elim
  split at h
  · exact (hmap h (by simp)).elim
  unfold Attribute.skipped? at h
  split at h
  · cases h
  · exact (hmap h (by simp)).elim

theorem length_lt_of_mem_readAll (hspelled : ∀ t ∈ ts, Spelled t)
    (hs : ∀ t ∈ ts, t.kind ≠ .semicolon) (h : .default v ∈ (Attribute.readAll ts).1) :
    v.length < extent ts := by
  fun_induction Attribute.readAll ts with
  | case1 => simp at h
  | case2 => simp at h
  | case3 ts hdone a rest hread others complete hothers ih =>
    rw [hothers] at ih
    rcases List.mem_cons.1 h with rfl | hmem
    · obtain ⟨t, r, r', rfl, hbare⟩ := exists_of_read?_default hread
      have hpos := (hspelled t (by simp)).pos
      have hlength := length_bareDefault?_le hbare (List.forall_mem_cons.1 hspelled).2
        (List.forall_mem_cons.1 hs).2
      rw [Token.extent_cons, Token.width]
      omega
    · obtain ⟨read, -, rfl⟩ := (Attribute.read?_consumes hread).skips
      have hlength := ih (fun t ht => hspelled t (by simp [ht])) (fun t ht => hs t (by simp [ht]))
        hmem
      rw [Token.extent_append]
      omega

theorem default_foldl {as : List Attribute} {f : Field}
    (h : (as.foldl Attribute.apply f).default = some v) :
    .default v ∈ as ∨ f.default = some v := by
  induction as generalizing f with
  | nil => exact .inr h
  | cons a as ih =>
    rcases ih h with hmem | hfirst
    · exact .inl (List.mem_cons_of_mem _ hmem)
    · cases a with
      | default w =>
        cases hfirst
        exact .inl (by simp)
      | _ => exact .inr hfirst

end SqlTables
