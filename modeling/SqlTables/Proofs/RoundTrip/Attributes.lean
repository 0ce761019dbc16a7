import Mathlib.Tactic.SplitIfs
import SqlTables.Declaration.Attribute
import SqlTables.Dialect.DefaultText
import SqlTables.Proofs.RoundTrip.Lists

/-! Attributes of columns as they are written, one after the other, and as they are read back. -/

namespace SqlTables

open Declaration Lexeme

variable {g : Field} {p : Text.Position} {rest ws : List Lexeme} {a : Attribute}

def attributeOpenings : List String :=
  ["UNSIGNED", "ZEROFILL", "NOT", "DEFAULT", "AUTO_INCREMENT", "ON", "COMMENT"]

def OpensAttribute (ws : List Lexeme) : Prop :=
  ws = [] ∨ ∃ s ∈ attributeOpenings, ∃ ws', ws = word [' '] s :: ws'

theorem OpensAttribute.append (ha : OpensAttribute ws) (hb : OpensAttribute rest) :
    OpensAttribute (ws ++ rest) := by
  rcases ha with rfl | ⟨s, hs, ws', rfl⟩
  · exact hb
  · exact .inr ⟨s, hs, ws' ++ rest, rfl⟩

theorem OpensAttribute.flatMap {α : Type} {f : α → List Lexeme} {xs : List α}
    (h : ∀ x ∈ xs, OpensAttribute (f x)) : OpensAttribute (xs.flatMap f) := by
  induction xs with
  | nil => exact .inl rfl
  | cons x xs ih =>
    rw [List.forall_mem_cons] at h
    exact h.1.append (ih h.2)

theorem OpensAttribute.keyword?_eq_none (h : OpensAttribute rest) {w : String}
    (hw : ∀ s ∈ attributeOpenings, Text.sameKeyword s w = false) (p : Text.Position) :
    keyword? w (tokensAt p rest) = none := by
  rcases h with rfl | ⟨s, hs, ws', rfl⟩
  · rfl
  · have hkey : ((word [' '] s).token p).isKeyword w = false := hw s hs
    rw [tokensAt_cons, keyword?, hkey]
    rfl

theorem OpensAttribute.peekKind_eq_false (h : OpensAttribute rest) (p : Text.Position) :
    peekKind .leftParen (tokensAt p rest) = false := by
  rcases h with rfl | ⟨s, _, ws', rfl⟩ <;> rfl

theorem OpensAttribute.group?_eq_none (h : OpensAttribute rest) (p : Text.Position) :
    group? (tokensAt p rest) = none := by
  rcases h with rfl | ⟨s, _, ws', rfl⟩ <;> rfl

theorem OpensAttribute.skipCasts? (h : OpensAttribute rest) (p : Text.Position) :
    skipCasts? (tokensAt p rest) = some (tokensAt p rest) := by
  rcases h with rfl | ⟨s, _, ws', rfl⟩
  · rw [tokensAt_nil, Declaration.skipCasts?]
  · rw [tokensAt_cons, Declaration.skipCasts?]
    rfl

theorem OpensAttribute.call? (h : OpensAttribute rest) (gap : List Char) (s : String)
    (p : Text.Position) : call? (tokensAt p (word gap s :: rest)) =
      some (s, tokensAt (p.advance (word gap s).chars) rest) := by
  rw [tokensAt_cons, Declaration.call?, h.peekKind_eq_false]
  simp [word, token, Token.name?]

theorem OpensAttribute.prefixedLiteral? (h : OpensAttribute rest) (gap : List Char) (s : String)
    (p : Text.Position) : prefixedLiteral? (tokensAt p (word gap s :: rest)) = none := by
  rcases h with rfl | ⟨_, _, ws', rfl⟩ <;> rfl

/-- Whether lexemes are read as the attribute before any others. -/
structure Spells (ws : List Lexeme) (a : Attribute) : Prop where
  sealed : Sealed ws
  parts : ∀ w ∈ ws, w.kind.isPart = true
  opening : ∃ s ∈ attributeOpenings, ∃ ws', ws = word [' '] s :: ws'
  read : ∀ p rest, OpensAttribute rest →
    ∃ q, Attribute.read? (tokensAt p (ws ++ rest)) = some (a, tokensAt q rest)

theorem Spells.opensAttribute (h : Spells ws a) : OpensAttribute ws := .inr h.opening

theorem readAll_tokensAt {parts : List (List Lexeme × Attribute)}
    (h : ∀ b ∈ parts, Spells b.1 b.2) (p : Text.Position) :
    Attribute.readAll (tokensAt p (parts.flatMap (·.1))) = (parts.map (·.2), true) := by
  induction parts generalizing p with
  | nil =>
    rw [List.flatMap_nil, Attribute.readAll]
    rfl
  | cons b parts ih =>
    rw [List.forall_mem_cons] at h
    have hopens : OpensAttribute (parts.flatMap (·.1)) :=
      .flatMap fun x hx => (h.2 x hx).opensAttribute
    obtain ⟨q, hread⟩ := h.1.read p _ hopens
    have hdone : isDone (tokensAt p (b.1 ++ parts.flatMap (·.1))) = false := by
      obtain ⟨s, _, ws', hs⟩ := h.1.opening
      rw [hs]
      rfl
    rw [List.flatMap_cons, Attribute.readAll, hdone]
    simp only [Bool.false_eq_true, if_false]
    split
    · rename_i hnone
      rw [hread] at hnone
      simp at hnone
    · rename_i a' rest' hsome
      rw [hread, Option.some.injEq, Prod.mk.injEq] at hsome
      obtain ⟨rfl, rfl⟩ := hsome
      rw [ih h.2]
      rfl

theorem spells_words {s : String} {ss : List String} (hs : s ∈ attributeOpenings)
    (hw : ∀ v ∈ s :: ss, isBareWord v = true)
    (hr : ∀ p rest, OpensAttribute rest → ∃ q, Attribute.read?
      (tokensAt p (words (s :: ss) ++ rest)) = some (a, tokensAt q rest)) :
    Spells (words (s :: ss)) a :=
  ⟨sealed_words hw, fun _ => isPart_of_mem_words, ⟨s, hs, _, rfl⟩, hr⟩

theorem spells_unsigned : Spells [word [' '] "UNSIGNED"] (.unsigned true) :=
  @spells_words _ "UNSIGNED" [] (by decide) (by decide) fun _ _ _ => ⟨_, rfl⟩

theorem spells_zerofill : Spells [word [' '] "ZEROFILL"] .zerofill :=
  @spells_words _ "ZEROFILL" [] (by decide) (by decide) fun _ _ _ => ⟨_, rfl⟩

theorem spells_notNull : Spells [word [' '] "NOT", word [' '] "NULL"] (.nullable false) :=
  @spells_words _ "NOT" ["NULL"] (by decide) (by decide) fun _ _ _ => ⟨_, rfl⟩

theorem spells_autoIncrement : Spells [word [' '] "AUTO_INCREMENT"] .autoIncrement :=
  @spells_words _ "AUTO_INCREMENT" [] (by decide) (by decide) fun _ _ _ => ⟨_, rfl⟩

theorem spells_onUpdate {s : String} (h : isBareWord s = true) :
    Spells [word [' '] "ON", word [' '] "UPDATE", word [' '] s] (.onUpdate s) := by
  have hwords : ∀ v ∈ ["ON", "UPDATE", s], isBareWord v = true := by
    rw [List.forall_mem_cons, List.forall_mem_cons, List.forall_mem_singleton]
    exact ⟨by decide, by decide, h⟩
  refine @spells_words _ "ON" ["UPDATE", s] (by decide) hwords fun p rest hrest => ?_
  have hread (p : Text.Position) (ts : List Token) :
      Attribute.read? (tokensAt p [word [' '] "ON", word [' '] "UPDATE"] ++ ts) =
        (call? ts).map fun called => (.onUpdate called.1, called.2) := rfl
  have hs : words ["ON", "UPDATE", s] ++ rest =
      [word [' '] "ON", word [' '] "UPDATE"] ++ word [' '] s :: rest := rfl
  rw [hs, tokensAt_append, hread, hrest.call?]
  exact ⟨_, rfl⟩

theorem spells_keyword_value {s : String} {w : Lexeme} (hs : s ∈ attributeOpenings)
    (hw : Tight [w]) (hg : w.gap ≠ []) (hk : w.kind.isPart = true)
    (hr : ∀ p rest, OpensAttribute rest → ∃ q, Attribute.read?
      (tokensAt p (word [' '] s :: w :: rest)) = some (a, tokensAt q rest)) :
    Spells [word [' '] s, w] a := by
  have hbare : ∀ s ∈ attributeOpenings, isBareWord s = true := by decide
  refine ⟨?_, ?_, ⟨s, hs, _, rfl⟩, hr⟩
  · have hword := tight_word (hbare s hs) gap_space
    exact (hword.sealed (by simp [word])).append (hw.sealed hg)
  · rw [List.forall_mem_cons, List.forall_mem_singleton]
    exact ⟨rfl, hk⟩

theorem spells_comment (s : String) :
    Spells [word [' '] "COMMENT", string [' '] s] (.comment s) := by
  refine spells_keyword_value (by decide) (tight_string s gap_space) (by simp [string]) rfl ?_
  intro p rest _
  exact ⟨_, rfl⟩

/-- Whether a default is written as a string, or as a word or a number that stands for itself. -/
def PlainDefault (type : ColumnType) (v : String) : Prop :=
  Dialect.mysql.defaultText type v = Dialect.mysql.quoteString v ∨
    Dialect.mysql.defaultText type v = v ∧ (isBareWord v = true ∨ isNumeral v = true)

instance {type : ColumnType} {v : String} : Decidable (PlainDefault type v) :=
  inferInstanceAs (Decidable (_ ∨ _))

def defaultLexeme (type : ColumnType) (v : String) : Lexeme :=
  if Dialect.mysql.defaultText type v = Dialect.mysql.quoteString v then string [' '] v
  else if isBareWord v then word [' '] v
  else number [' '] v

theorem defaultLexeme_cases {type : ColumnType} {v : String} (h : PlainDefault type v) :
    (defaultLexeme type v = string [' '] v ∧
        Dialect.mysql.defaultText type v = Dialect.mysql.quoteString v) ∨
      (defaultLexeme type v = word [' '] v ∧ Dialect.mysql.defaultText type v = v ∧
        isBareWord v = true) ∨
      (defaultLexeme type v = number [' '] v ∧ Dialect.mysql.defaultText type v = v ∧
        isNumeral v = true) := by
  unfold defaultLexeme
  split_ifs with hq hb
  · exact .inl ⟨rfl, hq⟩
  · rcases h with h | ⟨h, _⟩
    · exact absurd h hq
    · exact .inr (.inl ⟨rfl, h, hb⟩)
  · rcases h with h | ⟨h, hv⟩
    · exact absurd h hq
    · exact .inr (.inr ⟨rfl, h, hv.resolve_left hb⟩)

theorem chars_defaultLexeme {type : ColumnType} {v : String} (h : PlainDefault type v) :
    (defaultLexeme type v).chars = ' ' :: (Dialect.mysql.defaultText type v).toList := by
  rcases defaultLexeme_cases h with ⟨hw, ht⟩ | ⟨hw, ht, _⟩ | ⟨hw, ht, _⟩
  · rw [hw, ht, chars_string, List.singleton_append]
  · rw [hw, ht, chars_word, List.singleton_append]
  · rw [hw, ht, chars_number, List.singleton_append]

theorem spells_default {type : ColumnType} {v : String} (h : PlainDefault type v) :
    Spells [word [' '] "DEFAULT", defaultLexeme type v] (.default v) := by
  have hread (p : Text.Position) {ts rest : List Token}
      (hd : bareDefault? ts = some (v, rest)) (hc : skipCasts? rest = some rest) :
      Attribute.read? (tokensAt p [word [' '] "DEFAULT"] ++ ts) = some (.default v, rest) := by
    have hvalue : defaultValue? ts = some (v, rest) := by
      rw [defaultValue?, hd]
      simp [hc]
    change (defaultValue? ts).map (fun found => (Attribute.default found.1, found.2)) = _
    rw [hvalue]
    rfl
  rcases defaultLexeme_cases h with ⟨hw, _⟩ | ⟨hw, _, hv⟩ | ⟨hw, _, hv⟩
  · rw [hw]
    refine spells_keyword_value (by decide) (tight_string v gap_space) (by simp [string]) rfl ?_
    intro p rest hrest
    exact ⟨_, hread p rfl (hrest.skipCasts? _)⟩
  · rw [hw]
    refine spells_keyword_value (by decide) (tight_word hv gap_space) (by simp [word]) rfl ?_
    intro p rest hrest
    have hbare (q : Text.Position) : bareDefault? (tokensAt q (word [' '] v :: rest)) =
        some (v, tokensAt (q.advance (word [' '] v).chars) rest) := by
      change (prefixedLiteral? (tokensAt q (word [' '] v :: rest))).or
        (call? (tokensAt q (word [' '] v :: rest))) = _
      rw [hrest.prefixedLiteral?, hrest.call?]
      rfl
    exact ⟨_, hread p (hbare _) (hrest.skipCasts? _)⟩
  · rw [hw]
    refine spells_keyword_value (by decide) (tight_number hv gap_space) (by simp [number]) rfl ?_
    intro p rest hrest
    exact ⟨_, hread p rfl (hrest.skipCasts? _)⟩

end SqlTables
