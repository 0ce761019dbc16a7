import SqlTables.Proofs.Items.Appended
import SqlTables.Proofs.Items.Shape
import SqlTables.Proofs.Relaid.Clause
import SqlTables.Proofs.TypeText.Reading

/-! Attributes of a column in any order. Each is read up to the next, whatever that is, and two of
different kinds change different parts of the column. -/

namespace SqlTables

open Declaration

variable {ts us rest : List Token} {t : Token} {w name : String} {type : DeclaredType}

namespace Declaration

namespace DeclaredType

def laterWords : List String := ["PRECISION", "VARYING", "WITH", "WITHOUT", "TIME", "ZONE"]

theorem name?_append (hwords : ∀ w ∈ laterWords, keyword? w rest = none)
    (h : name? ts = some (name, us)) : name? (ts ++ rest) = some (name, us ++ rest) := by
  cases ts with
  | nil => simp [name?, take?] at h
  | cons t ts =>
    cases hk : t.kind with
    | word text =>
      have hcons (ts : List Token) : name? (t :: ts) = some ((longNames.findSome? fun n =>
          if Text.upperCase text = n.1 then (keyword? n.2.1 ts).map (n.2.2, ·) else none).getD
            (Text.upperCase text, ts)) := by
        rw [name?, take?, if_neg (by simp [hk])]
        simp [hk]
      have hprecision := keyword?_append (hwords "PRECISION" (by simp [laterWords])) ts
      have hvarying := keyword?_append (hwords "VARYING" (by simp [laterWords])) ts
      have hlong : (longNames.findSome? fun n =>
          if Text.upperCase text = n.1 then (keyword? n.2.1 (ts ++ rest)).map (n.2.2, ·)
          else none) =
          (longNames.findSome? fun n =>
            if Text.upperCase text = n.1 then (keyword? n.2.1 ts).map (n.2.2, ·)
            else none).map fun read => (read.1, read.2 ++ rest) := by
        simp only [longNames, List.findSome?, hprecision, hvarying]
        split_ifs <;> cases keyword? "PRECISION" ts <;> cases keyword? "VARYING" ts <;> rfl
      rw [hcons, Option.some.injEq] at h
      rw [List.cons_append, hcons, hlong, Option.some.injEq]
      cases hfound : longNames.findSome? fun n =>
          if Text.upperCase text = n.1 then (keyword? n.2.1 ts).map (n.2.2, ·) else none with
      | none =>
        rw [hfound] at h
        cases h
        rfl
      | some found =>
        rw [hfound] at h
        cases h
        rfl
    | _ => simp [name?, take?, hk] at h

theorem skipZone_append (hwords : ∀ w ∈ laterWords, keyword? w rest = none) (name : String)
    (ts : List Token) : skipZone name (ts ++ rest) = skipZone name ts ++ rest := by
  unfold skipZone
  split_ifs
  · have hzones : ∀ ws ∈ [["WITH", "TIME", "ZONE"], ["WITHOUT", "TIME", "ZONE"]], ∀ w ∈ ws,
        w ∈ laterWords := by decide
    exact skipOneOf_append (fun ws hws w hw => hwords w (hzones ws hws w hw)) ts
  · rfl

theorem group?_append_of_skipZone (hparen : peekKind .leftParen rest = false)
    (h : group? ts = none) (hzone : skipZone name ts = []) : group? (ts ++ rest) = none := by
  cases ts with
  | nil =>
    cases rest with
    | nil => rfl
    | cons t rest =>
      rw [peekKind, beq_eq_false_iff_ne] at hparen
      exact if_neg hparen
  | cons t ts =>
    refine if_neg fun ht => ?_
    have hnone (w : String) : keyword? w (t :: ts) = none := by simp [keyword?, Token.isKeyword, ht]
    have hkept : skipZone name (t :: ts) = t :: ts := by
      unfold skipZone
      split_ifs <;> simp [skipOneOf, keywords?, hnone]
    exact absurd (hkept.symm.trans hzone) (List.cons_ne_nil _ _)

theorem read?_append (hwords : ∀ w ∈ laterWords, keyword? w rest = none)
    (hparen : peekKind .leftParen rest = false) (h : read? ts = some (type, [])) :
    read? (ts ++ rest) = some (type, rest) := by
  obtain ⟨⟨name, us⟩, hname, -⟩ := Option.bind_eq_some_iff.1 h
  rw [read?_of_name? hname, Option.some.injEq, Prod.mk.injEq] at h
  obtain ⟨htype, hzone⟩ := h
  have hparameters : readParameters (us ++ rest) =
      ((readParameters us).1, (readParameters us).2 ++ rest) := by
    cases hgroup : group? us with
    | some found =>
      obtain ⟨g, after⟩ := found
      rw [readParameters, readParameters, group?_append_rest hgroup, hgroup]
    | none =>
      rw [readParameters, hgroup] at hzone
      rw [readParameters, readParameters, group?_append_of_skipZone hparen hgroup hzone, hgroup]
  rw [read?_of_name? (name?_append hwords hname), hparameters, skipZone_append hwords, hzone, htype]
  rfl

end DeclaredType

inductive AttributeKind where
  | notNull | autoIncrement | unsigned | zerofill | comment | default | primaryKey | unique
  | collation | characterSet | onUpdate
deriving Repr, DecidableEq

namespace AttributeKind

def spellings : AttributeKind → List (String × List String)
  | notNull => [("NOT", ["NULL"])]
  | autoIncrement => [("AUTO_INCREMENT", [])]
  | unsigned => [("UNSIGNED", [])]
  | zerofill => [("ZEROFILL", [])]
  | comment => [("COMMENT", [])]
  | default => [("DEFAULT", [])]
  | primaryKey => [("PRIMARY", ["KEY"])]
  | unique => [("UNIQUE", []), ("UNIQUE", ["KEY"])]
  | collation => [("COLLATE", [])]
  | characterSet => [("CHARACTER", ["SET"])]
  | onUpdate => [("ON", ["UPDATE"])]

/-- What an attribute comes to with the tokens of its value, of which most kinds have none. -/
inductive HasValue : AttributeKind → List Token → Attribute → Prop
  | notNull : HasValue .notNull [] (.nullable false)
  | autoIncrement : HasValue .autoIncrement [] .autoIncrement
  | unsigned : HasValue .unsigned [] (.unsigned true)
  | zerofill : HasValue .zerofill [] .zerofill
  | comment {t : Token} {text : String} (h : t.kind = .string text) :
    HasValue .comment [t] (.comment text)
  | text {t : Token} {value : String} (h : t.kind = .string value) :
    HasValue .default [t] (.default value)
  | number {t : Token} {value : String} (h : t.kind = .number value) :
    HasValue .default [t] (.default value)
  | primaryKey : HasValue .primaryKey [] .primaryKey
  | unique : HasValue .unique [] .unique
  | collation {t : Token} {name : String} (h : t.kind = .word name) :
    HasValue .collation [t] .neutral
  | characterSet {t : Token} {name : String} (h : t.kind = .word name) :
    HasValue .characterSet [t] .neutral
  | onUpdate {t : Token} {name : String} (h : t.kind = .word name) :
    HasValue .onUpdate [t] (.onUpdate t.lexeme)

end AttributeKind

def GoesOn (ts : List Token) : Prop :=
  ts = [] ∨ ∃ kind : AttributeKind, ∃ s ∈ kind.spellings, peekKeyword s.1 ts = true

/-- An attribute as it is written: its keywords, and then its value if it has one. -/
structure WrittenAttribute where
  kind : AttributeKind
  keywords : List Token
  value : List Token
  meaning : Attribute
  spelled : ∃ s ∈ kind.spellings,
    List.Forall₂ (fun t w => t.isKeyword w = true) keywords (s.1 :: s.2)
  means : kind.HasValue value meaning

def WrittenAttribute.tokens (a : WrittenAttribute) : List Token := a.keywords ++ a.value

theorem GoesOn.keyword?_eq_none (h : GoesOn ts)
    (hw : ∀ kind : AttributeKind, ∀ s ∈ kind.spellings,
      Text.foldCase s.1.toList ≠ Text.foldCase w.toList) : keyword? w ts = none := by
  rcases h with rfl | ⟨kind, s, hs, hpeek⟩
  · rfl
  · rw [keyword?_eq, peekKeyword_eq_false hpeek (hw kind s hs)]
    rfl

theorem GoesOn.peekKind_eq_false (h : GoesOn ts) {k : TokenKind}
    (hk : ∀ text, k ≠ .word text) : peekKind k ts = false := by
  rcases h with rfl | ⟨kind, s, -, hpeek⟩
  · rfl
  · cases ts with
    | nil => rfl
    | cons t ts =>
      rw [peekKind, beq_eq_false_iff_ne]
      rintro rfl
      cases ht : t.kind with
      | word text => exact hk text ht
      | _ => simp [peekKeyword, Token.isKeyword, ht] at hpeek

theorem GoesOn.skipCasts? (h : GoesOn ts) : skipCasts? ts = some ts := by
  have hcast := h.peekKind_eq_false (k := .doubleColon) (by simp)
  cases ts with
  | nil => rw [Declaration.skipCasts?]
  | cons t ts =>
    rw [peekKind, beq_eq_false_iff_ne] at hcast
    rw [Declaration.skipCasts?, if_neg hcast]

theorem WrittenAttribute.exists_peekKeyword (a : WrittenAttribute) (rest : List Token) :
    ∃ s ∈ a.kind.spellings, peekKeyword s.1 (a.tokens ++ rest) = true := by
  obtain ⟨s, hs, hkeywords⟩ := a.spelled
  obtain ⟨t, ts, ht, -, hts⟩ := List.forall₂_cons_right_iff.1 hkeywords
  refine ⟨s, hs, ?_⟩
  rw [tokens, hts]
  exact ht

theorem goesOn_flatMap (as : List WrittenAttribute) : GoesOn (as.flatMap (·.tokens)) := by
  cases as with
  | nil => exact .inl rfl
  | cons a as => exact .inr ⟨a.kind, a.exists_peekKeyword _⟩

namespace AttributeKind

def readValue? : AttributeKind → List Token → Option (Attribute × List Token)
  | notNull, ts => some (.nullable false, ts)
  | autoIncrement, ts => some (.autoIncrement, ts)
  | unsigned, ts => some (.unsigned true, ts)
  | zerofill, ts => some (.zerofill, ts)
  | primaryKey, ts => some (.primaryKey, ts)
  | unique, ts => some (.unique, ts)
  | comment, ts => (string? ts).map fun (text, rest) => (.comment text, rest)
  | default, ts => (defaultValue? ts).map fun (value, rest) => (.default value, rest)
  | collation, ts | characterSet, ts => (take? ts).map fun (_, rest) => (.neutral, rest)
  | onUpdate, ts => (call? ts).map fun (text, rest) => (.onUpdate text, rest)

theorem read?_keywords {kind : AttributeKind} {ws : List String} {ks : List Token}
    (hs : (w, ws) ∈ kind.spellings)
    (hks : List.Forall₂ (fun t w => t.isKeyword w = true) ks (w :: ws))
    (hts : kind = .unique → keyword? "KEY" ts = none ∧ keyword? "INDEX" ts = none) :
    Attribute.read? (ks ++ ts) = kind.readValue? ts := by
  have hother {t : Token} {w : String} (h : t.isKeyword w = true) (v : String) :
      t.isKeyword v = (Text.foldCase w.toList == Text.foldCase v.toList) := by
    cases hk : t.kind with
    | word text =>
      simp only [Token.isKeyword, hk, Text.sameKeyword, beq_iff_eq] at h ⊢
      rw [h]
    | _ => simp [Token.isKeyword, hk] at h
  cases kind <;>
    simp only [spellings, List.mem_cons, Prod.mk.injEq, List.not_mem_nil, or_false] at hs
  case autoIncrement | unsigned | zerofill | comment | default | collation =>
    obtain ⟨rfl, rfl⟩ := hs
    obtain _ | @⟨t, _, _, _, ht, _ | _⟩ := hks
    simp +decide [Attribute.read?, Attribute.flag?, Attribute.flags, Attribute.charset?,
      Attribute.charsetKeywords, keywords?, keyword?_cons, hother ht, readValue?]
  case notNull | primaryKey | characterSet | onUpdate =>
    obtain ⟨rfl, rfl⟩ := hs
    obtain _ | @⟨t, _, _, _, ht, _ | @⟨u, _, _, _, hu, _ | _⟩⟩ := hks
    simp +decide [Attribute.read?, Attribute.flag?, Attribute.flags, Attribute.charset?,
      Attribute.charsetKeywords, keywords?, keyword?_cons, hother ht, hother hu, readValue?]
  case unique =>
    obtain ⟨rfl, rfl⟩ | ⟨rfl, rfl⟩ := hs
    · obtain _ | @⟨t, _, _, _, ht, _ | _⟩ := hks
      simp +decide [Attribute.read?, Attribute.flag?, Attribute.flags, keywords?, keyword?_cons,
        hother ht, hts rfl, readValue?]
    · obtain _ | @⟨t, _, _, _, ht, _ | @⟨u, _, _, _, hu, _ | _⟩⟩ := hks
      simp +decide [Attribute.read?, Attribute.flag?, Attribute.flags, keywords?, keyword?_cons,
        hother ht, hother hu, readValue?]

theorem readValue?_append {kind : AttributeKind} {value : List Token} {a : Attribute}
    (h : kind.HasValue value a) (hrest : GoesOn rest) :
    kind.readValue? (value ++ rest) = some (a, rest) := by
  cases h with
  | comment hk => simp [readValue?, string?, hk]
  | text hk | number hk => simp [readValue?, defaultValue?, bareDefault?, hk, hrest.skipCasts?]
  | collation hk | characterSet hk => simp [readValue?, take?, hk]
  | onUpdate hk => simp [readValue?, call?, Token.name?, hk, hrest.peekKind_eq_false]
  | _ => rfl

end AttributeKind

theorem WrittenAttribute.read?_append (a : WrittenAttribute) (h : GoesOn rest) :
    Attribute.read? (a.tokens ++ rest) = some (a.meaning, rest) := by
  obtain ⟨kind, keywords, value, meaning, ⟨⟨w, ws⟩, hs, hkeywords⟩, hvalue⟩ := a
  rw [tokens, List.append_assoc, AttributeKind.read?_keywords hs hkeywords]
  · exact AttributeKind.readValue?_append hvalue h
  · rintro rfl
    cases hvalue with
    | unique =>
      refine ⟨h.keyword?_eq_none ?_, h.keyword?_eq_none ?_⟩ <;>
        exact fun kind => by cases kind <;> decide

theorem readAll_tokens (as : List WrittenAttribute) :
    Attribute.readAll (as.flatMap (·.tokens)) = (as.map (·.meaning), true) := by
  induction as with
  | nil =>
    rw [Attribute.readAll_eq]
    rfl
  | cons a as ih =>
    obtain ⟨s, -, hpeek⟩ := a.exists_peekKeyword (as.flatMap (·.tokens))
    have hdone : isDone (a.tokens ++ as.flatMap (·.tokens)) = false := by
      cases htokens : a.tokens ++ as.flatMap (·.tokens) with
      | nil => simp [htokens, peekKeyword] at hpeek
      | cons t ts =>
        rw [htokens] at hpeek
        simp [isDone, take?, ne_eof_of_isKeyword hpeek]
    rw [List.flatMap_cons, Attribute.readAll_eq, hdone, a.read?_append (goesOn_flatMap as)]
    simp [ih]

namespace Attribute

def kind? : Attribute → Option AttributeKind
  | .nullable _ => some .notNull
  | .default _ => some .default
  | .autoIncrement => some .autoIncrement
  | .unsigned _ => some .unsigned
  | .zerofill => some .zerofill
  | .comment _ => some .comment
  | .primaryKey => some .primaryKey
  | .unique => some .unique
  | .onUpdate _ => some .onUpdate
  | _ => none

variable {a b : Attribute}

theorem apply_comm (h : a.kind? ≠ b.kind? ∨ a.kind? = none) (f : Field) :
    apply (apply f a) b = apply (apply f b) a := by
  cases a <;> cases b <;> first | rfl | simp [kind?] at h

theorem apply_apply (a : Attribute) (f : Field) : apply (apply f a) a = apply f a := by
  cases a <;> rfl

end Attribute

theorem AttributeKind.HasValue.kind? {kind : AttributeKind} {value : List Token} {a : Attribute}
    (h : kind.HasValue value a) : a.kind? = some kind ∨ a.kind? = none := by
  cases h <;> simp [Attribute.kind?]

theorem AttributeKind.HasValue.no_key {kind : AttributeKind} {value : List Token} {a : Attribute}
    (h : kind.HasValue value a) : a.reference? = none ∧ a.check? = none := by
  cases h <;> exact ⟨rfl, rfl⟩

theorem WrittenAttribute.apply_comm {a b : WrittenAttribute} (h : a.kind ≠ b.kind) (f : Field) :
    Attribute.apply (Attribute.apply f a.meaning) b.meaning =
      Attribute.apply (Attribute.apply f b.meaning) a.meaning := by
  rcases a.means.kind? with ha | ha
  · rcases b.means.kind? with hb | hb
    · exact Attribute.apply_comm (.inl (by simpa [ha, hb] using h)) f
    · exact (Attribute.apply_comm (.inr hb) f).symm
  · exact Attribute.apply_comm (.inr ha) f

namespace Column

variable {as bs : List WrittenAttribute}

theorem field_eq_of_perm (hp : bs.Perm as) (hkinds : (as.map (·.kind)).Nodup) (name : String)
    (type : DeclaredType) : (⟨name, type, bs.map (·.meaning)⟩ : Column).field =
      (⟨name, type, as.map (·.meaning)⟩ : Column).field := by
  rw [field, field, List.foldl_map, List.foldl_map]
  refine (hp.symm.foldl_eq' (fun a ha b hb f => ?_) _).symm
  by_cases h : a.kind = b.kind
  · rw [List.inj_on_of_nodup_map hkinds ha hb h]
  · exact WrittenAttribute.apply_comm h f

theorem apply_field_of_mem (hkinds : (as.map (·.kind)).Nodup) {a : WrittenAttribute} (ha : a ∈ as)
    (name : String) (type : DeclaredType) :
    Attribute.apply (⟨name, type, as.map (·.meaning)⟩ : Column).field a.meaning =
      (⟨name, type, as.map (·.meaning)⟩ : Column).field := by
  obtain ⟨xs, ys, rfl⟩ := List.append_of_mem ha
  have hlast : ((xs ++ ys) ++ [a]).Perm (xs ++ a :: ys) :=
    (List.perm_append_singleton a (xs ++ ys)).trans List.perm_middle.symm
  rw [← field_eq_of_perm hlast hkinds, field, List.map_append, List.foldl_append]
  exact Attribute.apply_apply a.meaning _

/-- Attributes of different kinds may be written in any order after a type. In each they are read,
all of them, and to the same column. -/
theorem exists_field_of_attributes (hname : t.name? = some name)
    (htype : DeclaredType.read? ts = some (type, [])) (hkinds : (as.map (·.kind)).Nodup) :
    ∃ f : Field, (∀ a ∈ as, Attribute.apply f a.meaning = f) ∧
      ∀ bs : List WrittenAttribute, bs.Perm as →
        ∃ c, Column.read? (t :: (ts ++ bs.flatMap (·.tokens))) = some (c, true) ∧
          c.field = f ∧ c.checks = [] ∧ ∀ table, c.foreignKeys table = [] := by
  refine ⟨(⟨name, type, as.map (·.meaning)⟩ : Column).field,
    fun a ha => apply_field_of_mem hkinds ha name type, fun bs hp => ?_⟩
  have hgoesOn := goesOn_flatMap bs
  have hwords : ∀ w ∈ DeclaredType.laterWords,
      Declaration.keyword? w (bs.flatMap (·.tokens)) = none := by
    have hne : ∀ w ∈ DeclaredType.laterWords, ∀ kind : AttributeKind, ∀ s ∈ kind.spellings,
        Text.foldCase s.1.toList ≠ Text.foldCase w.toList := by
      intro w hw kind
      revert w
      cases kind <;> decide
    exact fun w hw => hgoesOn.keyword?_eq_none (hne w hw)
  have hread := DeclaredType.read?_append hwords (hgoesOn.peekKind_eq_false (by simp)) htype
  refine ⟨⟨name, type, bs.map (·.meaning)⟩, ?_, field_eq_of_perm hp hkinds name type, ?_, ?_⟩
  · rw [Column.read?, Declaration.name?, hname]
    simp [hread, readAll_tokens]
  · rw [checks, List.filterMap_eq_nil_iff.2 (List.forall_mem_map.2 fun a _ => a.means.no_key.2)]
    rfl
  · intro table
    rw [foreignKeys,
      List.filterMap_eq_nil_iff.2 (List.forall_mem_map.2 fun a _ => a.means.no_key.1)]
    rfl

theorem exists_field_of_attributes_unique : ∃ as : List WrittenAttribute, ∃ f : Field,
    as.map (fun a => a.tokens.map (·.lexeme)) = [["UNIQUE"], ["ON", "UPDATE", "NOW"]] ∧
      f.unique = true ∧ f.onUpdate = some "NOW" ∧
      ∀ bs : List WrittenAttribute, bs.Perm as →
        ∃ c, Column.read? ((Lexeme.word [] "at").token .start ::
          ([(Lexeme.word [' '] "TIME").token .start] ++ bs.flatMap (·.tokens))) = some (c, true) ∧
          c.field = f ∧ c.checks = [] ∧ ∀ table, c.foreignKeys table = [] := by
  let unique : WrittenAttribute := {
    kind := .unique
    keywords := [(Lexeme.word [' '] "UNIQUE").token .start]
    value := []
    meaning := .unique
    spelled := ⟨_, List.mem_cons_self, .cons (by decide) .nil⟩
    means := .unique }
  let onUpdate : WrittenAttribute := {
    kind := .onUpdate
    keywords := [(Lexeme.word [' '] "ON").token .start, (Lexeme.word [' '] "UPDATE").token .start]
    value := [(Lexeme.word [' '] "NOW").token .start]
    meaning := .onUpdate "NOW"
    spelled := ⟨_, List.mem_cons_self, .cons (by decide) (.cons (by decide) .nil)⟩
    means := .onUpdate rfl }
  have hkinds : ([unique, onUpdate].map (·.kind)).Nodup := by decide
  have htype : DeclaredType.read? [(Lexeme.word [' '] "TIME").token .start] =
      some (⟨.ofName "TIME", false, []⟩, []) := by decide +kernel
  have hname : ((Lexeme.word [] "at").token .start).name? = some "at" := rfl
  obtain ⟨f, hf, hread⟩ := exists_field_of_attributes hname htype hkinds
  refine ⟨[unique, onUpdate], f, rfl, ?_, ?_, hread⟩
  · rw [← hf unique List.mem_cons_self]
    rfl
  · rw [← hf onUpdate (List.mem_cons_of_mem _ List.mem_cons_self)]
    rfl

end Column

end Declaration

end SqlTables
