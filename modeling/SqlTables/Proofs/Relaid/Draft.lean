import SqlTables.Draft.Read
import SqlTables.Proofs.Places
import SqlTables.Proofs.Relaid.Source

/-! Drafts laid out anew. Tokens with other gaps, lexemes and places give a draft that is the same
but for its source texts, or an error of the same sort. -/

namespace SqlTables

open Declaration
open Token (Relays SameDefault SameSource)

variable {xs ys : List Token}

def Field.bare (f : Field) : Field := { f with default := none, onUpdate := none }

structure Field.SameButSources (xs ys : List Token) (f g : Field) : Prop where
  bare : f.bare = g.bare
  default : Option.Rel (SameDefault xs ys) f.default g.default
  onUpdate : Option.Rel (SameSource xs ys) f.onUpdate g.onUpdate

structure Check.SameButSources (xs ys : List Token) (c d : Check) : Prop where
  name : c.name = d.name
  expression : SameSource xs ys c.expression d.expression

def Table.bare (t : Table) : Table := { t with fields := [], checks := [] }

structure Table.SameButSources (xs ys : List Token) (t u : Table) : Prop where
  bare : t.bare = u.bare
  fields : List.Forall₂ (Field.SameButSources xs ys) t.fields u.fields
  checks : List.Forall₂ (Check.SameButSources xs ys) t.checks u.checks

structure Draft.SameButSources (xs ys : List Token) (d e : Draft) : Prop where
  table : d.table.SameButSources xs ys e.table
  primaryKey : d.primaryKey = e.primaryKey

namespace Declaration

theorem Attribute.bare_apply (f : Field) (a : Attribute) :
    (apply f a).bare = (apply f.bare a).bare := by
  cases a <;> rfl

theorem Attribute.SameButSources.apply {a b : Attribute} (h : a.SameButSources xs ys b)
    {f g : Field} (hfg : f.SameButSources xs ys g) :
    (apply f a).SameButSources xs ys (apply g b) := by
  have hbare (a : Attribute) : (Attribute.apply f a).bare = (Attribute.apply g a).bare := by
    rw [bare_apply, hfg.bare, ← bare_apply]
  cases h with
  | same a =>
    refine ⟨hbare a, ?_, ?_⟩
    · cases a
      case default v => exact .some (.inl rfl)
      all_goals exact hfg.default
    · cases a
      case onUpdate v => exact .some (.inl rfl)
      all_goals exact hfg.onUpdate
  | default h => exact ⟨hfg.bare, .some h, hfg.onUpdate⟩
  | onUpdate h => exact ⟨hfg.bare, hfg.default, .some h⟩
  | check h => exact hfg
  | skippedWord v w => exact hfg

theorem Attribute.SameButSources.foldl {as bs : List Attribute}
    (h : List.Forall₂ (Attribute.SameButSources xs ys) as bs) {f g : Field}
    (hfg : f.SameButSources xs ys g) :
    (as.foldl Attribute.apply f).SameButSources xs ys (bs.foldl Attribute.apply g) := by
  induction h generalizing f g with
  | nil => exact hfg
  | cons hab _ ih => exact ih (hab.apply hfg)

theorem Attribute.SameButSources.references {as bs : List Attribute}
    (h : List.Forall₂ (Attribute.SameButSources xs ys) as bs) :
    as.filterMap Attribute.reference? = bs.filterMap Attribute.reference? := by
  induction h with
  | nil => rfl
  | cons hab _ ih =>
    rw [List.filterMap_cons, List.filterMap_cons, ih]
    cases hab <;> rfl

theorem Attribute.SameButSources.checks {as bs : List Attribute}
    (h : List.Forall₂ (Attribute.SameButSources xs ys) as bs) :
    List.Forall₂ (SameSource xs ys) (as.filterMap Attribute.check?)
      (bs.filterMap Attribute.check?) := by
  induction h with
  | nil => exact .nil
  | @cons a b as bs hab _ ih =>
    cases hab with
    | check h => exact .cons h ih
    | same =>
      cases a
      case check v => exact .cons (.inl rfl) ih
      all_goals exact ih
    | default h => exact ih
    | onUpdate h => exact ih
    | skippedWord v w => exact ih

namespace Column

variable {c d : Column}

theorem SameButSources.refl (c : Column) : c.SameButSources xs ys c :=
  ⟨rfl, rfl, List.forall₂_same.2 fun a _ => .same a⟩

theorem SameButSources.field (h : c.SameButSources xs ys d) :
    c.field.SameButSources xs ys d.field := by
  have hbare : c.bareField = d.bareField := by rw [bareField, bareField, h.name, h.type]
  rw [Column.field, Column.field, hbare]
  exact Attribute.SameButSources.foldl h.attributes ⟨rfl, .none, .none⟩

theorem SameButSources.foreignKeys (h : c.SameButSources xs ys d) (table : String) :
    c.foreignKeys table = d.foreignKeys table := by
  rw [Column.foreignKeys, Column.foreignKeys,
    Attribute.SameButSources.references h.attributes, h.name]

theorem SameButSources.checks (h : c.SameButSources xs ys d) :
    List.Forall₂ (Check.SameButSources xs ys) c.checks d.checks := by
  rw [Column.checks, Column.checks, List.forall₂_map_left_iff, List.forall₂_map_right_iff]
  exact (Attribute.SameButSources.checks h.attributes).imp fun _ _ hsource => ⟨rfl, hsource⟩

end Column

end Declaration

namespace Draft

variable {d e : Draft} {f : Token → Token} {source ts : List Token}

theorem bare_add (d : Draft) (c : Clause) :
    (d.add c).table.bare = (Draft.add { d with table := d.table.bare } c).table.bare := by
  cases c <;> rfl

theorem bare_add_congr (h : d.SameButSources xs ys e) (c : Clause) :
    (d.add c).table.bare = (e.add c).table.bare := by
  rw [bare_add, h.table.bare, bare_add e]
  cases c <;> rfl

theorem add_column_alike (h : d.SameButSources xs ys e) {c c' : Column}
    (hc : c.SameButSources xs ys c') :
    (d.add (.column c)).SameButSources xs ys (e.add (.column c')) := by
  have hkeys : (d.add (.column c)).table.bare = (e.add (.column c')).table.bare := by
    have hbare := bare_add_congr h (.column c)
    simp only [add, hc.foreignKeys] at hbare ⊢
    exact hbare
  refine ⟨⟨hkeys, ?_, ?_⟩, h.primaryKey⟩
  · exact List.rel_append h.table.fields (.cons hc.field .nil)
  · exact List.rel_append h.table.checks hc.checks

theorem add_alike (h : d.SameButSources xs ys e) {c c' : Clause}
    (hc : c.SameButSources xs ys c') : (d.add c).SameButSources xs ys (e.add c') := by
  cases hc with
  | column hc => exact add_column_alike h hc
  | check name hsource =>
    exact ⟨⟨h.table.bare, h.table.fields,
      List.rel_append h.table.checks (.cons ⟨rfl, hsource⟩ .nil)⟩, h.primaryKey⟩
  | same c =>
    have hbare := bare_add_congr h c
    cases c with
    | column c => exact add_column_alike h (.refl c)
    | check name expression =>
      exact ⟨⟨hbare, h.table.fields,
        List.rel_append h.table.checks (.cons ⟨rfl, .inl rfl⟩ .nil)⟩, h.primaryKey⟩
    | primaryKey columns =>
      exact ⟨⟨hbare, h.table.fields, h.table.checks⟩, congrArg (· ++ columns) h.primaryKey⟩
    | index kind name columns =>
      exact ⟨⟨hbare, h.table.fields, h.table.checks⟩, h.primaryKey⟩
    | foreignKey name columns target =>
      exact ⟨⟨hbare, h.table.fields, h.table.checks⟩, h.primaryKey⟩

theorem foldl_add_alike (h : d.SameButSources xs ys e) {cs cs' : List Clause}
    (hcs : List.Forall₂ (Clause.SameButSources xs ys) cs cs') :
    (cs.foldl add d).SameButSources xs ys (cs'.foldl add e) := by
  induction hcs generalizing d e with
  | nil => exact h
  | cons hc _ ih => exact ih (add_alike h hc)

theorem ofClauses_alike {cs cs' : List Clause}
    (hcs : List.Forall₂ (Clause.SameButSources xs ys) cs cs') (name : String)
    (settings : List Setting) :
    (ofClauses name cs settings).SameButSources xs ys (ofClauses name cs' settings) := by
  have hd : SameButSources xs ys { table := { name := name } } { table := { name := name } } :=
    ⟨⟨rfl, .nil, .nil⟩, rfl⟩
  obtain ⟨⟨hbare, hfields, hchecks⟩, hprimary⟩ := foldl_add_alike hd hcs
  exact ⟨⟨congrArg (Setting.applyAll · settings) hbare, hfields, hchecks⟩, hprimary⟩

/-- What becomes of an error when tokens are laid out anew: its place and text are those of the
same tokens. -/
inductive RelaidError (f : Token → Token) (source : List Token) :
    ParseError → ParseError → Prop where
  | missingHeader : RelaidError f source .missingHeader .missingHeader
  | unterminatedColumnList (t : Token) : RelaidError f source
      (.unterminatedColumnList t.start.line t.start.column)
      (.unterminatedColumnList (f t).start.line (f t).start.column)
  | unreadable (i : Item) (h : i.tokens <:+: source) :
      RelaidError f source (unreadable i) (unreadable (i.relaid f))

inductive RelaidRead (f : Token → Token) (source : List Token) :
    Except ParseError Draft → Except ParseError Draft → Prop where
  | error {e e' : ParseError} (h : RelaidError f source e e') :
      RelaidRead f source (.error e) (.error e')
  | ok {d d' : Draft} (h : d.SameButSources source (source.map f) d') :
      RelaidRead f source (.ok d) (.ok d')

theorem afterCreateTable?_relaid (hf : ∀ t, (f t).kind = t.kind) (ts : List Token) :
    afterCreateTable? (ts.map f) = (afterCreateTable? ts).map (List.map f) := by
  induction ts with
  | nil => rfl
  | cons t ts ih =>
    rw [List.map_cons, afterCreateTable?, afterCreateTable?]
    simp only [hf, Token.isKeyword_relaid hf, skipOneOf_relaid hf, keyword?_relaid hf, ih]
    by_cases he : t.kind = .eof
    · simp [he]
    by_cases hc : t.isKeyword "CREATE" = true
    · cases keyword? "TABLE" (skipOneOf [["TEMPORARY"], ["TEMP"]] ts) <;> simp [he, hc]
    · simp [he, hc]

theorem header?_relaid (hf : ∀ t, (f t).kind = t.kind) (ts : List Token) :
    header? (ts.map f) =
      (header? ts).map fun (name, opening, rest) => (name, f opening, rest.map f) := by
  rw [header?, header?, afterCreateTable?_relaid hf]
  cases afterCreateTable? ts with
  | none => rfl
  | some rest =>
    simp only [Option.map_some, Option.bind_eq_bind, Option.bind_some, skipOneOf_relaid hf,
      qualifiedName?_relaid hf]
    cases qualifiedName? (skipOneOf [["IF", "NOT", "EXISTS"]] rest) with
    | none => rfl
    | some read =>
      obtain ⟨name, rest⟩ := read
      cases rest with
      | nil => rfl
      | cons t rest => by_cases h : t.kind = .leftParen <;> simp [relaidRest, hf, h]

theorem clauses_alike (h : Relays f source) {items : List Item}
    (hitems : ∀ i ∈ items, i.tokens <:+: source) :
    (∃ i, i.tokens <:+: source ∧ clauses items = .error (unreadable i) ∧
        clauses (items.map (.relaid f)) = .error (unreadable (i.relaid f))) ∨
      ∃ cs cs', clauses items = .ok cs ∧ clauses (items.map (.relaid f)) = .ok cs' ∧
        List.Forall₂ (Clause.SameButSources source (source.map f)) cs cs' := by
  induction items with
  | nil => exact .inr ⟨[], [], rfl, rfl, .nil⟩
  | cons i items ih =>
    rw [List.forall_mem_cons] at hitems
    have hread := Clause.read_alike h hitems.1
    have htokens : (i.relaid f).tokens = i.tokens.map f := rfl
    rw [List.map_cons, clauses, clauses, htokens]
    generalize (Clause.read i.tokens).clause? = first at hread
    generalize (Clause.read (i.tokens.map f)).clause? = second at hread
    cases hread with
    | none => exact .inl ⟨i, hitems.1, rfl, rfl⟩
    | @some c c' hc =>
      rcases ih hitems.2 with ⟨j, hj, hfirst, hsecond⟩ | ⟨cs, cs', hfirst, hsecond, hcs⟩
      · exact .inl ⟨j, hj, by rw [hfirst]; rfl, by rw [hsecond]; rfl⟩
      · exact .inr ⟨c :: cs, c' :: cs', by rw [hfirst]; rfl, by rw [hsecond]; rfl, .cons hc hcs⟩

/-- Tokens laid out anew are read the same but for source texts, and fail in the same way. -/
theorem read_relaid (h : Relays f source) : RelaidRead f source (read source)
    (read (source.map f)) := by
  rw [read, read, Definition.read, Definition.read, header?_relaid h.kind]
  cases hheader : header? source with
  | none => exact .error .missingHeader
  | some found =>
    obtain ⟨name, opening, rest⟩ := found
    simp only [Option.map_some, items?_relaid h.kind]
    cases hi : items? 0 rest with
    | none => exact .error (.unterminatedColumnList opening)
    | some read =>
      have hitems : ∀ i ∈ read.1, i.tokens <:+: source := by
        intro i hmem
        obtain ⟨⟨before, hsource⟩, hopening⟩ := eq_append_of_header? hheader
        obtain ⟨before', opener, later, hlist, -⟩ := exists_opener_of_mem hi hopening hmem
        have hm : i.tokens <:+: opening :: rest :=
          ⟨before' ++ [opener], i.stop :: later, by simp [hlist]⟩
        exact hm.trans ⟨before, [], by simp [hsource]⟩
      simp only [Option.map_some, Setting.readAll_relaid h.kind]
      rcases clauses_alike h hitems with ⟨i, hm, hfirst, hsecond⟩ | ⟨cs, cs', hfirst, hsecond, hcs⟩
      · rw [hfirst, hsecond]
        exact .error (.unreadable i hm)
      · rw [hfirst, hsecond]
        exact .ok (ofClauses_alike hcs name (Setting.readAll read.2))

end Draft

end SqlTables
