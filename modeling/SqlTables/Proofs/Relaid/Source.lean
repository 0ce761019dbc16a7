import Mathlib.Data.List.Chain
import Mathlib.Data.List.Forall2
import SqlTables.Proofs.Relaid.Clause

/-! Source text laid out anew. Defaults, `ON UPDATE` values and checks may be taken from the source,
and then the text of the same run of tokens is taken. -/

namespace SqlTables

namespace Token

def isWord (t : Token) : Bool :=
  match t.kind with
  | .word _ => true
  | _ => false

def isString (t : Token) : Bool :=
  match t.kind with
  | .string _ => true
  | _ => false

def isExpression : List Token → Bool
  | t :: u :: _ => t.kind == .leftParen || t.isWord && (u.kind == .leftParen || u.isString)
  | _ => false

def run (i n : Nat) (ts : List Token) : List Token := (ts.drop i).take n

/-- Whether two texts are the same, or the source texts of the same run of tokens in two lists. -/
def SameSource (xs ys : List Token) (v w : String) : Prop :=
  v = w ∨ ∃ i n, v = sourceText (run i n xs) ∧ w = sourceText (run i n ys)

def SameDefault (xs ys : List Token) (v w : String) : Prop :=
  v = w ∨ ∃ i n, isExpression (run i n xs) = true ∧ v = sourceText (run i n xs) ∧
    w = sourceText (run i n ys)

/-- Whether a change of tokens keeps what they are, the text of words, and which strings touch the
word before them. -/
structure Relays (f : Token → Token) (source : List Token) : Prop where
  kind : ∀ t, (f t).kind = t.kind
  word : ∀ t ∈ source, t.isWord = true → (f t).lexeme = t.lexeme
  touching : source.IsChain fun t u =>
    t.isWord = true → u.isString = true → ((f u).gap = "" ↔ u.gap = "")

variable {f : Token → Token} {source m : List Token}

theorem exists_run_of_isInfix (h : m <:+: source) :
    ∃ i n, run i n source = m ∧ run i n (source.map f) = m.map f := by
  obtain ⟨before, after, rfl⟩ := h
  refine ⟨before.length, m.length, ?_, ?_⟩ <;> simp [run]

theorem sameSource_of_isInfix (f : Token → Token) (h : m <:+: source) :
    SameSource source (source.map f) (sourceText m) (sourceText (m.map f)) := by
  obtain ⟨i, n, hm, hmap⟩ := exists_run_of_isInfix (f := f) h
  exact .inr ⟨i, n, by rw [hm], by rw [hmap]⟩

theorem sameDefault_of_isInfix (f : Token → Token) (h : m <:+: source)
    (he : isExpression m = true) :
    SameDefault source (source.map f) (sourceText m) (sourceText (m.map f)) := by
  obtain ⟨i, n, hm, hmap⟩ := exists_run_of_isInfix (f := f) h
  exact .inr ⟨i, n, by rw [hm, he], by rw [hm], by rw [hmap]⟩

end Token

open Token (Relays SameSource SameDefault sourceText)

namespace Declaration

theorem eq_append_of_closeGroup? {depth : Nat} {ts inside rest : List Token} {closing : Token}
    (h : closeGroup? depth ts = some (inside, closing, rest)) :
    ts = inside ++ closing :: rest := by
  induction ts generalizing depth inside with
  | nil => simp [closeGroup?] at h
  | cons t ts ih =>
    obtain ⟨-, ⟨rfl, hclose⟩ | ⟨depth', inside', rfl, hts, -⟩⟩ := closeGroup?_cons_cases h
    · rw [hclose] at h
      cases h
      rfl
    · rw [ih hts, List.cons_append]

theorem eq_append_of_group? {ts rest : List Token} {g : Group} (h : group? ts = some (g, rest)) :
    ts = (g.opening :: g.inside ++ [g.closing]) ++ rest ∧ g.opening.kind = .leftParen := by
  obtain ⟨us, rfl, hk, hi⟩ := group?_eq_some_iff.1 h
  exact ⟨by simp [eq_append_of_closeGroup? hi], hk⟩

theorem inside_isInfix_of_group? {ts rest : List Token} {g : Group}
    (h : group? ts = some (g, rest)) : g.inside <:+: ts :=
  ⟨[g.opening], g.closing :: rest, by simp [(eq_append_of_group? h).1]⟩

def callTokens? : List Token → Option (List Token × List Token)
  | [] => none
  | t :: rest => do
    let _ ← t.name?
    if peekKind .leftParen rest then
      let (g, rest) ← group? rest
      return (t :: g.opening :: g.inside ++ [g.closing], rest)
    return ([t], rest)

theorem call?_eq_map (ts : List Token) :
    call? ts = (callTokens? ts).map fun (m, rest) => (sourceText m, rest) := by
  cases ts with
  | nil => rfl
  | cons t ts =>
    rw [call?, callTokens?]
    cases t.name? with
    | none => rfl
    | some name =>
      simp only [Option.bind_eq_bind, Option.bind_some]
      split_ifs
      · cases group? ts <;> rfl
      · rfl

theorem eq_append_of_callTokens? {ts m rest : List Token} (h : callTokens? ts = some (m, rest)) :
    ts = m ++ rest ∧ ((∃ t, m = [t]) ∨ ∃ t u us, m = t :: u :: us ∧ u.kind = .leftParen) := by
  cases ts with
  | nil => simp [callTokens?] at h
  | cons t ts =>
    obtain ⟨name, -, h⟩ := Option.bind_eq_some_iff.1 h
    split_ifs at h
    · obtain ⟨⟨g, r⟩, hg, h⟩ := Option.bind_eq_some_iff.1 h
      cases h
      obtain ⟨rfl, hk⟩ := eq_append_of_group? hg
      exact ⟨rfl, .inr ⟨t, g.opening, _, rfl, hk⟩⟩
    · cases h
      exact ⟨rfl, .inl ⟨t, rfl⟩⟩

variable {f : Token → Token} {source ts : List Token} {α : Type}

theorem callTokens?_relaid (hf : ∀ t, (f t).kind = t.kind) (ts : List Token) :
    callTokens? (ts.map f) =
      (callTokens? ts).map fun (m, rest) => (m.map f, rest.map f) := by
  cases ts with
  | nil => rfl
  | cons t ts =>
    rw [List.map_cons, callTokens?, callTokens?, Token.name?_relaid hf, peekKind_relaid hf,
      group?_relaid hf]
    cases t.name? with
    | none => rfl
    | some name =>
      simp only [Option.bind_eq_bind, Option.bind_some]
      split_ifs
      · cases group? ts with
        | none => rfl
        | some read => simp [Group.relaid]
      · rfl

theorem isExpression_of_callTokens? {t : Token} {m rest : List Token} (ht : t.isWord = true)
    (h : callTokens? (t :: ts) = some (m, rest)) : m = [t] ∨ Token.isExpression m = true := by
  obtain ⟨happ, ⟨u, rfl⟩ | ⟨u, v, vs, rfl, hv⟩⟩ := eq_append_of_callTokens? h
  · rw [List.singleton_append, List.cons.injEq] at happ
    exact .inl (by rw [happ.1])
  · rw [List.cons_append, List.cons.injEq] at happ
    rw [← happ.1]
    simp [Token.isExpression, ht, hv]

/-- Readings that give what `R` relates, and the same tokens after it laid out anew. -/
def Alike (R : α → α → Prop) (f : Token → Token) :
    Option (α × List Token) → Option (α × List Token) → Prop :=
  Option.Rel fun first second => R first.1 second.1 ∧ second.2 = first.2.map f

theorem Alike.map {β : Type} {R : α → α → Prop} {S : β → β → Prop}
    {first second : Option (α × List Token)} (h : Alike R f first second) {make : α → β}
    (hmake : ∀ a b, R a b → S (make a) (make b)) :
    Alike S f (first.map fun (a, rest) => (make a, rest))
      (second.map fun (a, rest) => (make a, rest)) := by
  cases h with
  | none => exact .none
  | some h => exact .some ⟨hmake _ _ h.1, h.2⟩

theorem Alike.bind {β : Type} {R : α → α → Prop} {S : β → β → Prop}
    {first second : Option (α × List Token)} (h : Alike R f first second)
    {next next' : α × List Token → Option (β × List Token)}
    (hnext : ∀ a b rest, R a b → Alike S f (next (a, rest)) (next' (b, rest.map f))) :
    Alike S f (first.bind next) (second.bind next') := by
  cases h with
  | none => exact .none
  | @some first second h =>
    obtain ⟨b, rest⟩ := second
    obtain ⟨hr, rfl⟩ := h
    exact hnext _ _ _ hr

theorem alike_of_eq {R : α → α → Prop} (hR : ∀ a, R a a) {first second : Option (α × List Token)}
    (h : second = first.map (relaidRest f)) : Alike R f first second := by
  subst h
  cases first with
  | none => exact .none
  | some read => exact .some ⟨hR _, rfl⟩

theorem call?_alike (h : Relays f source) (hs : ts <:+: source) :
    Alike (SameSource source (source.map f)) f (call? ts) (call? (ts.map f)) := by
  rw [call?_eq_map, call?_eq_map, callTokens?_relaid h.kind]
  cases hc : callTokens? ts with
  | none => exact .none
  | some read =>
    obtain ⟨m, rest⟩ := read
    have hm : m <:+: source :=
      (List.IsPrefix.isInfix ⟨rest, (eq_append_of_callTokens? hc).1.symm⟩).trans hs
    exact .some ⟨Token.sameSource_of_isInfix f hm, rfl⟩

theorem call?_alike_of_isWord (h : Relays f source) {t : Token} (hs : t :: ts <:+: source)
    (ht : t.isWord = true) :
    Alike (SameDefault source (source.map f)) f (call? (t :: ts)) (call? ((t :: ts).map f)) := by
  rw [call?_eq_map, call?_eq_map, callTokens?_relaid h.kind]
  cases hc : callTokens? (t :: ts) with
  | none => exact .none
  | some read =>
    obtain ⟨m, rest⟩ := read
    have hm : m <:+: source :=
      (List.IsPrefix.isInfix ⟨rest, (eq_append_of_callTokens? hc).1.symm⟩).trans hs
    refine .some ⟨?_, rfl⟩
    rcases isExpression_of_callTokens? ht hc with rfl | he
    · exact .inl (h.word t (hm.subset (List.mem_singleton_self t)) ht).symm
    · exact Token.sameDefault_of_isInfix f hm he

theorem prefixedLiteral?_alike (h : Relays f source) (hs : ts <:+: source) :
    Alike (SameDefault source (source.map f)) f (prefixedLiteral? ts)
      (prefixedLiteral? (ts.map f)) := by
  match ts with
  | [] | [_] => exact .none
  | t :: u :: ts =>
    simp only [List.map_cons, prefixedLiteral?, h.kind]
    split
    · rename_i ht hu
      have hword : t.isWord = true := by simp [Token.isWord, ht]
      have hstring : u.isString = true := by simp [Token.isString, hu]
      have hchain := List.IsChain.infix h.touching hs
      have htouch := (List.isChain_cons_cons.1 hchain).1 hword hstring
      by_cases hgap : u.gap = ""
      · have hgap' : (f u).gap = "" := htouch.2 hgap
        have hm : [t, u] <:+: source := (List.IsPrefix.isInfix ⟨ts, rfl⟩).trans hs
        have hsame := Token.sameDefault_of_isInfix f hm
          (by simp [Token.isExpression, hword, hstring])
        rw [if_pos hgap, if_pos hgap']
        refine .some ⟨?_, rfl⟩
        simpa [sourceText, hgap, hgap'] using hsame
      · rw [if_neg hgap, if_neg fun hgap' => hgap (htouch.1 hgap')]
        exact .none
    · exact .none

theorem Alike.or {R : α → α → Prop} {first first' second second' : Option (α × List Token)}
    (h : Alike R f first first') (h' : Alike R f second second') :
    Alike R f (first.or second) (first'.or second') := by
  cases h with
  | none => exact h'
  | some h => exact .some h

theorem group?_alike (h : Relays f source) (hs : ts <:+: source) :
    Alike (SameDefault source (source.map f)) f ((group? ts).map fun (g, rest) => (g.text, rest))
      ((group? (ts.map f)).map fun (g, rest) => (g.text, rest)) := by
  rw [group?_relaid h.kind]
  cases hg : group? ts with
  | none => exact .none
  | some read =>
    obtain ⟨⟨opening, inside, closing⟩, rest⟩ := read
    obtain ⟨happ, hk⟩ := eq_append_of_group? hg
    have hm : opening :: inside ++ [closing] <:+: source :=
      (List.IsPrefix.isInfix ⟨rest, happ.symm⟩).trans hs
    have he : Token.isExpression (opening :: inside ++ [closing]) = true := by
      replace hk : opening.kind = .leftParen := hk
      cases inside <;> simp [Token.isExpression, hk]
    refine .some ⟨?_, rfl⟩
    simpa [Group.text, Group.relaid] using Token.sameDefault_of_isInfix f hm he

theorem bareDefault?_alike (h : Relays f source) (hs : ts <:+: source) :
    Alike (SameDefault source (source.map f)) f (bareDefault? ts) (bareDefault? (ts.map f)) := by
  cases ts with
  | nil => exact .none
  | cons t ts =>
    have hgroup := group?_alike h hs
    have hliteral := prefixedLiteral?_alike h hs
    rw [List.map_cons] at hgroup hliteral
    simp only [List.map_cons, bareDefault?, h.kind]
    split
    · exact .some ⟨.inl rfl, rfl⟩
    · exact .some ⟨.inl rfl, rfl⟩
    · exact .some ⟨.inl rfl, rfl⟩
    · exact hgroup
    · rename_i ht
      exact hliteral.or (call?_alike_of_isWord h hs (by simp [Token.isWord, ht]))
    · exact .none

theorem defaultValue?_alike (h : Relays f source) (hs : ts <:+: source) :
    Alike (SameDefault source (source.map f)) f (defaultValue? ts)
      (defaultValue? (ts.map f)) := by
  refine (bareDefault?_alike h hs).bind fun v w rest hv => ?_
  simp only [skipCasts?_relaid h.kind]
  cases skipCasts? rest with
  | none => exact .none
  | some rest => exact .some ⟨hv, rfl⟩

theorem Skips.isInfix {rest : List Token} (h : Skips ts rest) (hs : ts <:+: source) :
    rest <:+: source := by
  obtain ⟨read, -, rfl⟩ := h
  exact (List.suffix_append read rest).isInfix.trans hs

namespace Attribute

inductive SameButSources (xs ys : List Token) : Attribute → Attribute → Prop where
  | same (a : Attribute) : SameButSources xs ys a a
  | default {v w : String} (h : SameDefault xs ys v w) :
      SameButSources xs ys (.default v) (.default w)
  | onUpdate {v w : String} (h : SameSource xs ys v w) :
      SameButSources xs ys (.onUpdate v) (.onUpdate w)
  | check {v w : String} (h : SameSource xs ys v w) : SameButSources xs ys (.check v) (.check w)
  | skippedWord (v w : String) : SameButSources xs ys (.skippedWord v) (.skippedWord w)

theorem skipped?_alike (hf : ∀ t, (f t).kind = t.kind) (xs ys ts : List Token) :
    Alike (SameButSources xs ys) f (skipped? ts) (skipped? (ts.map f)) := by
  rw [skipped?, skipped?, group?_relaid hf, take?_relaid hf]
  cases group? ts with
  | some read => exact .some ⟨.same _, rfl⟩
  | none =>
    cases take? ts with
    | none => exact .none
    | some read => exact .some ⟨.skippedWord _ _, rfl⟩

theorem read?_alike (h : Relays f source) (hs : ts <:+: source) :
    Alike (SameButSources source (source.map f)) f (read? ts) (read? (ts.map f)) := by
  have hf := h.kind
  have hskipped := skipped?_alike hf source (source.map f) ts
  unfold read?
  simp only [flag?_relaid hf, keyword?_relaid hf, keywords?_relaid hf, charset?_relaid hf,
    peekKeyword_relaid hf, reference?_relaid hf]
  cases flag? ts
  case some => exact .some ⟨.same _, rfl⟩
  cases hd : keyword? "DEFAULT" ts
  case some rest =>
    have hvalue := defaultValue?_alike h ((keyword?_consumes hd).skips.isInfix hs)
    exact hvalue.map fun _ _ => .default
  cases keyword? "COMMENT" ts
  case some rest =>
    refine Alike.map (R := Eq) (alike_of_eq (fun _ => rfl) (string?_relaid hf rest)) ?_
    rintro a b rfl
    exact .same _
  cases charset? ts
  case some rest =>
    simp only [Option.map_some, Option.map_none, take?_relaid hf, Option.map_map]
    cases take? rest with
    | none => exact .none
    | some read => exact .some ⟨.same _, rfl⟩
  cases hu : keywords? ["ON", "UPDATE"] ts
  case some rest =>
    have hcall := call?_alike h ((keywords?_skips hu).isInfix hs)
    exact hcall.map fun _ _ => .onUpdate
  cases keyword? "GENERATED" ts
  case some rest =>
    simp only [Option.map_some, Option.map_none, generated_relaid hf]
    exact .some ⟨.same _, rfl⟩
  cases peekKeyword "REFERENCES" ts
  case true =>
    simp only [Option.map_none, if_true, Option.map_map]
    cases Declaration.reference? ts with
    | none => exact .none
    | some read => exact .some ⟨.same _, rfl⟩
  cases hc : keyword? "CHECK" ts
  case some rest =>
    simp only [Option.map_some, Option.map_none, group?_relaid hf, Option.map_map,
      Bool.false_eq_true, if_false]
    cases hg : group? rest with
    | none => exact .none
    | some read =>
      have hm : read.1.inside <:+: source :=
        (inside_isInfix_of_group? hg).trans ((keyword?_consumes hc).skips.isInfix hs)
      exact .some ⟨.check (Token.sameSource_of_isInfix f hm), rfl⟩
  cases keyword? "CONSTRAINT" ts
  case some rest =>
    simp only [Option.map_some, Option.map_none, name?_relaid hf, Option.map_map,
      Bool.false_eq_true, if_false]
    cases Declaration.name? rest with
    | none => exact .none
    | some read => exact .some ⟨.same _, rfl⟩
  exact hskipped

theorem readAll_alike (h : Relays f source) (hs : ts <:+: source) :
    List.Forall₂ (SameButSources source (source.map f)) (readAll ts).1 (readAll (ts.map f)).1 ∧
      (readAll (ts.map f)).2 = (readAll ts).2 := by
  fun_induction readAll ts with
  | case1 ts hd =>
    rw [readAll_eq, isDone_relaid h.kind, if_pos hd]
    exact ⟨.nil, rfl⟩
  | case2 ts hd hr =>
    have hread := read?_alike h hs
    rw [hr] at hread
    rw [readAll_eq, isDone_relaid h.kind, if_neg hd]
    generalize read? (ts.map f) = second at hread
    cases hread
    exact ⟨.nil, rfl⟩
  | case3 ts hd a rest hr others complete ho ih =>
    have hread := read?_alike h hs
    rw [hr] at hread
    rw [readAll_eq (ts.map f), isDone_relaid h.kind, if_neg hd]
    generalize read? (ts.map f) = second at hread
    cases hread with
    | @some _ second hread =>
      obtain ⟨b, rest'⟩ := second
      obtain ⟨hab, rfl⟩ := hread
      obtain ⟨hothers, hcomplete⟩ := ih ((read?_consumes hr).skips.isInfix hs)
      rw [ho] at hothers hcomplete
      exact ⟨.cons hab hothers, hcomplete⟩

end Attribute

namespace DeclaredType

variable {rest : List Token}

theorem name?_skips {name : String} (h : name? ts = some (name, rest)) : Skips ts rest := by
  obtain ⟨⟨t, r⟩, ht, h⟩ := Option.bind_eq_some_iff.1 h
  refine (take?_consumes ht).skips.trans ?_
  dsimp only at h
  split at h
  · rename_i text _
    generalize hlong : List.findSome? _ longNames = long at h
    cases long with
    | none =>
      cases h
      exact .refl _
    | some found =>
      cases h
      obtain ⟨w, -, hw⟩ := List.exists_of_findSome?_eq_some hlong
      split_ifs at hw
      obtain ⟨after, hk, he⟩ := Option.map_eq_some_iff.1 hw
      cases he
      exact (keyword?_consumes hk).skips
  · cases h

theorem readParameters_skips (ts : List Token) : Skips ts (readParameters ts).2 := by
  unfold readParameters
  split
  · rename_i hg
    exact (group?_consumes hg).skips
  · exact .refl _

theorem skipZone_skips (name : String) (ts : List Token) : Skips ts (skipZone name ts) := by
  unfold skipZone
  split_ifs
  · exact skipOneOf_skips _ ts
  · exact .refl _

theorem read?_skips {type : DeclaredType} (h : read? ts = some (type, rest)) : Skips ts rest := by
  obtain ⟨⟨name, r⟩, hn, h⟩ := Option.bind_eq_some_iff.1 h
  have hskips := (name?_skips hn).trans
    ((readParameters_skips r).trans (skipZone_skips name (readParameters r).2))
  dsimp only at h
  generalize serialType? name = serial at h
  cases serial <;>
  · simp only [Option.pure_def, Option.some.injEq, Prod.mk.injEq] at h
    exact h.2 ▸ hskips

end DeclaredType

structure Column.SameButSources (xs ys : List Token) (c d : Column) : Prop where
  name : c.name = d.name
  type : c.type = d.type
  attributes : List.Forall₂ (Attribute.SameButSources xs ys) c.attributes d.attributes

theorem Column.read?_alike (h : Relays f source) (hs : ts <:+: source) :
    Option.Rel (fun c d => SameButSources source (source.map f) c.1 d.1 ∧ d.2 = c.2)
      (read? ts) (read? (ts.map f)) := by
  rw [read?, read?, Declaration.name?_relaid h.kind]
  cases hn : Declaration.name? ts with
  | none => exact .none
  | some read =>
    simp only [Option.map_some, Option.bind_eq_bind, Option.bind_some, relaidRest,
      DeclaredType.read?_relaid h.kind]
    cases ht : DeclaredType.read? read.2 with
    | none => exact .none
    | some type =>
      have hrest : type.2 <:+: source :=
        ((name?_consumes hn).skips.trans (DeclaredType.read?_skips ht)).isInfix hs
      obtain ⟨hattributes, hcomplete⟩ := Attribute.readAll_alike h hrest
      exact .some ⟨⟨rfl, rfl, hattributes⟩, hcomplete⟩

namespace Clause

inductive SameButSources (xs ys : List Token) : Clause → Clause → Prop where
  | same (c : Clause) : SameButSources xs ys c c
  | check (name : Option String) {v w : String} (h : SameSource xs ys v w) :
      SameButSources xs ys (.check name v) (.check name w)
  | column {c d : Column} (h : c.SameButSources xs ys d) :
      SameButSources xs ys (.column c) (.column d)

theorem constraintName?_skips {name : Option String} {rest : List Token}
    (h : constraintName? ts = some (name, rest)) : Skips ts rest := by
  unfold constraintName? at h
  split at h
  · cases h
    exact .refl _
  · rename_i hk
    refine (keyword?_consumes hk).skips.trans ?_
    split_ifs at h
    · cases h
      exact .refl _
    · obtain ⟨read, hn, he⟩ := Option.map_eq_some_iff.1 h
      cases he
      exact (name?_consumes hn).skips

theorem rel_of_eq (xs ys : List Token) {first second : Option Clause} (h : second = first) :
    Option.Rel (SameButSources xs ys) first second := by
  subst h
  cases second with
  | none => exact .none
  | some c => exact .some (.same c)

theorem read_alike (h : Relays f source) (hs : ts <:+: source) :
    Option.Rel (SameButSources source (source.map f)) (read ts).clause?
      (read (ts.map f)).clause? := by
  have hf := h.kind
  rw [read, read, constraintName?_relaid hf]
  cases hn : constraintName? ts
  case none => exact .none
  rename_i found
  obtain ⟨constraint, rest⟩ := found
  have hrest : rest <:+: source := (constraintName?_skips hn).isInfix hs
  simp only [Option.map_some, relaidRest, keywords?_relaid hf, keyword?_relaid hf,
    indexKind?_relaid hf]
  cases keywords? ["PRIMARY", "KEY"] rest
  case some rest =>
    simp only [Option.map_some, skipMethod_relaid hf, columns?_relaid hf, Option.map_map]
    exact rel_of_eq _ _ rfl
  cases indexKind? rest
  case some found =>
    simp only [Option.map_none, Option.map_some, relaidRest, index?_relaid hf]
    exact rel_of_eq _ _ rfl
  cases keywords? ["FOREIGN", "KEY"] rest
  case some rest =>
    simp only [Option.map_none, Option.map_some, foreignKey?_relaid hf]
    exact rel_of_eq _ _ rfl
  cases hc : keyword? "CHECK" rest
  case some rest =>
    simp only [Option.map_none, Option.map_some, group?_relaid hf, Option.map_map,
      Reading.clause?_ofOption]
    cases hg : group? rest with
    | none => exact .none
    | some read =>
      have hm : read.1.inside <:+: source :=
        (inside_isInfix_of_group? hg).trans ((keyword?_consumes hc).skips.isInfix hrest)
      exact .some (.check _ (Token.sameSource_of_isInfix f hm))
  simp only [Option.map_none]
  split_ifs
  · exact .none
  · have hcolumn := Column.read?_alike h hrest
    generalize Column.read? rest = first at hcolumn
    generalize Column.read? (rest.map f) = second at hcolumn
    cases hcolumn with
    | none => exact .none
    | @some first second hread =>
      obtain ⟨c, complete⟩ := first
      obtain ⟨d, complete'⟩ := second
      obtain ⟨hcd, rfl⟩ := hread
      cases complete' with
      | true => exact .some (.column hcd)
      | false => exact .none

end Clause

end Declaration

end SqlTables
