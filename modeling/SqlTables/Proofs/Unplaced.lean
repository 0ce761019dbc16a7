import SqlTables.Parse
import SqlTables.Proofs.Relaid.Draft
import SqlTables.Proofs.Token.Scanning

/-! Statements without places. What stands before `CREATE TABLE` moves the tokens after it, so it
changes the places that errors give and nothing else. -/

namespace SqlTables

open Declaration
open Text (Position)

namespace Token

def unplaced (t : Token) : Token := { t with start := .start }

theorem sourceText_unplaced (ts : List Token) : sourceText (ts.map unplaced) = sourceText ts := by
  cases ts with
  | nil => rfl
  | cons t ts => simp [sourceText, List.foldl_map, unplaced]

theorem relays_unplaced (source : List Token) : Relays unplaced source where
  kind _ := rfl
  word _ _ _ := rfl
  touching := (List.pairwise_of_forall fun _ _ _ _ => Iff.rfl).isChain

theorem SameSource.eq_of_unplaced {source : List Token} {v w : String}
    (h : SameSource source (source.map unplaced) v w) : v = w := by
  obtain h | ⟨i, n, rfl, rfl⟩ := h
  · exact h
  · rw [run, run, ← List.map_drop, ← List.map_take, sourceText_unplaced]

theorem SameDefault.eq_of_unplaced {source : List Token} {v w : String}
    (h : SameDefault source (source.map unplaced) v w) : v = w := by
  obtain h | ⟨i, n, -, hv, hw⟩ := h
  · exact h
  · exact SameSource.eq_of_unplaced (.inr ⟨i, n, hv, hw⟩)

end Token

open Token (unplaced)

def ScanError.unplaced : ScanError → ScanError
  | .unterminatedLiteral _ _ => .unterminatedLiteral 1 1
  | .unexpected message _ _ snippet => .unexpected message 1 1 snippet

def ParseError.unplaced : ParseError → ParseError
  | .scan e => .scan e.unplaced
  | .unterminatedColumnList _ _ => .unterminatedColumnList 1 1
  | .unreadableItem fragment _ _ => .unreadableItem fragment 1 1
  | e => e

/-- Whether two results are the same but for the places that errors give. -/
def SameButPlaces {α : Type} (first second : Except ParseError α) : Prop :=
  first.mapError ParseError.unplaced = second.mapError ParseError.unplaced

theorem eq_of_rel {α : Type} {R : α → α → Prop} {x y : Option α} (h : Option.Rel R x y)
    (hR : ∀ a b, R a b → a = b) : x = y := by
  cases h with
  | none => rfl
  | some h => rw [hR _ _ h]

theorem eq_of_forall₂ {α : Type} {R : α → α → Prop} {xs ys : List α} (h : List.Forall₂ R xs ys)
    (hR : ∀ a b, R a b → a = b) : xs = ys :=
  List.forall₂_eq_eq_eq ▸ h.imp hR

theorem Field.SameButSources.eq_of_unplaced {source : List Token} {f g : Field}
    (h : f.SameButSources source (source.map unplaced) g) : f = g := by
  obtain ⟨hbare, hdefault, honUpdate⟩ := h
  have hdefault := eq_of_rel hdefault fun _ _ => Token.SameDefault.eq_of_unplaced
  have honUpdate := eq_of_rel honUpdate fun _ _ => Token.SameSource.eq_of_unplaced
  cases f
  cases g
  simp_all [Field.bare]

theorem Check.SameButSources.eq_of_unplaced {source : List Token} {c d : Check}
    (h : c.SameButSources source (source.map unplaced) d) : c = d := by
  have hexpression := h.expression.eq_of_unplaced
  cases c
  cases d
  rw [Check.mk.injEq]
  exact ⟨h.name, hexpression⟩

theorem Draft.SameButSources.eq_of_unplaced {source : List Token} {d e : Draft}
    (h : d.SameButSources source (source.map unplaced) e) : d = e := by
  obtain ⟨⟨hbare, hfields, hchecks⟩, hprimary⟩ := h
  have hfields := eq_of_forall₂ hfields fun _ _ => Field.SameButSources.eq_of_unplaced
  have hchecks := eq_of_forall₂ hchecks fun _ _ => Check.SameButSources.eq_of_unplaced
  obtain ⟨t, primaryKey⟩ := d
  obtain ⟨u, primaryKey'⟩ := e
  cases t
  cases u
  simp_all [Table.bare]

namespace Draft

theorem unreadable_unplaced (i : Item) :
    unreadable (i.relaid unplaced) = (unreadable i).unplaced := by
  have htext : Token.sourceText (i.relaid unplaced).tokens = Token.sourceText i.tokens :=
    Token.sourceText_unplaced i.tokens
  have hplace : ((i.relaid unplaced).tokens.headD (i.relaid unplaced).stop).start = .start := by
    unfold Item.relaid
    cases i.tokens <;> rfl
  rw [unreadable, htext, hplace]
  rfl

theorem read_unplaced (ts : List Token) :
    read (ts.map unplaced) = (read ts).mapError .unplaced := by
  have hread := read_relaid (Token.relays_unplaced ts)
  generalize read ts = first at hread
  generalize read (ts.map unplaced) = second at hread
  cases hread with
  | ok h => rw [h.eq_of_unplaced]; rfl
  | error h =>
    cases h with
    | missingHeader => rfl
    | unterminatedColumnList t => rfl
    | unreadable i _ => exact congrArg Except.error (unreadable_unplaced i)

theorem read_congr {ts us rest rest' : List Token}
    (hskip : ∀ rest, afterCreateTable? (ts ++ rest) = afterCreateTable? (us ++ rest))
    (hrest : rest.map unplaced = rest'.map unplaced) :
    SameButPlaces (read (ts ++ rest)) (read (us ++ rest')) := by
  have hread : read (ts ++ rest) = read (us ++ rest) := by
    rw [read, read, Definition.read, Definition.read, header?, header?, hskip]
  rw [SameButPlaces, hread, ← read_unplaced, ← read_unplaced, List.map_append, List.map_append,
    hrest]

end Draft

namespace Scan

def unplaced (s : Scan) : Scan :=
  ⟨s.tokens.map Token.unplaced, s.unterminated.map fun _ => .start, s.gap⟩

theorem scanFrom_of_head?_eq_none {gap rest : List Char} {c : Char} (hgap : Gap gap)
    (hc : isGap c = false) (ht : head? c rest = none) (p : Position) :
    scanFrom p (gap ++ c :: rest) = ⟨[], some (p.advance gap), String.ofList gap⟩ := by
  obtain ⟨htake, hdrop⟩ := takeWhile_append_of_gap hgap hc rest
  rw [scanFrom]
  split
  · rename_i h
    simp [hdrop] at h
  · rename_i c' rest' h
    rw [hdrop, List.cons.injEq] at h
    obtain ⟨rfl, rfl⟩ := h
    split
    · rw [htake]
    · rename_i h
      simp [ht] at h

theorem scanFrom_unplaced (p q : Position) (cs : List Char) :
    (scanFrom p cs).unplaced = (scanFrom q cs).unplaced := by
  have hgap : Gap (cs.takeWhile isGap) := fun _ => List.mem_takeWhile_imp
  have happ : cs.takeWhile isGap ++ cs.dropWhile isGap = cs := List.takeWhile_append_dropWhile
  cases hdrop : cs.dropWhile isGap with
  | nil =>
    rw [hdrop, List.append_nil] at happ
    rw [happ] at hgap
    rw [scanFrom_of_gap hgap, scanFrom_of_gap hgap]
  | cons c rest =>
    have hc : isGap c = false := isGap_of_dropWhile hdrop
    have hcs : cs.takeWhile isGap ++ c :: rest = cs := hdrop ▸ happ
    rw [← hcs]
    cases ht : head? c rest with
    | none =>
      rw [scanFrom_of_head?_eq_none hgap hc ht, scanFrom_of_head?_eq_none hgap hc ht]
      rfl
    | some t =>
      have ih := scanFrom_unplaced ((p.advance (cs.takeWhile isGap)).advance t.lexeme)
        ((q.advance (cs.takeWhile isGap)).advance t.lexeme) t.rest
      rw [unplaced, unplaced, Scan.mk.injEq] at ih
      rw [scanFrom_token hgap hc ht, scanFrom_token hgap hc ht]
      simp only [unplaced, List.map_cons, ih]
      rfl
termination_by cs.length
decreasing_by
  have hrest := length_lt_of_head? ht
  have hlength := congrArg List.length hcs
  rw [List.length_append] at hlength
  omega

theorem Scans.scanFrom_append {p p' : Position} {as cs : List Char} {ts : List Token}
    (h : Scans p as ts p' cs) : scanFrom p as =
      ⟨ts ++ (scanFrom p' cs).tokens, (scanFrom p' cs).unterminated, (scanFrom p' cs).gap⟩ := by
  induction h with
  | done => rfl
  | token hg hc ht _ ih =>
    rw [scanFrom_token hg hc ht, ih]
    rfl

theorem Scans.exists_append {p p' q : Position} {as cs gap : List Char} {ts us : List Token}
    (h : Scans p as ts p' cs) (hall : Scans p as us q gap) (hgap : Gap gap) :
    ∃ vs q' gap', us = ts ++ vs ∧ Gap gap' ∧ Scans p' cs vs q' gap' := by
  have hscan := h.scanFrom_append
  rw [hall.scanFrom_eq hgap, Scan.mk.injEq] at hscan
  obtain ⟨q', gap', hgap', hrest, -⟩ := scans_of_unterminated_eq_none hscan.2.1.symm
  exact ⟨_, q', gap', hscan.1, hgap', hrest⟩

end Scan

namespace Table

def settled : Except ParseError Draft → Except ParseError Table
  | .error e => .error e
  | .ok d => d.settle.mapError .schema

theorem parseStatement_eq (text : String) : parseStatement text =
    match Token.tokenize text with
    | .error e => .error (.scan e)
    | .ok ts => settled (Draft.read ts) := rfl

theorem sameButPlaces_settled {first second : Except ParseError Draft}
    (h : SameButPlaces first second) : SameButPlaces (settled first) (settled second) := by
  cases first <;> cases second
  · exact congrArg Except.error (Except.error.inj h)
  · cases h
  · cases h
  · rw [Except.ok.inj h]
    rfl

theorem parseStatement_congr {text text' : String} {ts us : List Token} {p q : Position}
    {cs : List Char} (h : Scan.Scans .start text.toList ts p cs)
    (h' : Scan.Scans .start text'.toList us q cs)
    (hskip : ∀ rest, Draft.afterCreateTable? (ts ++ rest) = Draft.afterCreateTable? (us ++ rest)) :
    SameButPlaces (parseStatement text) (parseStatement text') := by
  have hscan := Scan.scanFrom_unplaced p q cs
  rw [Scan.unplaced, Scan.unplaced, Scan.mk.injEq] at hscan
  obtain ⟨htokens, hplace, hgap⟩ := hscan
  simp only [parseStatement_eq, Token.tokenize, Scan.ofText, h.scanFrom_append,
    h'.scanFrom_append]
  cases hp : (Scan.scanFrom p cs).unterminated with
  | some place =>
    rw [hp] at hplace
    obtain ⟨place', hq⟩ := Option.map_eq_some_iff.1 hplace.symm
    rw [hq.1]
    rfl
  | none =>
    rw [hp, Option.map_none, eq_comm, Option.map_eq_none_iff] at hplace
    have hrest : ((Scan.scanFrom p cs).tokens ++
          ([⟨(Scan.scanFrom p cs).gap, .eof, "", Token.endPosition text⟩] : List Token)).map
            unplaced =
        ((Scan.scanFrom q cs).tokens ++
          ([⟨(Scan.scanFrom q cs).gap, .eof, "", Token.endPosition text'⟩] : List Token)).map
            unplaced := by
      rw [List.map_append, List.map_append, htokens, hgap]
      rfl
    simp only [hplace, List.append_assoc]
    exact sameButPlaces_settled (Draft.read_congr hskip hrest)

end Table

end SqlTables
