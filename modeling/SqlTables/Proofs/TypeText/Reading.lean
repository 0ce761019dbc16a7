import SqlTables.Proofs.Members
import SqlTables.Proofs.RoundTrip.Moved
import SqlTables.Proofs.TypeText.Words

/-! Types as they are written: a word in upper case with up to two sizes, or `DOUBLE PRECISION`.
Wherever such a text is the text of a column's type, the tokens of the type are those it was made
of, and so the type is the one that it names. -/

namespace SqlTables

open Declaration Lexeme
open Scan (Gap Scans beginsWord continuesWord head? isGap)
open Text (Position)
open Token (Spelled extent sourceText)

variable {ts us rest : List Token} {t : Token} {w name text : String} {p p' q : Position}
  {as cs tail gap : List Char} {type : DeclaredType}

namespace Declaration

def DeclaredType.named (name : String) (parameters : List TypeParameter) : DeclaredType :=
  match serialType? name with
  | some type => ⟨type, true, parameters⟩
  | none => ⟨.ofName name, false, parameters⟩

def Column.IsRead (c : Column) : Prop :=
  ∃ text ts last us, Token.tokenize text = .ok (ts ++ [last]) ∧ us <:+: ts ∧
    Column.read? us = some (c, true)

/-- Whether the column is read of such tokens, and those of its type have the text. -/
def Column.HasTypeText (c : Column) (text : String) : Prop :=
  ∃ source ts last name us rest, Token.tokenize source = .ok (ts ++ [last]) ∧
    name :: (us ++ rest) <:+: ts ∧ Column.read? (name :: (us ++ rest)) = some (c, true) ∧
    DeclaredType.read? (us ++ rest) = some (c.type, rest) ∧ Token.sourceText us = text

end Declaration

def writtenSizes : Option UInt32 → Option UInt32 → List UInt32
  | some n, s => n :: s.toList
  | none, _ => []

/-- The texts of types, each with the type that it names. -/
inductive TypeText : String → DeclaredType → Prop where
  | word {w : String} (hw : isBareWord w = true) (hu : Text.upperCase w = w)
      (n s : Option UInt32) :
      TypeText (Dialect.withSizes w n s) (.named w ((writtenSizes n s).map .size))
  | doublePrecision : TypeText "DOUBLE PRECISION" (.named "DOUBLE PRECISION" [])

namespace Declaration.DeclaredType

theorem read?_of_name? (h : name? ts = some (name, rest)) :
    read? ts =
      some (.named name (readParameters rest).1, skipZone name (readParameters rest).2) := by
  rw [read?, h]
  simp only [named]
  cases hs : serialType? name <;> simp [hs]

theorem length_skipZone_le (name : String) (ts : List Token) :
    (skipZone name ts).length ≤ ts.length := by
  unfold skipZone
  split_ifs
  · exact (skipOneOf_skips _ ts).length_le
  · exact Nat.le_refl _

theorem readParameters_cases (ts : List Token) :
    readParameters ts = ([], ts) ∨ (readParameters ts).2.length < ts.length := by
  unfold readParameters
  split
  · exact .inr (group?_consumes ‹_›).length_lt
  · exact .inl rfl

theorem eq_named_of_read? {type : DeclaredType} (hname : name? ts = some (name, us))
    (h : read? ts = some (type, rest)) (hlength : us.length ≤ rest.length) :
    us = rest ∧ type = .named name [] := by
  rw [read?_of_name? hname, Option.some.injEq, Prod.mk.injEq] at h
  obtain ⟨rfl, hrest⟩ := h
  have hzone := length_skipZone_le name (readParameters us).2
  rw [hrest] at hzone
  rcases readParameters_cases us with hnone | hlt
  · rw [hnone] at hrest hzone ⊢
    refine ⟨?_, rfl⟩
    unfold skipZone at hrest
    split_ifs at hrest
    · obtain ⟨read, -, hsplit⟩ := skipOneOf_skips [["WITH", "TIME", "ZONE"],
        ["WITHOUT", "TIME", "ZONE"]] us
      rw [hrest] at hsplit
      have hread := congrArg List.length hsplit
      rw [List.length_append] at hread
      have hnil : read = [] := List.eq_nil_of_length_eq_zero (by omega)
      simpa [hnil] using hsplit
    · exact hrest
  · omega

theorem name?_word (ht : t.kind = .word w) (hu : Text.upperCase w = w) (ts : List Token) :
    name? (t :: ts) = some ((longNames.findSome? fun n =>
      if w = n.1 then (keyword? n.2.1 ts).map (n.2.2, ·) else none).getD (w, ts)) := by
  rw [name?, take?, if_neg (by simp [ht])]
  simp [ht, hu]

theorem name?_of_endsType (ht : t.kind = .word w) (hu : Text.upperCase w = w) (h : EndsType ts) :
    name? (t :: ts) = some (w, ts) := by
  have hlong : (longNames.findSome? fun n =>
      if w = n.1 then (keyword? n.2.1 ts).map (n.2.2, ·) else none) = none := by
    simp [longNames, h "PRECISION" (by simp), h "VARYING" (by simp)]
  rw [name?_word ht hu, hlong]
  rfl

theorem exists_name?_word (ht : t.kind = .word w) (hu : Text.upperCase w = w) (ts : List Token) :
    ∃ name us, name? (t :: ts) = some (name, us) ∧
      (us.length < ts.length ∨ name = w ∧ us = ts) := by
  rw [name?_word ht hu]
  cases hlong : longNames.findSome? fun n =>
      if w = n.1 then (keyword? n.2.1 ts).map (n.2.2, ·) else none with
  | none => exact ⟨w, ts, rfl, .inr ⟨rfl, rfl⟩⟩
  | some found =>
    obtain ⟨name, us⟩ := found
    refine ⟨name, us, rfl, .inl ?_⟩
    obtain ⟨n, -, hn⟩ := List.exists_of_findSome?_eq_some hlong
    split_ifs at hn
    obtain ⟨us', hus, he⟩ := Option.map_eq_some_iff.1 hn
    cases he
    exact (keyword?_consumes hus).length_lt

theorem eq_named_of_word (ht : t.kind = .word w) (hu : Text.upperCase w = w)
    (h : read? (t :: rest) = some (type, rest)) : type = .named w [] := by
  obtain ⟨name, us, hname, hlt | ⟨rfl, rfl⟩⟩ := exists_name?_word ht hu rest
  · obtain ⟨rfl, -⟩ := eq_named_of_read? hname h (by omega)
    omega
  · exact (eq_named_of_read? hname h (Nat.le_refl _)).2

end Declaration.DeclaredType

namespace Scan

theorem Scans.split {ts us : List Token} (h : Scans p as (ts ++ us) q cs) :
    ∃ p' bs, Scans p as ts p' bs ∧ Scans p' bs us q cs := by
  induction ts generalizing p as with
  | nil => exact ⟨p, as, .done p as, h⟩
  | cons t ts ih =>
    cases h with
    | token hgap hc ht hts =>
      obtain ⟨p', bs, hfirst, hlast⟩ := ih hts
      exact ⟨p', bs, .token hgap hc ht hfirst, hlast⟩

theorem head?_of_beginsWord {c : Char} (hc : beginsWord c = true) (rest : List Char) :
    head? c rest = some ⟨.word (String.ofList (c :: rest.takeWhile continuesWord)),
      c :: rest.takeWhile continuesWord, rest.dropWhile continuesWord⟩ := by
  have hplain : Source.isQuote c = false := Source.not_quote_of_class (by decide) hc
  rw [head?, if_neg (by simp [hplain]), number?_eq_none_of_beginsWord hc]
  simp only [hc, if_true]

theorem Scans.exists_word (h : Scans p as (t :: ts) q cs) (hw : isBareWord w = true)
    (has : as = t.gap.toList ++ (w.toList ++ tail)) :
    t.lexeme = w ++ String.ofList (tail.takeWhile continuesWord) ∧ t.kind = .word t.lexeme ∧
      ∃ p', Scans p' (tail.dropWhile continuesWord) ts q cs := by
  obtain ⟨hfirst, hne, hall⟩ := isBareWord_iff.1 hw
  obtain ⟨d, w', hs⟩ := List.exists_cons_of_ne_nil hne
  rw [hs] at hfirst hall
  rw [List.forall_mem_cons] at hall
  cases h with
  | @token _ _ gap rest _ c head _ hgap hc ht hts =>
    rw [String.toList_ofList, List.append_cancel_left_eq, hs, List.cons_append,
      List.cons.injEq] at has
    obtain ⟨rfl, rfl⟩ := has
    have htake : (w' ++ tail).takeWhile continuesWord = w' ++ tail.takeWhile continuesWord :=
      List.takeWhile_append_of_pos hall.2
    have hdrop : (w' ++ tail).dropWhile continuesWord = tail.dropWhile continuesWord :=
      List.dropWhile_append_of_pos hall.2
    rw [head?_of_beginsWord (hfirst c rfl), htake, hdrop, Option.some.injEq] at ht
    subst ht
    refine ⟨?_, rfl, _, hts⟩
    rw [← String.toList_inj]
    simp [hs]

end Scan

theorem eq_nil_of_extent (h : ∀ t ∈ ts, Spelled t) (he : extent ts = 0) : ts = [] := by
  cases ts with
  | nil => rfl
  | cons t ts =>
    have hpos := (h t List.mem_cons_self).pos
    rw [Token.extent_cons, Token.width] at he
    omega

theorem eq_of_extent {xs ys : List Token} (h : us ++ xs = ts ++ ys)
    (hspelled : ∀ t ∈ us ++ xs, Spelled t) (he : extent us = extent ts) : us = ts := by
  rcases List.append_eq_append_iff.1 h with ⟨zs, rfl, rfl⟩ | ⟨zs, rfl, rfl⟩
  · rw [Token.extent_append] at he
    have hzs := eq_nil_of_extent (fun t ht => hspelled t (by simp [ht])) (by omega : extent zs = 0)
    simp [hzs]
  · rw [Token.extent_append] at he
    have hzs := eq_nil_of_extent (fun t ht => hspelled t (by simp [ht])) (by omega : extent zs = 0)
    simp [hzs]

theorem eq_nil_of_scans_word {after : List Token} (h : Scans p as (t :: (us ++ after)) q cs)
    (hw : isBareWord w = true) (htext : (sourceText (t :: us)).toList = w.toList) :
    us = [] ∧ t.kind = .word w := by
  have has := textOf_append_of_scans h
  rw [List.map_cons, textOf_cons, List.map_append, textOf_append] at has
  rw [toList_sourceText_cons] at htext
  have hbegins : as = t.gap.toList ++ (w.toList ++ (textOf (after.map ofToken) ++ cs)) := by
    rw [← htext, ← has]
    simp [ofToken]
  have hword := h.exists_word hw hbegins
  have hlexeme := congrArg (fun s => s.toList.length) hword.1
  have hlength := congrArg List.length htext
  simp only [String.toList_append, List.length_append, String.toList_ofList] at hlexeme hlength
  have hnone : extent us = 0 := by
    rw [extent_eq_length_textOf]
    omega
  have hspelled := h.spelled
  have hnil := eq_nil_of_extent (fun u hu => hspelled u (by simp [hu])) hnone
  refine ⟨hnil, ?_⟩
  have hsame : t.lexeme = w := by
    rw [← String.toList_inj, ← htext, hnil]
    simp
  rw [hword.2.1, hsame]

theorem Scan.Scans.gap_eq {c : Char} {rest : List Char} (hgap : Gap gap) (hc : isGap c = false)
    (h : Scans p (gap ++ c :: rest) (t :: ts) q cs) : t.gap = String.ofList gap := by
  generalize has : gap ++ c :: rest = as at h
  cases h with
  | @token _ _ gap' rest' _ c' _ _ hgap' hc' _ _ =>
    have htake := congrArg (List.takeWhile isGap) has
    rw [(Scan.takeWhile_append_of_gap hgap hc rest).1,
      (Scan.takeWhile_append_of_gap hgap' hc' rest').1] at htake
    rw [htake]

theorem eq_tokensAt_of_written {ws : List Lexeme} {after : List Token}
    (hw : ∀ after, Written ws after) (h : Scans p as (us ++ after) q gap) (hgap : Gap gap)
    (htext : textOf (us.map ofToken) = textOf ws) : us = tokensAt p ws := by
  have has := textOf_append_of_scans h
  rw [List.map_append, textOf_append, htext, List.append_assoc] at has
  have hscans := (hw (textOf (after.map ofToken) ++ gap)).scans p
  rw [has] at hscans
  obtain ⟨vs, q', gap', hvs, -, -⟩ := hscans.exists_append h hgap
  refine eq_of_extent hvs h.spelled ?_
  rw [extent_eq_length_textOf, htext, Token.extent_tokensAt]

def Lexeme.sizes (ns : List UInt32) : List Lexeme := ns.map fun n => number [] (toString n.toNat)

def Lexeme.sizeGroup (ns : List UInt32) : List Lexeme :=
  if ns.isEmpty then [] else group [] (separated (sizes ns))

theorem toList_withSizes (w : String) (n s : Option UInt32) :
    (Dialect.withSizes w n s).toList = w.toList ++ textOf (sizeGroup (writtenSizes n s)) := by
  have hsizes (ns : List UInt32) : textOf (separated (sizes ns)) =
      (",".intercalate (ns.map fun n => toString n.toNat)).toList := by
    apply textOf_separated_map
    intro n
    rw [chars_number, List.nil_append]
  cases n with
  | none => simp [Dialect.withSizes, writtenSizes, sizeGroup]
  | some n =>
    cases s <;>
      simp [Dialect.withSizes, Dialect.sized, writtenSizes, sizeGroup, textOf_group, hsizes]

theorem tight_sizes (ns : List UInt32) : Tight (separated (sizes ns)) := by
  apply tight_separated
  intro w hw
  obtain ⟨n, -, rfl⟩ := List.mem_map.1 hw
  exact tight_number (isNumeral_toString n.toNat) gap_nil

theorem written_group {ws : List Lexeme} (h : Tight ws) (after : List Char) :
    Written (group [] ws) after :=
  (written_mark (by decide) gap_nil _).append
    ((h _ (Scan.delimited_cons.2 (by decide))).append (written_mark (by decide) gap_nil after))

theorem written_sizeGroup (ns : List UInt32) (after : List Char) :
    Written (sizeGroup ns) after := by
  unfold sizeGroup
  split_ifs
  · exact .nil after
  · exact written_group (tight_sizes ns) after

theorem isPart_of_mem_sizes {ns : List UInt32} {v : Lexeme} (h : v ∈ sizes ns) :
    v.kind.isPart = true := by
  obtain ⟨n, -, rfl⟩ := List.mem_map.1 h
  rfl

theorem read_sizes {ns : List UInt32} (hns : ns ≠ []) (p : Position) :
    (splitCommas 0 (tokensAt p (separated (sizes ns)))).map TypeParameter.read =
      ns.map .size := by
  have hne : sizes ns ≠ [] := fun h => hns (List.map_eq_nil_iff.1 h)
  rw [read_separated hne fun v => isPart_of_mem_sizes, sizes, List.map_map, List.map_map]
  exact List.map_congr_left fun n _ => parameterOfKind_number n

theorem read?_word_sizes (ht : t.kind = .word w) (hu : Text.upperCase w = w) {ns : List UInt32}
    (hns : ns ≠ []) (p : Position) (rest : List Token) :
    DeclaredType.read? (t :: (tokensAt p (sizeGroup ns) ++ rest)) =
      some (.named w (ns.map .size), DeclaredType.skipZone w rest) := by
  obtain ⟨q, q', q'', hgroup⟩ := tokensAt_group p [] (separated (sizes ns)) []
  have hparts := nesting?_tokensAt (isInner_of_mem_separated fun w => @isPart_of_mem_sizes ns w) q
  have htokens : tokensAt p (sizeGroup ns) ++ rest =
      (mark [] '(').token p :: tokensAt q (separated (sizes ns)) ++
        (mark [] ')').token q' :: rest := by
    rw [sizeGroup, if_neg (by simpa using hns)]
    rw [List.append_nil] at hgroup
    simp [hgroup]
  have hends : EndsType (tokensAt p (sizeGroup ns) ++ rest) := by
    rw [htokens]
    exact fun _ _ => rfl
  have hparameters : DeclaredType.readParameters (tokensAt p (sizeGroup ns) ++ rest) =
      (ns.map .size, rest) := by
    rw [htokens, DeclaredType.readParameters, group?_append rfl rfl hparts]
    simp only [read_sizes hns]
  rw [DeclaredType.read?_of_name? (DeclaredType.name?_of_endsType ht hu hends), hparameters]

theorem word_of_scans {after : List Token} {c : Char} {cont : List Char}
    (h : Scans p as (t :: (us ++ after)) q cs) (hw : isBareWord w = true)
    (hc : continuesWord c = false)
    (htext : (sourceText (t :: us)).toList = w.toList ++ c :: cont) :
    t.kind = .word w ∧ textOf (us.map ofToken) = c :: cont ∧
      ∃ p', Scans p' (c :: cont ++ (textOf (after.map ofToken) ++ cs)) (us ++ after) q cs := by
  have has := textOf_append_of_scans h
  rw [List.map_cons, textOf_cons, List.map_append, textOf_append] at has
  rw [toList_sourceText_cons] at htext
  have hbegins : as = t.gap.toList ++
      (w.toList ++ (c :: cont ++ (textOf (after.map ofToken) ++ cs))) := by
    rw [← List.append_assoc w.toList, ← htext, ← has]
    simp [ofToken]
  obtain ⟨hlexeme, hkind, p', hscans⟩ := h.exists_word hw hbegins
  rw [List.cons_append, List.takeWhile_cons_of_neg (by simp [hc]), String.ofList_nil,
    String.append_empty] at hlexeme
  rw [List.cons_append, List.dropWhile_cons_of_neg (by simp [hc])] at hscans
  rw [hlexeme, List.append_cancel_left_eq] at htext
  exact ⟨hlexeme ▸ hkind, htext, p', hscans⟩

theorem TypeText.ne_nil (h : TypeText text type) : text.toList ≠ [] := by
  cases h with
  | word hw => simp [toList_withSizes, (isBareWord_iff.1 hw).2.1]
  | doublePrecision => simp

theorem named_of_scans {after : List Token} {found : DeclaredType} (h : TypeText text type)
    (hscans : Scans p as (us ++ (rest ++ after)) q gap) (hgap : Gap gap)
    (hread : DeclaredType.read? (us ++ rest) = some (found, rest))
    (htext : (sourceText us).toList = text.toList) : found = type := by
  cases us with
  | nil => exact absurd htext.symm h.ne_nil
  | cons t us =>
    cases h with
    | @word w hw hu n s =>
      rw [toList_withSizes] at htext
      cases hns : writtenSizes n s with
      | nil =>
        rw [hns] at htext
        obtain ⟨rfl, hkind⟩ := eq_nil_of_scans_word hscans hw (by simpa [sizeGroup] using htext)
        exact DeclaredType.eq_named_of_word hkind hu hread
      | cons m ms =>
        rw [hns] at htext
        have hgroup : textOf (sizeGroup (m :: ms)) =
            '(' :: (textOf (separated (sizes (m :: ms))) ++ [')']) := by
          simp [sizeGroup, textOf_group]
        rw [hgroup] at htext
        obtain ⟨hkind, hparameters, p', htail⟩ := word_of_scans hscans hw (by decide) htext
        rw [← hgroup] at hparameters
        have hus := eq_tokensAt_of_written (written_sizeGroup (m :: ms)) htail hgap hparameters
        rw [hus, List.cons_append, read?_word_sizes hkind hu (by simp), Option.some.injEq,
          Prod.mk.injEq] at hread
        exact hread.1.symm
    | doublePrecision =>
      have hwords : "DOUBLE PRECISION".toList = "DOUBLE".toList ++ ' ' :: "PRECISION".toList := by
        decide
      rw [hwords] at htext
      obtain ⟨hkind, hprecision, p', htail⟩ := word_of_scans hscans (by decide) (by decide) htext
      cases us with
      | nil => simp at hprecision
      | cons u us =>
        have hspace : u.gap = String.ofList [' '] :=
          Scan.Scans.gap_eq (c := 'P') gap_space (by decide) htail
        have hsecond : (sourceText (u :: us)).toList = "PRECISION".toList := by
          rw [List.map_cons, textOf_cons] at hprecision
          rw [toList_sourceText_cons]
          simpa [ofToken, hspace] using hprecision
        obtain ⟨rfl, hkind'⟩ := eq_nil_of_scans_word htail (by decide) hsecond
        have hkeyword : u.isKeyword "PRECISION" = true := by
          rw [Token.isKeyword, hkind']
          decide
        have hname : DeclaredType.name? (t :: u :: rest) = some ("DOUBLE PRECISION", rest) := by
          rw [DeclaredType.name?_word hkind (by decide)]
          simp [DeclaredType.longNames, keyword?, hkeyword]
        exact (DeclaredType.eq_named_of_read? hname hread (Nat.le_refl _)).2

theorem Declaration.Column.HasTypeText.eq {c : Column} (hc : c.HasTypeText text)
    (h : TypeText text type) : c.type = type := by
  obtain ⟨source, ts, last, name, us, rest, htokens, ⟨before, after, rfl⟩, -, hread, rfl⟩ := hc
  obtain ⟨p, gap, hgap, hscans⟩ := Token.exists_scans_of_tokenize htokens
  rw [List.append_assoc] at hscans
  obtain ⟨p', as, -, hbefore⟩ := hscans.split
  rw [List.cons_append, List.append_assoc] at hbefore
  cases hbefore with
  | token _ _ _ htype => exact named_of_scans h htype hgap hread rfl

theorem sealed_sizeGroup (ns : List UInt32) : Sealed (sizeGroup ns) := by
  unfold sizeGroup
  split_ifs
  · exact .nil
  · exact sealed_group (tight_sizes ns) gap_nil

theorem endsType_nil : EndsType [] := fun _ _ => rfl

theorem read?_tokensAt_word (hu : Text.upperCase w = w) (ns : List UInt32) (p : Position) :
    DeclaredType.read? (tokensAt p (word [' '] w :: sizeGroup ns)) =
      some (.named w (ns.map .size), []) := by
  have hkind : ((word [' '] w).token p).kind = .word w := rfl
  rw [tokensAt_cons]
  cases ns with
  | nil =>
    have hname := DeclaredType.name?_of_endsType hkind hu endsType_nil
    change DeclaredType.read? [(word [' '] w).token p] = _
    rw [DeclaredType.read?_of_name? hname]
    simp [DeclaredType.readParameters, group?, skipZone_of_endsType endsType_nil]
  | cons n ns =>
    have hread := read?_word_sizes hkind hu (List.cons_ne_nil n ns)
      (p.advance (word [' '] w).chars) []
    rwa [List.append_nil, skipZone_of_endsType endsType_nil] at hread

theorem read?_tokensAt_doublePrecision (p : Position) :
    DeclaredType.read? (tokensAt p [word [' '] "DOUBLE", word [' '] "PRECISION"]) =
      some (.named "DOUBLE PRECISION" [], []) := by
  have hname : DeclaredType.name? (tokensAt p [word [' '] "DOUBLE", word [' '] "PRECISION"]) =
      some ("DOUBLE PRECISION", []) := by
    have hkeyword : ((word [' '] "PRECISION").token
        (p.advance (word [' '] "DOUBLE").chars)).isKeyword "PRECISION" = true := by
      change Text.sameKeyword "PRECISION" "PRECISION" = true
      decide
    rw [tokensAt_cons, DeclaredType.name?_word rfl (by decide)]
    simp [DeclaredType.longNames, keyword?, hkeyword]
  rw [DeclaredType.read?_of_name? hname]
  rfl

theorem TypeText.exists_lexemes (h : TypeText text type) : ∃ w ws, w.gap = [' '] ∧
    Sealed (w :: ws) ∧ w.text ++ textOf ws = text.toList ∧
      ∀ p, DeclaredType.read? (tokensAt p (w :: ws)) = some (type, []) := by
  cases h with
  | @word w hw hu n s =>
    refine ⟨Lexeme.word [' '] w, sizeGroup (writtenSizes n s), rfl, ?_, ?_,
      read?_tokensAt_word hu _⟩
    · exact (sealed_word hw gap_space (by simp)).append (sealed_sizeGroup _)
    · exact (toList_withSizes w n s).symm
  | doublePrecision =>
    refine ⟨Lexeme.word [' '] "DOUBLE", [Lexeme.word [' '] "PRECISION"], rfl, ?_, by decide,
      read?_tokensAt_doublePrecision⟩
    exact @sealed_words ["DOUBLE", "PRECISION"] (by decide)

theorem Declaration.Column.read?_of_read? (hname : Declaration.name? ts = some (name, us))
    (htype : DeclaredType.read? us = some (type, [])) :
    Column.read? ts = some (⟨name, type, []⟩, true) := by
  have hnone : Attribute.readAll [] = ([], true) := by
    rw [Attribute.readAll]
    rfl
  rw [Column.read?, hname]
  simp [htype, hnone]

theorem TypeText.exists_ofText (h : TypeText text type) (name : String) :
    (⟨name, type, []⟩ : Column).OfText (Dialect.mysql.quoteName name ++ " " ++ text) ∧
      (⟨name, type, []⟩ : Column).HasTypeText text := by
  obtain ⟨w, ws, hgap, hsealed, htext, hread⟩ := h.exists_lexemes
  have hlexemes : (Dialect.mysql.quoteName name ++ " " ++ text).toList =
      textOf (Lexeme.name .mysql [] name :: w :: ws) := by
    simp [Lexeme.name, hgap, ← htext]
  have hwritten : Written (Lexeme.name .mysql [] name :: w :: ws) [] := by
    have hname : Tight [Lexeme.name .mysql [] name] :=
      tight_name (Dialect.quotes_mysql name) gap_nil
    exact (hname.append hsealed) [] Scan.delimited_nil
  have hscans := hwritten.scans .start
  rw [List.append_nil, ← hlexemes] at hscans
  have htokens := Token.tokenize_eq_ok_iff.2 ⟨_, _, [], gap_nil, hscans, rfl⟩
  rw [tokensAt_cons] at htokens
  generalize hp : Position.start.advance (Lexeme.name .mysql [] name).chars = p at htokens
  have hcolumn : Column.read? ((Lexeme.name .mysql [] name).token .start ::
      tokensAt p (w :: ws)) = some (⟨name, type, []⟩, true) :=
    Column.read?_of_read? rfl (hread p)
  have hsource : sourceText (tokensAt p (w :: ws)) = text := by
    rw [← String.toList_inj, tokensAt_cons, toList_sourceText_cons, map_ofToken_tokensAt, ← htext]
    simp [token]
  refine ⟨⟨_, _, htokens, hcolumn⟩, _, _, _, (Lexeme.name .mysql [] name).token .start,
    tokensAt p (w :: ws), [], htokens, ?_⟩
  rw [List.append_nil]
  exact ⟨List.infix_rfl, hcolumn, hread p, hsource⟩

end SqlTables
