import SqlTables.Parse
import SqlTables.Proofs.RoundTrip.Grouping
import SqlTables.Proofs.Source.Parts
import SqlTables.Proofs.Token.Lossless

/-! Places in the text as written. Blanking moves nothing, so a token of the blanked text, and what
an error reports on, is found in the text itself at the line and column that are given. -/

namespace SqlTables

open Source (Parted Region blank withoutComments)
open Scan (isGap)
open Text (Position charAt?)
open Declaration (Item Skips items?)

namespace Source

variable {text : List Char}

structure Blanked (ms : List (Char × Region)) (text blanked : List Char) : Prop where
  length_eq : blanked.length = text.length
  char : ∀ (i : Nat) (c : Char), text[i]? = some c →
    blanked[i]? = some c ∨ blanked[i]? = some ' ' ∧ ms[i]? = some (c, .comment)
  comment : ∀ (i : Nat) (c : Char), ms[i]? = some (c, .comment) → c ≠ '\n' →
    blanked[i]? = some ' '
  newline : ∀ i : Nat, text[i]? = some '\n' ↔ blanked[i]? = some '\n'

theorem blankChar_eq_newline_iff (c : Char) (region : Region) :
    blankChar c region = '\n' ↔ c = '\n' := by
  unfold blankChar
  by_cases hc : c = '\n' <;> by_cases hr : region = .comment <;> simp [hc, hr]

theorem blanked_mark (text : List Char) : Blanked (mark true text) text (blank text) := by
  have hfst := map_fst_markFrom true .code text
  have htext (i : Nat) : text[i]? = ((mark true text)[i]?).map Prod.fst := by
    rw [← List.getElem?_map, mark, hfst]
  have hblank (i : Nat) : (blank text)[i]? =
      ((mark true text)[i]?).map fun m => blankChar m.1 m.2 := by
    rw [blank, List.getElem?_map]
  refine ⟨?_, fun i c hc => ?_, fun i c hm hc => ?_, fun i => ?_⟩
  · rw [blank, List.length_map, ← List.length_map Prod.fst, mark, hfst]
  · rw [htext, Option.map_eq_some_iff] at hc
    obtain ⟨⟨c, region⟩, hm, rfl⟩ := hc
    rw [hblank, hm, Option.map_some]
    by_cases hr : region = .comment ∧ c ≠ '\n'
    · exact .inr ⟨congrArg some (if_pos hr), by rw [hr.1]⟩
    · exact .inl (congrArg some (if_neg hr))
  · rw [hblank, hm]
    simp [blankChar, hc]
  · rw [htext, hblank]
    cases (mark true text)[i]? with
    | none => simp
    | some m => simp [blankChar_eq_newline_iff]

theorem forall₂_blank (text : List Char) :
    List.Forall₂ (fun a b => (b = a ∨ b = ' ') ∧ (a = '\n' ↔ b = '\n')) text (blank text) := by
  have hfst := map_fst_markFrom true .code text
  conv in text => rw [← hfst]
  rw [blank, mark, List.forall₂_map_left_iff, List.forall₂_map_right_iff, List.forall₂_same]
  exact fun m _ => ⟨blankChar_eq_or m.1 m.2, (blankChar_eq_newline_iff m.1 m.2).symm⟩

theorem charAt?_of_blank {line column : Nat} {c : Char} (hc : isGap c = false)
    (h : charAt? (blank text) line column = some c) : charAt? text line column = some c := by
  obtain ⟨a, ha, heq, _⟩ := Text.charAt?_of_forall₂ (fun _ _ h => h.2) (forall₂_blank text) h
  rcases heq with rfl | rfl
  · exact ha
  · exact absurd hc (by decide)

end Source

def Token.PointsInto (t : Token) (text : String) : Prop :=
  ∃ c rest, t.lexeme.toList = c :: rest ∧
    charAt? text.toList t.start.line t.start.column = some c

theorem charAt?_place {text before after : List Char} {c : Char} (hc : isGap c = false)
    (h : blank text = before ++ c :: after) :
    charAt? text (Text.lineCount before) ((Text.lastLine before).length + 1) = some c := by
  have hne : c ≠ '\n' := by
    rintro rfl
    exact absurd hc (by decide)
  apply Source.charAt?_of_blank hc
  rw [h]
  exact Text.charAt?_append hne before after

theorem Token.pointsInto_of_tokenize {text : String} {ts : List Token}
    (h : tokenize (withoutComments text) = .ok ts) {t : Token} (ht : t ∈ ts)
    (hk : t.kind ≠ .eof) : t.PointsInto text := by
  obtain ⟨us, gap, rfl, htiling⟩ := tiling_of_tokenize_ok h
  rcases List.mem_append.1 ht with ht | ht
  · obtain ⟨c, rest, hl, hc⟩ := htiling.begun t ht
    obtain ⟨before, later, htext, hstart, _⟩ := htiling.written t ht
    rw [withoutComments, String.toList_ofList, hl] at htext
    refine ⟨c, rest, hl, ?_⟩
    rw [hstart, Text.Position.start_advance]
    exact charAt?_place hc htext
  · rw [List.mem_singleton.1 ht] at hk
    exact absurd rfl hk

theorem Token.IsFirst.lexeme_of_mark {t : Token} {cs rest : List Char} (h : t.IsFirst cs rest)
    {r : TokenRule} {c : Char} (he : r.expression = .char c)
    (hk : ∀ r' x, TokenRule.kind? x r' = some t.kind → r' = r) : t.lexeme.toList = [c] := by
  obtain ⟨r', hfirst, hkind⟩ := h
  obtain rfl := hk r' _ hkind
  obtain ⟨r'', _, hread⟩ := List.exists_of_findSome?_eq_some hfirst
  obtain ⟨found, hread, heq⟩ := Option.map_eq_some_iff.1 hread
  rw [Prod.mk.injEq] at heq
  obtain ⟨rfl, rfl⟩ := heq
  cases cs with
  | nil => simp [TokenRule.read?, he, Peg.char, Peg.read?] at hread
  | cons d cs =>
    rw [TokenRule.read?, he, Peg.read?_char_cons] at hread
    split at hread
    · rename_i hd
      rw [Option.some.injEq, Prod.mk.injEq] at hread
      rw [← hread.1, hd]
    · simp at hread

theorem Token.ne_eof_of_tokenize {text : String} {before rest : List Token} {t : Token}
    (h : tokenize text = .ok (before ++ t :: rest)) (hrest : rest ≠ []) : t.kind ≠ .eof := by
  obtain ⟨us, gap, hts, htiling⟩ := tiling_of_tokenize_ok h
  rcases append_eq_append_cons hts.symm with ⟨xs, hxs⟩ | ⟨xs, _, hxs⟩
  · exact htiling.ne_eof t (by simp [hxs])
  · have hpos := List.length_pos_iff.2 hrest
    have hlen := congrArg List.length hxs
    simp only [List.length_append, List.length_cons, List.length_nil] at hlen
    omega

theorem Token.pointsInto_headD {text : String} {before item later : List Token} {stop : Token}
    (h : tokenize (withoutComments text) = .ok (before ++ (item ++ stop :: later)))
    (hstop : stop.kind ≠ .eof) : (item.headD stop).PointsInto text := by
  cases item with
  | nil => exact pointsInto_of_tokenize h (by simp) hstop
  | cons t tail => exact pointsInto_of_tokenize h (by simp) (ne_eof_of_tokenize h (by simp))

theorem Token.lexeme_of_tokenize {text : String} {ts : List Token}
    (h : tokenize text = .ok ts) {t : Token} (ht : t ∈ ts) :
    (t.kind = .leftParen → t.lexeme = "(") ∧ (t.kind = .rightParen → t.lexeme = ")") ∧
      (t.kind = .comma → t.lexeme = ",") := by
  obtain ⟨us, gap, rfl, htiling⟩ := tiling_of_tokenize_ok h
  rcases List.mem_append.1 ht with ht | ht
  · obtain ⟨_, _, _, _, hfirst⟩ := htiling.written t ht
    have hmark {r : TokenRule} {c : Char} (he : r.expression = .char c)
        (hr : ∀ r' x, TokenRule.kind? x r' = some t.kind → r' = r) :
        t.lexeme = String.ofList [c] := by
      rw [← hfirst.lexeme_of_mark he hr, String.ofList_toList]
    refine ⟨fun hk => hmark (r := .leftParen) rfl ?_, fun hk => hmark (r := .rightParen) rfl ?_,
      fun hk => hmark (r := .comma) rfl ?_⟩
    all_goals
      rw [hk]
      intro r x hr
      cases r <;> simp [TokenRule.kind?] at hr ⊢
  · rw [List.mem_singleton.1 ht]
    simp

namespace Declaration

theorem eq_cons_of_prepend {read : List Token} {found : Option (List Item × List Token)}
    {items : List Item} {after : List Token} (h : prepend read found = some (items, after)) :
    ∃ item rest, found = some (item :: rest, after) ∧
      items = { item with tokens := read ++ item.tokens } :: rest := by
  match found with
  | none | some ([], _) => simp [prepend] at h
  | some (item :: rest, _) =>
    cases h
    exact ⟨item, rest, rfl, rfl⟩

theorem items?_cases {depth : Nat} {t : Token} {ts after : List Token} {items : List Item}
    (h : items? depth (t :: ts) = some (items, after)) :
    ¬(t.kind = .eof ∨ t.kind = .semicolon) ∧
      (depth = 0 ∧ t.kind = .rightParen ∧ items = [⟨[], t⟩] ∧ after = ts ∨
       depth = 0 ∧ t.kind = .comma ∧
         (∃ rest, items = ⟨[], t⟩ :: rest ∧ items? 0 ts = some (rest, after)) ∨
       (depth = 0 → t.kind ≠ .rightParen ∧ t.kind ≠ .comma) ∧ ∃ item rest,
         items = { item with tokens := t :: item.tokens } :: rest ∧
           items? (depthAfter depth t.kind) ts = some (item :: rest, after)) := by
  by_cases he : t.kind = .eof ∨ t.kind = .semicolon
  · simp [items?, he] at h
  refine ⟨he, ?_⟩
  by_cases hclose : depth = 0 ∧ t.kind = .rightParen
  · rw [items?, if_neg he, if_pos hclose, Option.some.injEq, Prod.mk.injEq] at h
    exact .inl ⟨hclose.1, hclose.2, h.1.symm, h.2.symm⟩
  by_cases hcomma : depth = 0 ∧ t.kind = .comma
  · obtain ⟨rfl, hk⟩ := hcomma
    rw [items?, if_neg he, if_neg hclose, if_pos ⟨rfl, hk⟩] at h
    obtain ⟨⟨rest, r⟩, hrest, heq⟩ := Option.map_eq_some_iff.1 h
    cases heq
    exact .inr (.inl ⟨rfl, hk, rest, rfl, hrest⟩)
  · have hd (h0 : depth = 0) : t.kind ≠ .rightParen ∧ t.kind ≠ .comma :=
      ⟨fun hk => hclose ⟨h0, hk⟩, fun hk => hcomma ⟨h0, hk⟩⟩
    rw [items?_cons he hd] at h
    obtain ⟨item, rest, hrest, heq⟩ := eq_cons_of_prepend h
    exact .inr (.inr ⟨hd, item, rest, heq, hrest⟩)

theorem eq_append_of_items? {depth : Nat} {ts after : List Token} {items : List Item}
    (h : items? depth ts = some (items, after)) :
    ts = items.flatMap (fun i => i.tokens ++ [i.stop]) ++ after ∧
      ∃ others last, items = others ++ [last] ∧ (∀ i ∈ others, i.stop.kind = .comma) ∧
        last.stop.kind = .rightParen := by
  induction ts generalizing depth items with
  | nil => simp [items?] at h
  | cons t ts ih =>
    obtain ⟨-, ⟨-, hk, rfl, rfl⟩ | ⟨-, hk, rest, rfl, hrest⟩ | ⟨-, item, rest, rfl, hrest⟩⟩ :=
      items?_cases h
    · exact ⟨rfl, [], _, rfl, by simp, hk⟩
    · obtain ⟨rfl, others, last, rfl, hothers, hlast⟩ := ih hrest
      exact ⟨rfl, _ :: others, last, rfl, List.forall_mem_cons.2 ⟨hk, hothers⟩, hlast⟩
    · obtain ⟨rfl, others, last, hitems, hothers, hlast⟩ := ih hrest
      refine ⟨by simp, ?_⟩
      -- the token goes to the first item, which keeps its stop
      cases others with
      | nil =>
        cases hitems
        exact ⟨[], _, rfl, by simp, hlast⟩
      | cons other others =>
        cases hitems
        rw [List.forall_mem_cons] at hothers
        exact ⟨_ :: others, last, rfl, List.forall_mem_cons.2 hothers, hlast⟩

theorem unended_of_items? {depth : Nat} {ts after : List Token} {items : List Item}
    (h : items? depth ts = some (items, after)) :
    ∀ i ∈ items, ∀ t ∈ i.tokens, ¬(t.kind = .eof ∨ t.kind = .semicolon) := by
  induction ts generalizing depth items with
  | nil => simp [items?] at h
  | cons t ts ih =>
    obtain ⟨he, ⟨-, -, rfl, -⟩ | ⟨-, -, rest, rfl, hrest⟩ | ⟨-, item, rest, rfl, hrest⟩⟩ :=
      items?_cases h
    · simp
    · exact List.forall_mem_cons.2 ⟨by simp, ih hrest⟩
    · have hitems := List.forall_mem_cons.1 (ih hrest)
      exact List.forall_mem_cons.2 ⟨List.forall_mem_cons.2 ⟨he, hitems.1⟩, hitems.2⟩

theorem exists_opener_of_mem {opening : Token} {ts after : List Token} {items : List Item}
    (h : items? 0 ts = some (items, after)) (ho : opening.kind = .leftParen) {i : Item}
    (hi : i ∈ items) :
    ∃ before opener later, opening :: ts = before ++ opener :: (i.tokens ++ i.stop :: later) ∧
      (opener.kind = .leftParen ∨ opener.kind = .comma) ∧
      (i.stop.kind = .comma ∨ i.stop.kind = .rightParen) := by
  obtain ⟨rfl, others, last, hitems, hothers, hlast⟩ := eq_append_of_items? h
  have hstop : i.stop.kind = .comma ∨ i.stop.kind = .rightParen := by
    rw [hitems, List.mem_append, List.mem_singleton] at hi
    rcases hi with hi | rfl
    · exact .inl (hothers i hi)
    · exact .inr hlast
  obtain ⟨former, later, rfl⟩ := List.append_of_mem hi
  rcases List.eq_nil_or_concat former with rfl | ⟨former, j, rfl⟩
  · refine ⟨[], opening, later.flatMap (fun i => i.tokens ++ [i.stop]) ++ after, ?_, .inl ho,
      hstop⟩
    simp
  · have hj : j.stop.kind = .comma := by
      rw [List.concat_eq_append, List.append_assoc, List.singleton_append] at hitems
      rcases append_eq_append_cons hitems.symm with ⟨xs, hxs⟩ | ⟨xs, _, hxs⟩
      · exact hothers j (by simp [hxs])
      · have hlen := congrArg List.length hxs
        simp only [List.length_append, List.length_cons, List.length_nil] at hlen
        omega
    refine ⟨opening :: ((former.flatMap fun i => i.tokens ++ [i.stop]) ++ j.tokens), j.stop,
      later.flatMap (fun i => i.tokens ++ [i.stop]) ++ after, ?_, .inr hj, hstop⟩
    simp

end Declaration

/-- What the place given by an error on a text is of: an opening quote that nothing closes, the
parenthesis that opens a list, or the first token of an item, for an empty one the token that closes
it. -/
def ParseError.PointsInto (text : String) : ParseError → Prop
  | .scan (.unterminatedLiteral line column) =>
    ∃ before quote rest ts, (withoutComments text).toList = before ++ quote :: rest ∧
      Source.isQuote quote = true ∧ Tiling .start before (quote :: rest) ts ∧
      (∀ r ∈ TokenRule.literals, r.read? (quote :: rest) = none) ∧
      line = Text.lineCount before ∧ column = (Text.lastLine before).length + 1 ∧
      charAt? text.toList line column = some quote
  | .scan (.unexpected ..) => False
  | .unterminatedColumnList line column =>
    ∃ ts name opening rest, Token.tokenize (withoutComments text) = .ok ts ∧
      Draft.header? ts = some (name, opening, rest) ∧ items? 0 rest = none ∧
      line = opening.start.line ∧ column = opening.start.column ∧ opening.lexeme = "(" ∧
      charAt? text.toList line column = some '('
  | .unreadableItem fragment line column =>
    ∃ ts d i before opener later, Token.tokenize (withoutComments text) = .ok ts ∧
      Draft.Definition.read ts = .ok d ∧ i ∈ d.items ∧
      (Declaration.Clause.read i.tokens).clause? = none ∧
      fragment = Token.sourceText i.tokens ∧
      ts = before ++ opener :: (i.tokens ++ i.stop :: later) ∧
      (opener.lexeme = "(" ∨ opener.lexeme = ",") ∧ (i.stop.lexeme = "," ∨ i.stop.lexeme = ")") ∧
      line = (i.tokens.headD i.stop).start.line ∧ column = (i.tokens.headD i.stop).start.column ∧
      (i.tokens.headD i.stop).PointsInto text
  | .missingHeader | .schema _ | .noTables => True

namespace Draft

open Declaration

theorem afterCreateTable?_skips {ts rest : List Token} (h : afterCreateTable? ts = some rest) :
    Skips ts rest := by
  induction ts with
  | nil => simp [afterCreateTable?] at h
  | cons t ts ih =>
    by_cases he : t.kind = .eof
    · simp [afterCreateTable?, he] at h
    · have hone {rest : List Token} (hs : Skips ts rest) : Skips (t :: ts) rest :=
        (Consumes.head he hs).skips
      rw [afterCreateTable?, if_neg he] at h
      split at h
      · split at h
        · rename_i htable
          cases h
          exact hone ((skipOneOf_skips _ ts).trans (keyword?_consumes htable).skips)
        · exact hone (ih h)
      · exact hone (ih h)

theorem eq_append_of_header? {ts rest : List Token} {name : String} {opening : Token}
    (h : header? ts = some (name, opening, rest)) :
    (∃ before, ts = before ++ opening :: rest) ∧ opening.kind = .leftParen := by
  obtain ⟨ts1, h1, hname⟩ := Option.bind_eq_some_iff.1 h
  obtain ⟨⟨name', ts2⟩, h2, hopening⟩ := Option.bind_eq_some_iff.1 hname
  obtain ⟨before, _, hts⟩ := (afterCreateTable?_skips h1).trans
    ((skipOneOf_skips _ ts1).trans (qualifiedName?_consumes h2).skips)
  cases ts2 with
  | nil => simp at hopening
  | cons t ts2 =>
    by_cases hk : t.kind = .leftParen
    · simp only [hk, if_true, Option.some.injEq, Prod.mk.injEq] at hopening
      obtain ⟨-, rfl, rfl⟩ := hopening
      exact ⟨⟨before, hts⟩, hk⟩
    · simp [hk] at hopening

theorem exists_of_clauses_error {items : List Item} {e : ParseError}
    (h : clauses items = .error e) :
    ∃ i ∈ items, (Clause.read i.tokens).clause? = none ∧ e = unreadable i := by
  induction items with
  | nil => simp [clauses] at h
  | cons i items ih =>
    rw [clauses] at h
    split at h
    · rename_i hnone
      cases h
      exact ⟨i, List.mem_cons_self, hnone, rfl⟩
    · cases hrest : clauses items with
      | ok cs => simp [hrest, Except.map] at h
      | error e' =>
        rw [hrest] at h
        cases h
        obtain ⟨j, hj, hnone, he⟩ := ih hrest
        exact ⟨j, List.mem_cons_of_mem _ hj, hnone, he⟩

variable {text name : String} {ts rest after : List Token} {opening : Token} {items : List Item}

theorem pointsInto_unterminatedColumnList (ht : Token.tokenize (withoutComments text) = .ok ts)
    (hh : header? ts = some (name, opening, rest)) (hi : items? 0 rest = none) :
    ParseError.PointsInto text
      (.unterminatedColumnList opening.start.line opening.start.column) := by
  obtain ⟨⟨before, hts⟩, hopening⟩ := eq_append_of_header? hh
  have hmem : opening ∈ ts := by simp [hts]
  have hlexeme := (Token.lexeme_of_tokenize ht hmem).1 hopening
  obtain ⟨c, tail, hl, hc⟩ := Token.pointsInto_of_tokenize ht hmem (by simp [hopening])
  rw [hlexeme] at hl
  cases hl
  exact ⟨ts, name, opening, rest, ht, hh, hi, rfl, rfl, hlexeme, hc⟩

theorem pointsInto_unreadable (ht : Token.tokenize (withoutComments text) = .ok ts)
    (hh : header? ts = some (name, opening, rest)) (hi : items? 0 rest = some (items, after))
    {i : Item} (himem : i ∈ items) (hnone : (Clause.read i.tokens).clause? = none) :
    (unreadable i).PointsInto text := by
  have hd : Definition.read ts = .ok ⟨name, items, after⟩ := by
    rw [Definition.read, hh]
    simp only [hi]
  obtain ⟨⟨before, hts⟩, hopening⟩ := eq_append_of_header? hh
  obtain ⟨former, opener, later, heq, hopener, hstop⟩ := exists_opener_of_mem hi hopening himem
  rw [heq, ← List.append_assoc] at hts
  have hlexeme {t : Token} (hmem : t ∈ ts) := Token.lexeme_of_tokenize ht hmem
  have hopener' := hlexeme (t := opener) (by simp [hts])
  have hstop' := hlexeme (t := i.stop) (by simp [hts])
  refine ⟨ts, _, i, before ++ former, opener, later, ht, hd, himem, hnone, rfl, hts,
    hopener.imp hopener'.1 hopener'.2.2, hstop.imp hstop'.2.2 hstop'.2.1, rfl, rfl, ?_⟩
  rw [hts, List.append_cons] at ht
  refine Token.pointsInto_headD ht ?_
  rcases hstop with hk | hk <;> simp [hk]

theorem pointsInto_of_read_error (ht : Token.tokenize (withoutComments text) = .ok ts)
    {e : ParseError} (h : read ts = .error e) : e.PointsInto text := by
  rw [read, Definition.read] at h
  cases hh : header? ts with
  | none =>
    rw [hh] at h
    cases h
    trivial
  | some found =>
    obtain ⟨name, opening, rest⟩ := found
    cases hi : items? 0 rest with
    | none =>
      simp only [hh, hi, Except.error.injEq] at h
      rw [← h]
      exact pointsInto_unterminatedColumnList ht hh hi
    | some found =>
      obtain ⟨items, after⟩ := found
      simp only [hh, hi] at h
      cases hclauses : clauses items with
      | ok cs => simp [hclauses] at h
      | error e' =>
        simp only [hclauses, Except.error.injEq] at h
        obtain ⟨i, himem, hnone, he⟩ := exists_of_clauses_error hclauses
        rw [← h, he]
        exact pointsInto_unreadable ht hh hi himem hnone

end Draft

namespace Table

theorem pointsInto_of_parse_error {text : String} {e : ParseError} (h : parse text = .error e) :
    e.PointsInto text := by
  rw [parse, parseStatement] at h
  split at h
  · rename_i e' herror
    cases h
    obtain ⟨before, quote, rest, ts, htext, hquote, htiling, hopen, rfl⟩ :=
      Token.tiling_of_tokenize_error herror
    have hblank : blank text.toList = before ++ quote :: rest := by
      rw [← htext, withoutComments, String.toList_ofList]
    have hgap := Scan.isGap_of_isQuote hquote
    exact ⟨before, quote, rest, ts, htext, hquote, htiling, hopen, rfl, rfl,
      charAt?_place hgap hblank⟩
  · rename_i ts hts
    split at h
    · rename_i e' hread
      cases h
      exact Draft.pointsInto_of_read_error hts hread
    · rename_i d hread
      cases hs : d.settle with
      | ok t => simp [hs, Except.mapError] at h
      | error e' =>
        rw [hs] at h
        cases h
        trivial

/-- A text keeps its characters when comments are blanked, but for those of its comments. So each
token, and each error on the text, is where it points in the text as written. -/
theorem parse_places (text : String) :
    (∃ ms, (∀ ns, Parted text.toList ns ↔ ns = ms) ∧
        Source.Blanked ms text.toList (withoutComments text).toList) ∧
      (∀ ts, Token.tokenize (withoutComments text) = .ok ts →
        ∀ t ∈ ts, t.kind ≠ .eof → t.PointsInto text) ∧
      ∀ e, parse text = .error e → e.PointsInto text := by
  refine ⟨⟨Source.mark true text.toList, fun ns => ?_, ?_⟩,
    fun ts h t ht => Token.pointsInto_of_tokenize h ht, fun e => pointsInto_of_parse_error⟩
  · rw [Source.parted_iff, eq_comm]
  · rw [withoutComments, String.toList_ofList]
    exact Source.blanked_mark text.toList

theorem parse_places_empty_item :
    parse "/* é */ CREATE TABLE t (\r\n a INT, # ü\n , b INT)" = .error (.unreadableItem "" 3 2) ∧
      ParseError.PointsInto "/* é */ CREATE TABLE t (\r\n a INT, # ü\n , b INT)"
        (.unreadableItem "" 3 2) := by
  have h : parse "/* é */ CREATE TABLE t (\r\n a INT, # ü\n , b INT)" =
      .error (.unreadableItem "" 3 2) := by
    decide +kernel
  exact ⟨h, (parse_places _).2.2 _ h⟩

end Table

end SqlTables
