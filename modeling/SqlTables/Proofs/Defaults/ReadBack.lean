import SqlTables.Proofs.Defaults.Expression
import SqlTables.Proofs.Defaults.Text
import SqlTables.Proofs.RoundTrip.Column
import SqlTables.Proofs.RoundTrip.Moved
import SqlTables.Proofs.Source.Statements

/-! Defaults read back. A column definition with the default it was written with yields that
default again if the default is written as a string, and otherwise just when it is an expression
as it stands. -/

namespace SqlTables

open Declaration Lexeme
open Scan (Gap Scans)
open Source (Uncommented withoutComments)
open Text (Position)
open Token (Spelled)

variable {ws es as bs : List Lexeme} {closing : Lexeme} {ts : List Token} {p p' : Position}
  {gap : List Char} {c : Column} {type : ColumnType} {text v : String}

def Declaration.Column.OfItem (c : Column) (text : String) : Prop :=
  ∃ ts item rest, Token.tokenize (withoutComments (text ++ ")")) = .ok ts ∧
    items? 0 ts = some ([item], rest) ∧ Clause.read item.tokens = .clause (.column c)

/-- Whether a text, as the one item of a column list, is a column of the type with the default. -/
def YieldsDefault (text : String) (type : ColumnType) (v : String) : Prop :=
  ∃ c : Column, c.OfItem text ∧ c.type.type = type ∧ c.field.default = some v

structure DeclaresColumn (ws : List Lexeme) (c : Column) : Prop where
  tight : Tight ws
  enclosed : ∀ p, Enclosed (tokensAt p ws)
  read : ∀ p rest, OpensAttribute rest → ∃ q, Clause.read (tokensAt p (ws ++ rest)) =
    .ofColumn (some (
      { c with attributes := c.attributes ++ (Attribute.readAll (tokensAt q rest)).1 },
      (Attribute.readAll (tokensAt q rest)).2))

def withDefault (ws : List Lexeme) (text : String) : String :=
  String.ofList (textOf ws) ++ " DEFAULT " ++ text

/-- Whether a default is an expression as it stands: before the parenthesis that closes a list it
holds no comment, and its tokens, with no blanks around them, are an expression. -/
structure IsExpression (v : String) : Prop where
  uncommented : withoutComments (v ++ ")") = v ++ ")"
  tokens : ∃ es last, Token.tokenize (v ++ ")") =
      .ok (tokensAt .start (es ++ [mark [] ')']) ++ [last]) ∧
    textOf es = v.toList ∧ (∀ w ∈ es.head?, w.gap = []) ∧ Expression es

theorem Source.blank_append {as bs : List Char} (h : Uncommented as bs) :
    blank (as ++ bs) = as ++ blank bs := by
  obtain ⟨ms, hms, hmark⟩ := h
  have hfst := congrArg (List.map Prod.fst) hmark
  rw [List.map_append, map_fst_markFrom, map_fst_markFrom, List.append_cancel_right_eq] at hfst
  rw [blank, mark, hmark, List.map_append, ← mark, ← blank, hfst, List.append_cancel_right_eq]
  exact List.map_congr_left fun m hm => blankChar_of_ne_comment (hms m hm)

def openDefault (ws : List Lexeme) : List Lexeme := ws ++ [word [' '] "DEFAULT"]

theorem toList_withDefault (ws : List Lexeme) (text : String) :
    (withDefault ws text).toList = textOf (openDefault ws) ++ ' ' :: text.toList := by
  simp [withDefault, openDefault, word]

theorem withDefault_append (ws : List Lexeme) (text : String) :
    withDefault ws text ++ ")" = withDefault ws (text ++ ")") := by
  simp [withDefault, String.append_assoc]

namespace DeclaresColumn

theorem tight_default (h : DeclaresColumn ws c) : Tight (openDefault ws) :=
  h.tight.append (sealed_word (by decide) gap_space (by simp))

theorem withoutComments_withDefault (h : DeclaresColumn ws c) (text : String) :
    withoutComments (withDefault ws text) = withDefault ws (withoutComments text) := by
  have hopening := (h.tight_default (' ' :: text.toList)
    (Scan.delimited_cons.2 (by decide))).uncommented
  have hspace : Uncommented [' '] text.toList := uncommented_gap gap_space _
  have hall : Uncommented (textOf (openDefault ws) ++ [' ']) text.toList :=
    Source.Marks.append hopening hspace
  have hblank := Source.blank_append hall
  rw [← String.toList_inj, toList_withDefault, withoutComments, String.toList_ofList,
    toList_withDefault, withoutComments, String.toList_ofList]
  simpa using hblank

theorem scans (h : DeclaresColumn ws c) (cs : List Char) :
    Scans .start (textOf (openDefault ws) ++ ' ' :: cs) (tokensAt .start (openDefault ws))
      (Position.start.advance (textOf (openDefault ws))) (' ' :: cs) :=
  (h.tight_default (' ' :: cs) (Scan.delimited_cons.2 (by decide))).scans .start

theorem enclosed_default (h : DeclaresColumn ws c) (p : Position) :
    Enclosed (tokensAt p (openDefault ws)) := by
  rw [openDefault, tokensAt_append]
  exact (h.enclosed p).append
    (enclosed_of_isPart (by simp [word, TokenKind.isPart, TokenKind.isInner]) _)

end DeclaresColumn

theorem readAll_default (p : Position) (ts : List Token) :
    Attribute.readAll ((word [' '] "DEFAULT").token p :: ts) =
      match defaultValue? ts with
      | none => ([], false)
      | some (value, rest) =>
        (.default value :: (Attribute.readAll rest).1, (Attribute.readAll rest).2) := by
  have hread : Attribute.read? ((word [' '] "DEFAULT").token p :: ts) =
      (defaultValue? ts).map fun found => (.default found.1, found.2) := rfl
  have hdone : isDone ((word [' '] "DEFAULT").token p :: ts) = false := rfl
  rw [Attribute.readAll, hdone]
  simp only [Bool.false_eq_true, if_false]
  split
  · rename_i hnone
    rw [hread, Option.map_eq_none_iff] at hnone
    rw [hnone]
  · rename_i a rest hsome
    rw [hread] at hsome
    obtain ⟨⟨value, rest⟩, hvalue, he⟩ := Option.map_eq_some_iff.1 hsome
    cases he
    rw [hvalue]

theorem items?_closing {ts : List Token} (h : Enclosed ts) {closing : Token}
    (hc : closing.kind = .rightParen) (rest : List Token) :
    items? 0 (ts ++ closing :: rest) = some ([⟨ts, closing⟩], rest) := by
  rw [h, items?_close hc]
  simp [prepend]

theorem yieldsDefault_of_scans (h : DeclaresColumn ws c)
    (huncommented : withoutComments (text ++ ")") = text ++ ")")
    (hscans : Scans p (' ' :: (text ++ ")").toList) (tokensAt p (es ++ [mark [] ')'])) p' [])
    (henclosed : ∀ q, Enclosed (tokensAt q es))
    (hread : ∀ q, bareDefault? (tokensAt q es) = some (v, [])) :
    YieldsDefault (withDefault ws text) c.type.type v := by
  obtain ⟨q, hvalue⟩ := hscans.moved (Position.start.advance (textOf (openDefault ws)))
  rw [map_ofToken_tokensAt] at hvalue
  have hall := (h.scans (text ++ ")").toList).append hvalue
  rw [← toList_withDefault, ← tokensAt_append, ← List.append_assoc, tokensAt_append] at hall
  have hwithout : withoutComments (withDefault ws text ++ ")") = withDefault ws (text ++ ")") := by
    rw [withDefault_append, h.withoutComments_withDefault, huncommented]
  have henclosed_item : Enclosed (tokensAt .start (openDefault ws ++ es)) := by
    rw [tokensAt_append]
    exact (h.enclosed_default _).append (henclosed _)
  obtain ⟨r, hclause⟩ := h.read .start (word [' '] "DEFAULT" :: es)
    (.inr ⟨"DEFAULT", by decide, es, rfl⟩)
  have hattributes : Attribute.readAll (tokensAt r (word [' '] "DEFAULT" :: es)) =
      ([.default v], true) := by
    rw [tokensAt_cons, readAll_default, defaultValue?, hread]
    simp [skipCasts?, Attribute.readAll, isDone, take?]
  rw [hattributes] at hclause
  have htokens := Token.tokenize_eq_ok_iff.2 ⟨_, q, [], gap_nil, hall, rfl⟩
  rw [tokensAt_cons, tokensAt_nil, List.append_assoc, ← hwithout] at htokens
  refine ⟨{ c with attributes := c.attributes ++ [.default v] },
    ⟨_, _, _, htokens, items?_closing henclosed_item rfl _, ?_⟩, rfl, ?_⟩
  · rw [openDefault, List.append_assoc]
    exact hclause
  · rw [Column.field, List.foldl_append]
    rfl

theorem yieldsDefault_quoteString (h : DeclaresColumn ws c) (v : String) :
    YieldsDefault (withDefault ws (Dialect.mysql.quoteString v)) c.type.type v := by
  have hclosing : Sealed [mark [] ')'] := Sealed.nil.tight.sealed_mark (by decide) gap_nil
  have hwritten (gap : List Char) (hg : Gap gap) : Written ([string gap v] ++ [mark [] ')']) [] :=
    ((tight_string v hg).append hclosing) [] Scan.delimited_nil
  have htext (gap : List Char) : textOf ([string gap v] ++ [mark [] ')']) =
      gap ++ (Dialect.mysql.quoteString v ++ ")").toList := by
    simp [string, mark]
  have hscans := (hwritten [' '] gap_space).scans .start
  rw [List.append_nil, htext] at hscans
  have huncommented := (hwritten [] gap_nil).uncommented
  rw [htext, List.nil_append] at huncommented
  refine yieldsDefault_of_scans h ?_ hscans (fun q => ?_) fun q => ?_
  · rw [withoutComments, Source.blank_of_uncommented huncommented, String.ofList_toList]
  · exact enclosed_of_isPart (by simp [string, TokenKind.isPart, TokenKind.isInner]) q
  · simp [bareDefault?, token, string]

theorem Lexeme.Expression.exists_cons (h : Expression es) : ∃ w ws, es = w :: ws := by
  cases h <;> exact ⟨_, _, rfl⟩

theorem yieldsDefault_of_isExpression (h : DeclaresColumn ws c) (hv : IsExpression v) :
    YieldsDefault (withDefault ws v) c.type.type v := by
  obtain ⟨es, last, htokens, htext, hgap, hes⟩ := hv.tokens
  obtain ⟨us, q, gap, -, hscans, hlast⟩ := Token.tokenize_eq_ok_iff.1 htokens
  obtain ⟨rfl, -⟩ := List.append_inj' hlast rfl
  have hrest := textOf_append_of_scans hscans
  rw [map_ofToken_tokensAt, textOf_append, htext] at hrest
  have hend : gap = [] := by simpa [mark] using hrest
  subst hend
  obtain ⟨w, ws', rfl⟩ := hes.exists_cons
  have hw : w.gap = [] := hgap w (by simp)
  obtain ⟨q', hspaced⟩ := hscans.space (by simp) .start
  rw [map_ofToken_tokensAt] at hspaced
  have hspaces := hes.withGap (' ' :: w.gap)
  refine yieldsDefault_of_scans h hv.uncommented hspaced (fun p => hspaces.enclosed p) fun p => ?_
  rw [hspaces.bareDefault?, sourceText_tokensAt_cons, ← String.ofList_toList (s := v), ← htext,
    textOf_cons, hw, List.nil_append]

theorem eq_append_of_item? {depth : Nat} {item : Item} {after : List Token}
    (h : items? depth ts = some ([item], after)) :
    ts = item.tokens ++ item.stop :: after ∧ item.stop.kind = .rightParen := by
  obtain ⟨rfl, others, last, hitems, -, hlast⟩ := eq_append_of_items? h
  rw [List.singleton_eq_append_iff] at hitems
  obtain ⟨-, hone⟩ | ⟨-, hnil⟩ := hitems
  · rw [List.singleton_inj] at hone
    exact ⟨by simp, hone ▸ hlast⟩
  · simp at hnil

theorem exists_of_item? {us : List Token} {item : Item} {after : List Token} {last : Token}
    (h : Enclosed ts) (hlast : last.kind = .eof)
    (hitems : items? 0 (ts ++ us ++ [last]) = some ([item], after)) :
    ∃ xs stop ys, us = xs ++ stop :: ys ∧ item.tokens = ts ++ xs ∧ stop.kind = .rightParen ∧
      ∀ t ∈ xs, t.kind ≠ .semicolon := by
  rw [List.append_assoc, h] at hitems
  obtain ⟨⟨xs, stop⟩, others, hus, hitem⟩ := eq_cons_of_prepend hitems
  obtain ⟨rfl, rfl⟩ := List.cons.inj hitem
  obtain ⟨hsplit, hstop⟩ := eq_append_of_item? hus
  have hxs := unended_of_items? hus ⟨xs, stop⟩ (by simp)
  dsimp only at hsplit hstop hxs
  rcases append_eq_append_cons hsplit with ⟨ys, hys⟩ | ⟨ys, rfl, hys⟩
  · exact ⟨xs, stop, ys, hys, rfl, hstop, fun t ht => (not_or.1 (hxs t ht)).2⟩
  · -- the end is no parenthesis
    cases ys with
    | nil =>
      rw [List.nil_append, List.cons.injEq] at hys
      rw [← hys.1, hlast] at hstop
      cases hstop
    | cons y ys => simp at hys

theorem DeclaresColumn.exists_defaultValue? (h : DeclaresColumn ws c) {d : Column}
    (hread : Clause.read (tokensAt .start (openDefault ws ++ as)) = .clause (.column d))
    (hdefault : d.field.default = some v) :
    ∃ q value rest, defaultValue? (tokensAt q as) = some (value, rest) ∧
      (v = value ∨ .default v ∈ (Attribute.readAll rest).1) := by
  obtain ⟨r, hclause⟩ := h.read .start (word [' '] "DEFAULT" :: as)
    (.inr ⟨"DEFAULT", by decide, _, rfl⟩)
  rw [openDefault, List.append_assoc, List.singleton_append, hclause, tokensAt_cons,
    readAll_default] at hread
  refine ⟨r.advance (word [' '] "DEFAULT").chars, ?_⟩
  cases hvalue : defaultValue? (tokensAt (r.advance (word [' '] "DEFAULT").chars) as) with
  | none =>
    rw [hvalue] at hread
    cases hread
  | some found =>
    obtain ⟨value, rest⟩ := found
    rw [hvalue] at hread
    dsimp only at hread
    cases hcomplete : (Attribute.readAll rest).2 with
    | false =>
      rw [hcomplete] at hread
      cases hread
    | true =>
      rw [hcomplete] at hread
      cases hread
      rw [Column.field, List.foldl_append, List.foldl_cons] at hdefault
      refine ⟨value, rest, rfl, ?_⟩
      rcases default_foldl hdefault with hmem | hfirst
      · exact .inr hmem
      · exact .inl (Option.some.inj hfirst).symm

/-- A default that comes back, in the lexemes after the blank before it: the first of them belong
to the definition, and the parenthesis after these closes the list. -/
structure ComesBack (text v : String) (es as bs : List Lexeme) (closing : Lexeme)
    (gap : List Char) : Prop where
  split : spaced es = as ++ closing :: bs
  kind : closing.kind = .rightParen
  text_eq : closing.text = [')']
  scans : ∀ q, ∃ q', Scans q (withoutComments (text ++ ")")).toList (tokensAt q es) q' gap
  spelled : ∀ w ∈ as ++ closing :: bs, ∀ q, Spelled (w.token q)
  ne_semicolon : ∀ w ∈ as, w.kind ≠ .semicolon
  value : ∃ q value rest, defaultValue? (tokensAt q as) = some (value, rest) ∧
    (v = value ∨ .default v ∈ (Attribute.readAll rest).1)

theorem YieldsDefault.comesBack (h : DeclaresColumn ws c)
    (hy : YieldsDefault (withDefault ws text) type v) :
    ∃ es as bs closing gap, ComesBack text v es as bs closing gap := by
  obtain ⟨d, ⟨ts, item, rest, htokens, hitems, hread⟩, -, hdefault⟩ := hy
  rw [withDefault_append, h.withoutComments_withDefault] at htokens
  obtain ⟨us, q, gap, hgap, hall, rfl⟩ := Token.tokenize_eq_ok_iff.1 htokens
  rw [toList_withDefault] at hall
  obtain ⟨vs, q', gap', rfl, hgap', hvs⟩ :=
    (h.scans (withoutComments (text ++ ")")).toList).exists_append hall hgap
  obtain ⟨xs, stop, ys, rfl, hitem, hstop, hxs⟩ :=
    exists_of_item? (h.enclosed_default _) rfl hitems
  have hlexeme : stop.lexeme = ")" := (Token.lexeme_of_tokenize htokens (by simp)).2.1 hstop
  obtain ⟨es, hes, hscans⟩ := hvs.exists_spaced (by simp)
  rw [List.map_append, List.map_cons] at hes
  have hplaced : xs = tokensAt (Position.start.advance (textOf (openDefault ws)))
      (xs.map ofToken) := by
    have hvs' := eq_tokensAt_of_scans hvs
    rw [List.map_append, tokensAt_append] at hvs'
    exact (List.append_inj hvs' (by simp [length_tokensAt])).1
  rw [hitem, hplaced, ← tokensAt_append] at hread
  refine ⟨es, xs.map ofToken, ys.map ofToken, ofToken stop, gap', hes.symm, hstop,
    by simp [ofToken, hlexeme], hscans, fun w hw q => ?_, fun w hw => ?_,
    h.exists_defaultValue? hread hdefault⟩
  · rw [← List.map_cons, ← List.map_append] at hw
    obtain ⟨t, ht, rfl⟩ := List.mem_map.1 hw
    exact spelled_ofToken (hvs.spelled t ht) q
  · obtain ⟨t, ht, rfl⟩ := List.mem_map.1 hw
    exact hxs t ht

theorem length_withoutComments (text : String) : (withoutComments text).length = text.length := by
  have hlength := congrArg List.length (Source.map_fst_markFrom true .code text.toList)
  rw [List.length_map] at hlength
  rw [withoutComments, String.length_ofList, Source.blank, Source.mark, List.length_map, hlength,
    String.length_toList]

namespace ComesBack

theorem exists_cons (h : ComesBack text v es as bs closing gap) : ∃ w ws, es = w :: ws := by
  cases es with
  | nil => simpa [spaced] using h.split
  | cons w ws => exact ⟨w, ws, rfl⟩

theorem textOf_append (h : ComesBack text v es as bs closing gap) :
    textOf es ++ gap = (withoutComments (text ++ ")")).toList := by
  obtain ⟨q, hscan⟩ := h.scans .start
  rw [← textOf_append_of_scans hscan, map_ofToken_tokensAt]

theorem length (h : ComesBack text v es as bs closing gap) :
    (textOf as).length + closing.gap.length + (textOf bs).length + gap.length =
      text.length + 1 := by
  obtain ⟨w, ws, rfl⟩ := h.exists_cons
  have htotal := congrArg List.length h.textOf_append
  have hspaced := congrArg (fun ws => (textOf ws).length) h.split
  rw [List.length_append, String.length_toList, length_withoutComments, String.length_append]
    at htotal
  simp only [textOf_spaced (List.cons_ne_nil _ _), Lexeme.textOf_append, textOf_cons, h.text_eq,
    List.length_append, List.length_cons, List.length_nil] at htotal hspaced
  have hone : (")" : String).length = 1 := rfl
  omega

theorem gap_pos {a : Lexeme} (h : ComesBack text v es (a :: as) bs closing gap) :
    0 < a.gap.length := by
  obtain ⟨w, ws, rfl⟩ := h.exists_cons
  have hsplit := h.split
  rw [spaced, List.cons_append, List.cons.injEq] at hsplit
  simp [← hsplit.1]

theorem short_or_expression (h : ComesBack text v es as bs closing gap) :
    v.length + 1 < (textOf as).length ∨
      ∃ a xs ys, as = a :: xs ++ ys ∧ Expression (a :: xs) ∧ v.toList = a.text ++ textOf xs := by
  obtain ⟨q, value, rest, hvalue, hv⟩ := h.value
  have hspelled : ∀ t ∈ tokensAt q as, Spelled t := by
    intro t ht
    obtain ⟨w, hw, r, rfl⟩ := exists_of_mem_tokensAt ht
    exact h.spelled w (List.mem_append_left _ hw) r
  have hsemicolon : ∀ t ∈ tokensAt q as, t.kind ≠ .semicolon := by
    intro t ht
    obtain ⟨w, hw, r, rfl⟩ := exists_of_mem_tokensAt ht
    exact h.ne_semicolon w hw
  have hextent := Token.extent_tokensAt q as
  rcases hv with rfl | hlater
  · obtain ⟨⟨value, r⟩, hbare, hskip⟩ := Option.bind_eq_some_iff.1 hvalue
    obtain ⟨rest, -, he⟩ := Option.bind_eq_some_iff.1 hskip
    cases he
    rcases bareDefault?_cases hbare hspelled hsemicolon with ⟨t, ht, hshort⟩ |
      ⟨xs, hxs, hexpression, hsource⟩
    · -- a quoted text has more characters than its value
      cases as with
      | nil => simp at ht
      | cons a as =>
        have hgap := h.gap_pos
        rw [tokensAt_cons, List.cons.injEq] at ht
        have hwidth : t.gap.length = a.gap.length := by
          rw [← ht.1, token, String.length_ofList]
        rw [tokensAt_cons, ht.1, Token.extent_cons, Token.width] at hextent
        omega
    · obtain ⟨hplaced, has⟩ := eq_tokensAt_of_append hxs
      obtain ⟨a, ws, ha⟩ := hexpression.exists_cons
      rw [ha] at hplaced hexpression has
      rw [hplaced, sourceText_tokensAt_cons] at hsource
      exact .inr ⟨a, ws, _, has, hexpression, by rw [hsource, String.toList_ofList]⟩
  · -- a later default is shorter by the first one
    obtain ⟨t, ts, ht, -, read, -, rfl⟩ := defaultValue?_consumes hvalue
    have hpos := (hspelled t (by simp [ht])).pos
    have hshort := length_lt_of_mem_readAll (fun u hu => hspelled u (by simp [ht, hu]))
      (fun u hu => hsemicolon u (by simp [ht, hu])) hlater
    rw [ht, Token.extent_cons, Token.extent_append, Token.width] at hextent
    omega

theorem expression (h : ComesBack text v es as bs closing gap) (hlength : text.length ≤ v.length) :
    textOf es = v.toList ++ [')'] ∧ gap = [] ∧ ∃ ws, es = ws ++ [mark [] ')'] ∧
      (∀ w ∈ ws.head?, w.gap = []) ∧ Expression ws := by
  have hparts := h.length
  rcases h.short_or_expression with hshort | ⟨a, xs, ys, rfl, hexpression, hv⟩
  · omega
  have hfirst := (List.cons_append ▸ h).gap_pos
  have hvlength := congrArg List.length hv
  rw [String.length_toList, List.length_append] at hvlength
  simp only [Lexeme.textOf_append, textOf_cons, List.length_append] at hparts
  have hys : ys = [] := eq_nil_of_textOf (fun u hu => h.spelled u (by simp [hu])) (by omega)
  have hbs : bs = [] := eq_nil_of_textOf (fun u hu => h.spelled u (by simp [hu])) (by omega)
  have hgap : gap = [] := List.length_eq_zero_iff.1 (by omega)
  have hclosing_gap : closing.gap = [] := List.length_eq_zero_iff.1 (by omega)
  have hclosing : closing = mark [] ')' := by
    obtain ⟨g, k, t⟩ := closing
    simp only [mark, Lexeme.mk.injEq]
    exact ⟨hclosing_gap, h.kind, h.text_eq⟩
  obtain ⟨w, ws, rfl⟩ := h.exists_cons
  have hsplit := h.split
  rw [hys, hbs, hclosing, List.append_nil, spaced, List.cons_append, List.cons.injEq] at hsplit
  obtain ⟨rfl, rfl⟩ := hsplit
  have hw : w.gap = [] := by
    rw [List.length_cons] at hparts
    exact List.length_eq_zero_iff.1 (by omega)
  refine ⟨?_, hgap, w :: xs, rfl, by simp [hw], hexpression.withGap w.gap⟩
  rw [hv]
  simp [hw, mark]

end ComesBack

theorem isExpression_of_yieldsDefault (h : DeclaresColumn ws c)
    (hy : YieldsDefault (withDefault ws text) type v) (hlength : text.length ≤ v.length) :
    withoutComments (text ++ ")") = v ++ ")" ∧
      ∃ es last, Token.tokenize (v ++ ")") =
          .ok (tokensAt .start (es ++ [mark [] ')']) ++ [last]) ∧
        textOf es = v.toList ∧ (∀ w ∈ es.head?, w.gap = []) ∧ Expression es := by
  obtain ⟨es, as, bs, closing, gap, hback⟩ := hy.comesBack h
  obtain ⟨htext, rfl, es, rfl, hgap, hexpression⟩ := hback.expression hlength
  have hall : withoutComments (text ++ ")") = v ++ ")" := by
    rw [← String.toList_inj, ← hback.textOf_append, htext]
    simp
  obtain ⟨q, hscan⟩ := hback.scans .start
  rw [hall] at hscan
  rw [textOf_append, textOf_cons, textOf_nil] at htext
  exact ⟨hall, es, _, Token.tokenize_eq_ok_iff.2 ⟨_, q, [], gap_nil, hscan, rfl⟩,
    List.append_cancel_right htext, hgap, hexpression⟩

theorem trimmed_sublist (v : String) : (Text.trimmed v).toList.Sublist v.toList := by
  rw [Text.trimmed, String.toList_ofList]
  exact (Source.trimEnd_prefix_self _).sublist.trans (List.dropWhile_sublist _)

/-- A default of any column definition comes back from the text that it is written as just when
that is a string, or an expression that stays as it is. Every text is the default of some
definition. -/
theorem yieldsDefault_defaultText_iff (h : DeclaresColumn ws c) (v : String) :
    (∃ text, YieldsDefault text c.type.type v) ∧
    (YieldsDefault (withDefault ws (Dialect.mysql.defaultText c.type.type v)) c.type.type v ↔
      Dialect.mysql.defaultText c.type.type v = Dialect.mysql.quoteString v ∨
        Dialect.mysql.defaultText c.type.type v = v ∧ IsExpression v) := by
  have hquoted := yieldsDefault_quoteString h v
  refine ⟨⟨_, hquoted⟩, fun hy => ?_, ?_⟩
  · rw [Dialect.defaultText_mysql] at hy ⊢
    split_ifs at hy ⊢ with hbare
    · have hsublist := trimmed_sublist v
      obtain ⟨hall, htokens⟩ := isExpression_of_yieldsDefault h hy
        (by simpa only [String.length_toList] using hsublist.length_le)
      have hlength := congrArg String.length hall
      rw [length_withoutComments, String.length_append, String.length_append] at hlength
      have heq : Text.trimmed v = v := by
        refine String.toList_inj.1 (hsublist.eq_of_length ?_)
        rw [String.length_toList, String.length_toList]
        exact Nat.add_right_cancel hlength
      rw [heq] at hall
      exact .inr ⟨heq, hall, htokens⟩
    · exact .inl rfl
  · rintro (htext | ⟨htext, hv⟩)
    · rw [htext]
      exact hquoted
    · rw [htext]
      exact yieldsDefault_of_isExpression h hv

theorem declaresColumn_typeLexemes {g : Field} (h : g.PlainType) :
    DeclaresColumn (name .mysql [] g.name :: g.typeLexemes)
      ⟨g.name, ⟨g.type, false, g.parameters⟩, []⟩ := by
  have hname : Tight [name .mysql [] g.name] := tight_name (Dialect.quotes_mysql g.name) gap_nil
  refine ⟨hname.append (sealed_typeLexemes h), fun p => ?_, fun p rest hrest => ?_⟩
  · have hs : name .mysql [] g.name :: g.typeLexemes =
        [name .mysql [] g.name, word [' '] g.type.name] ++ g.parameterGroup := rfl
    rw [hs, tokensAt_append]
    refine (enclosed_of_isPart ?_ _).append (enclosed_parameterGroup g _)
    rw [List.forall_mem_cons, List.forall_mem_singleton]
    exact ⟨rfl, rfl⟩
  · obtain ⟨q, htype⟩ := read?_typeLexemes h hrest (p.advance (name .mysql [] g.name).chars)
    have hread : Clause.read (tokensAt p (name .mysql [] g.name :: g.typeLexemes ++ rest)) =
        .ofColumn (Column.read? (tokensAt p (name .mysql [] g.name :: g.typeLexemes ++ rest))) :=
      rfl
    have hfirst : Declaration.name? (tokensAt p (name .mysql [] g.name :: g.typeLexemes ++ rest)) =
        some (g.name, tokensAt (p.advance (name .mysql [] g.name).chars)
          (g.typeLexemes ++ rest)) := rfl
    refine ⟨q, ?_⟩
    rw [hread, Column.read?, hfirst]
    simp [htype]

def intField : Field := { name := "c", type := .int }

theorem plainType_intField : intField.PlainType := by
  constructor <;> simp [intField, ColumnType.isCustom, ColumnType.isDecimal,
    ColumnType.isListed]

def intLexemes : List Lexeme := name .mysql [] intField.name :: intField.typeLexemes

theorem declaresColumn_intLexemes : DeclaresColumn intLexemes
    ⟨intField.name, ⟨.int, false, intField.parameters⟩, []⟩ :=
  declaresColumn_typeLexemes plainType_intField

theorem yieldsDefault_defaultText_iff_call :
    (YieldsDefault (withDefault intLexemes (Dialect.mysql.defaultText .int "f('a)', (2))"))
        .int "f('a)', (2))") ∧
      ¬YieldsDefault (withDefault intLexemes (Dialect.mysql.defaultText .int " 5 ")) .int
        " 5 " := by
  constructor
  · refine (yieldsDefault_defaultText_iff declaresColumn_intLexemes "f('a)', (2))").2.2
      (.inr ⟨by decide +kernel, by decide +kernel, ?_⟩)
    refine ⟨word [] "f" :: mark [] '(' :: ([⟨[], .string "a)", "'a)'".toList⟩, mark [] ',',
      mark [' '] '(', number [] "2", mark [] ')'] ++ [mark [] ')']),
      ⟨"", .eof, "", Token.endPosition ("f('a)', (2))" ++ ")")⟩, by decide +kernel, by decide,
      by simp [word], .call rfl rfl rfl (by decide +kernel)⟩
  · intro h
    rcases (yieldsDefault_defaultText_iff declaresColumn_intLexemes " 5 ").2.1 h with h | h
    · exact absurd h (by decide +kernel)
    · exact absurd h.1 (by decide +kernel)

/-- The default `+5` is a number where it is written, and no number where it is read. -/
theorem not_yieldsDefault_defaultText :
    ¬∀ (ws : List Lexeme) (c : Column) (v : String), DeclaresColumn ws c →
      (∃ text, YieldsDefault text c.type.type v) →
        YieldsDefault (withDefault ws (Dialect.mysql.defaultText c.type.type v)) c.type.type v := by
  intro h
  obtain ⟨c, ⟨ts, item, rest, htokens, hitems, hread⟩, -, -⟩ :=
    h intLexemes _ "+5" declaresColumn_intLexemes
      ⟨_, yieldsDefault_quoteString declaresColumn_intLexemes "+5"⟩
  have hfound : (Token.tokenize (withoutComments (withDefault intLexemes
      (Dialect.mysql.defaultText .int "+5") ++ ")"))).map (fun ts =>
        (items? 0 ts).map fun found => found.1.map fun i => (Clause.read i.tokens).clause?) =
      .ok (some [none]) := by
    decide +kernel
  rw [htokens, Except.map, hitems] at hfound
  simp [hread, Clause.Reading.clause?] at hfound

end SqlTables
