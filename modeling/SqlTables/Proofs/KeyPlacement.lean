import SqlTables.Proofs.Items.Appended
import SqlTables.Proofs.KeyPlacement.Clauses
import SqlTables.Proofs.KeyPlacement.Items

/-! Keys anywhere in a column list. A key may stand before the columns that it names: primary keys
are looked up when the list is read, so a definition with its keys at other places defines the same
table. -/

namespace SqlTables

open Declaration Lexeme
open Draft (header? clauses ofClauses)
open Scan (Gap)

variable {ts us : List Token} {d : Draft} {t : Table} {source : String}

/-- A definition taken apart: the tokens before its column list, the parenthesis that opens the
list, the items, and the tokens after the list. -/
structure Listing where
  before : List Token
  opening : Token
  items : List Item
  after : List Token

namespace Listing

def text (l : Listing) : String :=
  String.ofList (textOf ((l.before ++ [l.opening]).map ofToken) ++
    ([','].intercalate (l.items.map Item.text) ++ ')' :: textOf (l.after.map ofToken)))

def Of (l : Listing) (source : String) : Prop :=
  ∃ name rest, Token.tokenize source = .ok (l.before ++ l.opening :: rest) ∧
    header? (l.before ++ l.opening :: rest) = some (name, l.opening, rest) ∧
    items? 0 rest = some (l.items, l.after)

def tokens (l : Listing) : List Token :=
  l.before ++ l.opening :: (listTokens (punctuated l.items) ++ l.after)

end Listing

namespace Draft

theorem read_eq_ok_iff : read ts = .ok d ↔ ∃ name opening rest items after cs,
    header? ts = some (name, opening, rest) ∧ items? 0 rest = some (items, after) ∧
      clauses items = .ok cs ∧ d = ofClauses name cs (Setting.readAll after) := by
  constructor
  · intro h
    unfold read Definition.read at h
    cases hheader : header? ts with
    | none => simp [hheader] at h
    | some found =>
      obtain ⟨name, opening, rest⟩ := found
      cases hitems : items? 0 rest with
      | none => simp [hheader, hitems] at h
      | some found =>
        cases hcs : clauses found.1 with
        | error e => simp [hheader, hitems, hcs] at h
        | ok cs =>
          simp only [hheader, hitems, hcs, Except.ok.injEq] at h
          exact ⟨name, opening, rest, found.1, found.2, cs, rfl, hitems, hcs, h.symm⟩
  · rintro ⟨name, opening, rest, items, after, cs, hheader, hitems, hcs, rfl⟩
    simp only [read, Definition.read, hheader, hitems, hcs]

theorem read_of_map_ofToken (h : us.map ofToken = ts.map ofToken) (hread : read ts = .ok d) :
    read us = .ok d := by
  have hunplaced (t : Token) : t.unplaced = ((ofToken t).token .start).unplaced := by
    simp [ofToken, token, Token.unplaced]
  have hmap : us.map Token.unplaced = ts.map Token.unplaced := by
    have hall := congrArg (List.map fun w => (w.token .start).unplaced) h
    simpa only [List.map_map, Function.comp_def, ← hunplaced] using hall
  have hsame := read_unplaced us
  rw [hmap, read_unplaced, hread] at hsame
  cases hus : read us with
  | error e => rw [hus] at hsame; cases hsame
  | ok e => rw [hus] at hsame; cases hsame; rfl

end Draft

theorem Table.parseStatement_eq_ok_iff : parseStatement source = .ok t ↔
    ∃ ts d, Token.tokenize source = .ok ts ∧ Draft.read ts = .ok d ∧ d.settle = .ok t := by
  rw [parseStatement]
  cases Token.tokenize source with
  | error e => simp
  | ok ts =>
    cases hread : Draft.read ts with
    | error e => simp [hread]
    | ok d => cases hsettle : d.settle <;> simp [hread, hsettle, Except.mapError]

theorem tokenize_of_reads {ws : List Lexeme} {gap : List Char} (h : Reads ws gap) (hgap : Gap gap) :
    ∃ eof, Token.tokenize (String.ofList (textOf ws ++ gap)) =
        .ok (tokensAt .start ws ++ [eof]) ∧ ofToken eof = ⟨gap, .eof, []⟩ := by
  obtain ⟨p, hscans⟩ := h .start
  refine ⟨_, Token.tokenize_eq_ok_iff.2 ⟨_, p, gap, hgap, by rwa [String.toList_ofList], rfl⟩, ?_⟩
  simp [ofToken]

theorem eq_append_eof_of_items? {before rest after : List Token} {opening eof : Token}
    {items : List Item} (h : items? 0 rest = some (items, after)) (heof : eof.kind = .eof)
    (hus : before ++ opening :: rest = us ++ [eof]) :
    ∃ after', after = after' ++ [eof] ∧ us = before ++ opening :: (listTokens items ++ after') := by
  obtain ⟨hrest, others, last, rfl, -, hlast⟩ := eq_append_of_items? h
  have hjoined : rest = listTokens others ++ (last.tokens ++ [last.stop]) ++ after := by
    rw [hrest, List.flatMap_append, List.flatMap_singleton]
    rfl
  obtain rfl | ⟨after', last', rfl⟩ := List.eq_nil_or_concat' after
  · have hend : before ++ opening :: (listTokens others ++ last.tokens) ++ [last.stop] =
        us ++ [eof] := by
      rw [← hus, hjoined]
      simp
    rw [(List.singleton_inj.1 (List.append_inj' hend rfl).2), heof] at hlast
    cases hlast
  · have hend : before ++ opening :: (listTokens (others ++ [last]) ++ after') ++ [last'] =
        us ++ [eof] := by
      rw [← hus, hrest]
      simp [listTokens]
    obtain ⟨rfl, hlast'⟩ := List.append_inj' hend rfl
    rw [List.singleton_inj.1 hlast']
    exact ⟨after', rfl, rfl⟩

namespace Listing

variable {l : Listing}

theorem text_eq (h : l.items ≠ []) : l.text = String.ofList (textOf (l.tokens.map ofToken)) := by
  rw [text, tokens]
  simp only [List.map_append, List.map_cons, textOf_append, textOf_cons,
    textOf_listTokens_punctuated h]
  simp

structure Readable (l : Listing) : Prop where
  nonempty : l.items ≠ []
  items : ∀ i ∈ l.items, i.Readable
  before : ∀ after, Scan.Delimited after → Reads (l.before.map ofToken) after
  gap : Gap l.opening.gap.toList
  opening : ofToken l.opening = mark l.opening.gap.toList '('
  after : ∃ after eof gap, l.after = after ++ [eof] ∧ ofToken eof = ⟨gap, .eof, []⟩ ∧ Gap gap ∧
    Reads (after.map ofToken) gap

theorem Readable.exists_tokenize (h : l.Readable) :
    ∃ ts, Token.tokenize l.text = .ok ts ∧ ts.map ofToken = l.tokens.map ofToken := by
  obtain ⟨after, eof, gap, hafter, heof, hgap, hreads⟩ := h.after
  have hlist := (reads_listTokens_punctuated h.items _).append hreads
  have hopen := (reads_mark (c := '(') (by decide) h.gap _).append hlist
  have hbefore := (h.before _ (delimited_mark (c := '(') (by decide) h.gap _ _)).append hopen
  have htokens : l.tokens = l.before ++ l.opening :: (listTokens (punctuated l.items) ++ after) ++
      [eof] := by
    simp [tokens, hafter]
  have hall : Reads
      ((l.before ++ l.opening :: (listTokens (punctuated l.items) ++ after)).map ofToken) gap := by
    simpa [h.opening] using hbefore
  obtain ⟨eof', htokenize, heof'⟩ := tokenize_of_reads hall hgap
  have htext : l.text = String.ofList
      (textOf ((l.before ++ l.opening :: (listTokens (punctuated l.items) ++ after)).map ofToken) ++
        gap) := by
    rw [text_eq h.nonempty, htokens, List.map_append, textOf_append, List.map_singleton, heof]
    simp
  refine ⟨_, htext ▸ htokenize, ?_⟩
  rw [htokens, List.map_append, map_ofToken_tokensAt]
  simp [heof, heof']

theorem Of.readable (h : l.Of source) : l.Readable ∧ l.text = source := by
  obtain ⟨name, rest, htokens, hheader, hitems⟩ := h
  obtain ⟨us, p, gap, hgap, hscans, hus⟩ := Token.tokenize_eq_ok_iff.1 htokens
  obtain ⟨-, -, ho, -⟩ := Draft.header?_append_rest hheader
  obtain ⟨-, others, last, hlist, hothers, hlast⟩ := eq_append_of_items? hitems
  obtain ⟨after, hafter, rfl⟩ := eq_append_eof_of_items? hitems rfl hus
  have hreads := reads_of_scans hscans
  have htext := textOf_append_of_scans hscans
  -- what is read of all of the text is read piece by piece, each before the text of the next
  rw [List.map_append, List.map_cons, List.map_append] at hreads
  obtain ⟨hbefore, hrest⟩ := hreads.split
  rw [← List.singleton_append] at hrest
  obtain ⟨hopening, hlist'⟩ := hrest.split
  obtain ⟨hjoined, hlater⟩ := hlist'.split
  obtain ⟨hblank, hmark⟩ := hopening.eq_mark (c := '(') (by decide) ho
  rw [hlist] at hjoined
  obtain ⟨hitem, hsame⟩ := readable_of_reads_listTokens hothers hlast hjoined
  rw [hmark] at hbefore
  refine ⟨⟨by simp [hlist], by rwa [hlist], fun after' ha' => hbefore.exchange ?_ ha', hblank,
    hmark, after, _, gap, hafter, by simp [ofToken], hgap, hlater⟩, ?_⟩
  · exact delimited_mark (c := '(') (by decide) hblank _ _
  · have htokens : l.tokens.map ofToken =
        (l.before ++ l.opening :: (listTokens l.items ++ after)).map ofToken ++
          [⟨gap, .eof, []⟩] := by
      simp only [tokens, hafter, hlist, List.map_append, List.map_cons, hsame]
      simp [ofToken]
    rw [text_eq (by simp [hlist]), htokens, textOf_append, ← String.toList_inj,
      String.toList_ofList, ← htext]
    simp

theorem Of.enclosed (h : l.Of source) : ∀ i ∈ l.items, Enclosed i.tokens := by
  obtain ⟨_, _, _, _, hitems⟩ := h
  intro i hi
  obtain ⟨first, others, hlist, hfirst, hothers⟩ := undivided_of_items? hitems
  refine Token.Undivided.enclosed ?_ (unended_of_items? hitems i hi)
  rw [hlist] at hi
  rcases List.mem_cons.1 hi with rfl | hi
  · exact hfirst
  · exact hothers i hi

variable {items : List Item} (hmoved : KeysMoved Item.shape? l.items items)

include hmoved

theorem Readable.moved (h : l.Readable) : Readable { l with items := items } :=
  { h with
    nonempty := hmoved.ne_nil h.nonempty
    items := fun i hi => h.items i (hmoved.perm.mem_iff.1 hi) }

theorem Of.exists_read (h : l.Of source) (htable : Table.parseStatement source = .ok t) :
    ∃ e, Draft.read (tokens { l with items := items }) = .ok e ∧ e.settle = .ok t := by
  have hne := hmoved.ne_nil h.readable.1.nonempty
  have henclosed : ∀ i ∈ items, Enclosed i.tokens :=
    fun i hi => h.enclosed i (hmoved.perm.mem_iff.1 hi)
  obtain ⟨name, rest, htokens, hheader, hitems⟩ := h
  obtain ⟨ts, d, hts, hread, hsettle⟩ := Table.parseStatement_eq_ok_iff.1 htable
  obtain rfl := Except.ok.inj (htokens.symm.trans hts)
  obtain ⟨name', opening, rest', listed, after, cs, hheader', hitems', hcs, rfl⟩ :=
    Draft.read_eq_ok_iff.1 hread
  -- the text has one header and one list, so these are the items that were moved
  cases hheader.symm.trans hheader'
  cases hitems.symm.trans hitems'
  obtain ⟨cs', hcs', hsettles⟩ := exists_clauses_of_keysMoved hmoved hcs
  obtain ⟨before, hbefore, -, hopens⟩ := Draft.header?_append_rest hheader
  rw [List.append_left_inj] at hbefore
  refine ⟨_, Draft.read_eq_ok_iff.2 ⟨name, l.opening, _, _, _, cs', ?_,
    items?_listTokens_punctuated hne henclosed l.after,
    Draft.clauses_congr (map_tokens_punctuated items) hcs', rfl⟩, hsettles name _ hsettle⟩
  rw [tokens, hbefore]
  exact hopens _

end Listing

namespace Table

theorem exists_listing (h : parseStatement source = .ok t) : ∃ l : Listing, l.Of source := by
  obtain ⟨ts, d, htokens, hread, -⟩ := parseStatement_eq_ok_iff.1 h
  obtain ⟨name, opening, rest, items, after, -, hheader, hitems, -⟩ := Draft.read_eq_ok_iff.1 hread
  obtain ⟨before, rfl, -⟩ := Draft.header?_append_rest hheader
  exact ⟨⟨before, opening, items, after⟩, name, rest, htokens, hheader, hitems⟩

/-- A text that defines a table is that of a definition, and with the keys of the definition at
other places among its items it defines the same table. -/
theorem parseStatement_of_keysMoved (h : parseStatement source = .ok t) :
    (∃ l : Listing, l.Of source) ∧ ∀ l : Listing, l.Of source → l.text = source ∧
      ∀ items, KeysMoved Item.shape? l.items items →
        parseStatement (Listing.text { l with items := items }) = .ok t := by
  refine ⟨exists_listing h, fun l hl => ?_⟩
  obtain ⟨hreadable, htext⟩ := hl.readable
  refine ⟨htext, fun items hmoved => ?_⟩
  obtain ⟨e, hread, hsettle⟩ := hl.exists_read hmoved h
  obtain ⟨ts, htokens, hmap⟩ := (hreadable.moved hmoved).exists_tokenize
  exact parseStatement_eq_ok_iff.2 ⟨ts, e, htokens, Draft.read_of_map_ofToken hmap hread, hsettle⟩

def earlyKeysText : String :=
  "CREATE TABLE t (PRIMARY KEY (a), KEY k (b,a) , a INT, b INT UNIQUE)"

def earlyKeys : Listing :=
  let ts := (Token.tokenize earlyKeysText).toOption.getD []
  let found := (items? 0 (ts.drop 4)).getD ([], [])
  ⟨ts.take 3, ⟨" ", .leftParen, "(", ⟨1, 16, 15⟩⟩, found.1, found.2⟩

def laterKeys : List Item := [2, 1, 3, 0].filterMap (earlyKeys.items[·]?)

theorem parseStatement_of_keysMoved_earlyKeys : ∃ t, parseStatement earlyKeysText = .ok t ∧
    parseStatement "CREATE TABLE t ( a INT, KEY k (b,a) , b INT UNIQUE,PRIMARY KEY (a))" =
      .ok t := by
  have hof : earlyKeys.Of earlyKeysText :=
    ⟨"t", listTokens earlyKeys.items ++ earlyKeys.after, by decide +kernel, by decide +kernel,
      by decide +kernel⟩
  have hok : (parseStatement earlyKeysText).toOption.isSome = true := by decide +kernel
  cases h : parseStatement earlyKeysText with
  | error e =>
    rw [h] at hok
    cases hok
  | ok t =>
    obtain ⟨-, hmoved⟩ := (parseStatement_of_keysMoved h).2 earlyKeys hof
    have htext : Listing.text { earlyKeys with items := laterKeys } =
        "CREATE TABLE t ( a INT, KEY k (b,a) , b INT UNIQUE,PRIMARY KEY (a))" := by
      decide +kernel
    refine ⟨t, rfl, htext ▸ hmoved laterKeys ⟨?_, ?_, ?_⟩⟩ <;> decide +kernel

end Table

end SqlTables
