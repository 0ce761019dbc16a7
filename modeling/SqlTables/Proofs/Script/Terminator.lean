import SqlTables.Proofs.Places
import SqlTables.Proofs.Source.Concatenation
import SqlTables.Proofs.Token.Terminator
import SqlTables.Proofs.Unplaced

/-! Reading up to the semicolon. A definition is read of the tokens before the semicolon that ends
it, so a text that goes on after it defines the same table, or fails to scan. -/

namespace SqlTables

open Declaration
open Text (Position)

namespace Declaration

def upToSemicolon : List Token → List Token
  | [] => []
  | t :: rest => if t.kind = .semicolon then [t] else t :: upToSemicolon rest

variable {α : Type} {t : Token} {ts : List Token}

theorem upToSemicolon_cons (h : t.kind ≠ .semicolon) (ts : List Token) :
    upToSemicolon (t :: ts) = t :: upToSemicolon ts := if_neg h

theorem upToSemicolon_append (h : ∀ t ∈ ts, t.kind ≠ .semicolon) {semicolon : Token}
    (hk : semicolon.kind = .semicolon) (rest : List Token) :
    upToSemicolon (ts ++ semicolon :: rest) = ts ++ [semicolon] := by
  induction ts with
  | nil => exact if_pos hk
  | cons t ts ih =>
    rw [List.forall_mem_cons] at h
    rw [List.cons_append, upToSemicolon_cons h.1, ih h.2, List.cons_append]

theorem keyword?_upToSemicolon (w : String) (ts : List Token) :
    keyword? w (upToSemicolon ts) = (keyword? w ts).map upToSemicolon := by
  cases ts with
  | nil => rfl
  | cons t ts =>
    by_cases hs : t.kind = .semicolon
    · simp [upToSemicolon, keyword?, Token.isKeyword, hs]
    · by_cases hw : t.isKeyword w = true <;> simp [upToSemicolon_cons hs, keyword?, hw]

theorem keywords?_upToSemicolon (ws : List String) (ts : List Token) :
    keywords? ws (upToSemicolon ts) = (keywords? ws ts).map upToSemicolon := by
  induction ws generalizing ts with
  | nil => rfl
  | cons w ws ih =>
    rw [keywords?, keywords?, keyword?_upToSemicolon]
    cases keyword? w ts with
    | none => rfl
    | some rest => exact ih rest

theorem skipOneOf_upToSemicolon (choices : List (List String)) (ts : List Token) :
    skipOneOf choices (upToSemicolon ts) = upToSemicolon (skipOneOf choices ts) := by
  induction choices with
  | nil => rfl
  | cons ws others ih =>
    rw [skipOneOf, skipOneOf, keywords?_upToSemicolon]
    cases keywords? ws ts with
    | none => exact ih
    | some rest => rfl

theorem semicolon_ne_of_name? {name : String} (h : t.name? = some name) :
    t.kind ≠ .semicolon := by
  intro hk
  simp [Token.name?, hk] at h

def restUpToSemicolon (read : α × List Token) : α × List Token := (read.1, upToSemicolon read.2)

theorem qualifiedName?_upToSemicolon (ts : List Token) :
    qualifiedName? (upToSemicolon ts) = (qualifiedName? ts).map restUpToSemicolon := by
  fun_induction qualifiedName? ts with
  | case1 => rfl
  | case2 t =>
    have ht : upToSemicolon [t] = [t] := by
      by_cases hs : t.kind = .semicolon <;> simp [upToSemicolon, hs]
    rw [ht, qualifiedName?, Option.map_map]
    rfl
  | case3 t d rest hn =>
    by_cases hs : t.kind = .semicolon
    · simp [upToSemicolon, hs, qualifiedName?, hn]
    · by_cases hd : d.kind = .semicolon <;> simp [upToSemicolon, hs, hd, qualifiedName?, hn]
  | case4 t d rest name hn hd ih =>
    have hs : t.kind ≠ .semicolon := semicolon_ne_of_name? hn
    have hd' : d.kind ≠ .semicolon := by simp [hd]
    rw [upToSemicolon_cons hs, upToSemicolon_cons hd', qualifiedName?, hn]
    simpa [hd] using ih
  | case5 t d rest name hn hd =>
    have hs : t.kind ≠ .semicolon := semicolon_ne_of_name? hn
    by_cases hd' : d.kind = .semicolon <;>
      simp [upToSemicolon, hs, hd', qualifiedName?, hn, hd, restUpToSemicolon]

theorem items?_upToSemicolon (depth : Nat) (ts : List Token) :
    items? depth (upToSemicolon ts) = (items? depth ts).map restUpToSemicolon := by
  induction ts generalizing depth with
  | nil => rfl
  | cons t ts ih =>
    by_cases hs : t.kind = .semicolon
    · simp [upToSemicolon, items?, hs]
    rw [upToSemicolon_cons hs, items?, items?]
    simp only [ih]
    by_cases he : t.kind = .eof ∨ t.kind = .semicolon
    · simp [he]
    by_cases hclose : depth = 0 ∧ t.kind = .rightParen
    · simp [hclose, restUpToSemicolon]
    by_cases hcomma : depth = 0 ∧ t.kind = .comma
    · simp [hcomma, Function.comp_def, restUpToSemicolon]
    rw [if_neg he, if_neg hclose, if_neg hcomma, if_neg he, if_neg hclose, if_neg hcomma]
    generalize items? _ ts = found
    rcases found with _ | ⟨_ | ⟨_, _⟩, _⟩ <;> rfl

namespace Setting

theorem keyword?_upToSemicolon (ts : List Token) :
    keyword? (upToSemicolon ts) = (keyword? ts).map restUpToSemicolon := by
  rw [keyword?, keyword?, List.map_findSome?]
  congr 1
  funext k
  simp only [keywords?_upToSemicolon, Function.comp_apply, Option.map_map]
  rfl

theorem skipEquals_upToSemicolon (ts : List Token) :
    skipEquals (upToSemicolon ts) = upToSemicolon (skipEquals ts) := by
  cases ts with
  | nil => rfl
  | cons t ts =>
    by_cases hs : t.kind = .semicolon
    · simp [upToSemicolon, skipEquals, hs]
    · by_cases he : t.kind = .equals <;> simp [upToSemicolon, skipEquals, hs, he]

theorem value_upToSemicolon (ts : List Token) :
    value (upToSemicolon ts) = restUpToSemicolon (value ts) := by
  rw [value, value, skipEquals_upToSemicolon]
  cases skipEquals ts with
  | nil => rfl
  | cons t ts =>
    by_cases hs : t.kind = .semicolon
    · simp [upToSemicolon, Token.value?, hs, restUpToSemicolon]
    · rw [upToSemicolon_cons hs]
      dsimp only
      cases t.value? with
      | none => simp [restUpToSemicolon, upToSemicolon_cons hs]
      | some v => rfl

theorem readAll_upToSemicolon (ts : List Token) : readAll (upToSemicolon ts) = readAll ts := by
  fun_induction readAll ts with
  | case1 => rw [upToSemicolon, readAll]
  | case2 t ts ht =>
    by_cases hs : t.kind = .semicolon
    · rw [upToSemicolon, if_pos hs, readAll_cons, if_pos (.inl hs)]
    · rw [upToSemicolon_cons hs, readAll_cons, if_pos (by exact ht)]
  | case3 t ts ht make after hk found ih =>
    have hkeyword := keyword?_upToSemicolon (t :: ts)
    have hs : t.kind ≠ .semicolon := fun h => ht (.inl h)
    rw [hk, upToSemicolon_cons hs] at hkeyword
    rw [upToSemicolon_cons hs, readAll_cons, if_neg (by exact ht), hkeyword]
    simp only [Option.map_some, restUpToSemicolon, value_upToSemicolon]
    rw [ih]
  | case4 t ts ht hk ih =>
    have hkeyword := keyword?_upToSemicolon (t :: ts)
    have hs : t.kind ≠ .semicolon := fun h => ht (.inl h)
    rw [hk, upToSemicolon_cons hs] at hkeyword
    rw [upToSemicolon_cons hs, readAll_cons, if_neg (by exact ht), hkeyword]
    exact ih

end Setting

end Declaration

namespace Draft

variable {ts us rest rest' : List Token}

theorem table?_cons (t : Token) (ts : List Token) :
    keyword? "TABLE" (skipOneOf [["TEMPORARY"], ["TEMP"]] (t :: ts)) =
      if t.isKeyword "TEMPORARY" ∨ t.isKeyword "TEMP" then keyword? "TABLE" ts
      else keyword? "TABLE" (t :: ts) := by
  by_cases h : t.isKeyword "TEMPORARY" = true
  · simp [skipOneOf, keywords?, keyword?, h]
  · by_cases h' : t.isKeyword "TEMP" = true <;> simp [skipOneOf, keywords?, keyword?, h, h']

theorem keyword?_cons_eq_some_iff {w : String} {t : Token} :
    keyword? w (t :: ts) = some rest ↔ t.isKeyword w = true ∧ ts = rest := by
  by_cases h : t.isKeyword w = true <;> simp [keyword?, h]

theorem table?_append_rest
    (h : keyword? "TABLE" (skipOneOf [["TEMPORARY"], ["TEMP"]] ts) = some rest) :
    ∃ t read, ts = t :: read ++ rest ∧ ∀ rest',
      keyword? "TABLE" (skipOneOf [["TEMPORARY"], ["TEMP"]] (t :: read ++ rest')) = some rest' := by
  cases ts with
  | nil => simp [skipOneOf, keywords?, keyword?] at h
  | cons t ts =>
    rw [table?_cons] at h
    split_ifs at h with htemp
    · cases ts with
      | nil => simp [keyword?] at h
      | cons u ts =>
        obtain ⟨hu, rfl⟩ := keyword?_cons_eq_some_iff.1 h
        refine ⟨t, [u], rfl, fun rest' => ?_⟩
        rw [List.cons_append, table?_cons, if_pos htemp]
        exact keyword?_cons_eq_some_iff.2 ⟨hu, rfl⟩
    · obtain ⟨ht, rfl⟩ := keyword?_cons_eq_some_iff.1 h
      refine ⟨t, [], rfl, fun rest' => ?_⟩
      rw [List.cons_append, table?_cons, if_neg htemp]
      exact keyword?_cons_eq_some_iff.2 ⟨ht, rfl⟩

theorem table?_eq_none_congr {t u : Token}
    (h : keyword? "TABLE" (skipOneOf [["TEMPORARY"], ["TEMP"]] (t :: u :: ts)) = none)
    (us : List Token) :
    keyword? "TABLE" (skipOneOf [["TEMPORARY"], ["TEMP"]] (t :: u :: us)) = none := by
  rw [table?_cons] at h ⊢
  split_ifs at h ⊢ with htemp
  · by_contra hu
    obtain ⟨rest, hrest⟩ := Option.ne_none_iff_exists'.1 hu
    simp [keyword?, (keyword?_cons_eq_some_iff.1 hrest).1] at h
  · by_contra ht
    obtain ⟨rest, hrest⟩ := Option.ne_none_iff_exists'.1 ht
    simp [keyword?, (keyword?_cons_eq_some_iff.1 hrest).1] at h

theorem afterCreateTable?_append_rest (h : afterCreateTable? ts = some rest) :
    ∃ t u read, ts = t :: u :: read ++ rest ∧
      ∀ rest', afterCreateTable? (t :: u :: read ++ rest') = some rest' := by
  induction ts with
  | nil => simp [afterCreateTable?] at h
  | cons t ts ih =>
    rw [afterCreateTable?] at h
    by_cases he : t.kind = .eof
    · simp [he] at h
    rw [if_neg he] at h
    by_cases hc : t.isKeyword "CREATE" = true
    · rw [if_pos hc] at h
      cases htable : keyword? "TABLE" (skipOneOf [["TEMPORARY"], ["TEMP"]] ts) with
      | some found =>
        rw [htable] at h
        cases h
        obtain ⟨u, read, rfl, hread⟩ := table?_append_rest htable
        refine ⟨t, u, read, rfl, fun rest' => ?_⟩
        rw [List.cons_append, afterCreateTable?, if_neg he, if_pos hc, hread]
      | none =>
        rw [htable] at h
        obtain ⟨u, v, read, rfl, hread⟩ := ih h
        refine ⟨t, u, v :: read, rfl, fun rest' => ?_⟩
        have hnone : keyword? "TABLE" (skipOneOf [["TEMPORARY"], ["TEMP"]]
            (u :: v :: read ++ rest')) = none := table?_eq_none_congr htable (read ++ rest')
        rw [List.cons_append, afterCreateTable?, if_neg he, if_pos hc, hnone]
        exact hread rest'
    · rw [if_neg hc] at h
      obtain ⟨u, v, read, rfl, hread⟩ := ih h
      refine ⟨t, u, v :: read, rfl, fun rest' => ?_⟩
      rw [List.cons_append, afterCreateTable?, if_neg he, if_neg hc]
      exact hread rest'

def headerAfter? (ts : List Token) : Option (String × Token × List Token) := do
  let (name, rest) ← qualifiedName? (skipOneOf [["IF", "NOT", "EXISTS"]] ts)
  match rest with
  | [] => none
  | t :: rest => if t.kind = .leftParen then some (name, t, rest) else none

theorem headerAfter?_upToSemicolon (ts : List Token) : headerAfter? (upToSemicolon ts) =
    (headerAfter? ts).map fun (name, opening, rest) => (name, opening, upToSemicolon rest) := by
  rw [headerAfter?, headerAfter?, skipOneOf_upToSemicolon, qualifiedName?_upToSemicolon]
  cases qualifiedName? (skipOneOf [["IF", "NOT", "EXISTS"]] ts) with
  | none => rfl
  | some read =>
    obtain ⟨name, rest⟩ := read
    cases rest with
    | nil => rfl
    | cons t rest =>
      by_cases hs : t.kind = .semicolon
      · simp [restUpToSemicolon, upToSemicolon, hs]
      · by_cases h : t.kind = .leftParen <;>
          simp [restUpToSemicolon, upToSemicolon_cons hs, h]

def readAfter (ts : List Token) : Except ParseError Draft :=
  match headerAfter? ts with
  | none => .error .missingHeader
  | some (name, opening, rest) =>
    match items? 0 rest with
    | none => .error (.unterminatedColumnList opening.start.line opening.start.column)
    | some (items, rest) =>
      match clauses items with
      | .error e => .error e
      | .ok cs => .ok (ofClauses name cs (Setting.readAll rest))

theorem header?_eq_headerAfter? (h : afterCreateTable? ts = some rest) :
    header? ts = headerAfter? rest := by
  rw [header?, h]
  rfl

theorem read_eq_readAfter (h : afterCreateTable? ts = some rest) : read ts = readAfter rest := by
  rw [read, Definition.read, readAfter, header?_eq_headerAfter? h]
  cases headerAfter? rest with
  | none => rfl
  | some found =>
    dsimp only
    cases items? 0 found.2.2 <;> rfl

theorem readAfter_upToSemicolon (ts : List Token) :
    readAfter (upToSemicolon ts) = readAfter ts := by
  rw [readAfter, readAfter, headerAfter?_upToSemicolon]
  cases headerAfter? ts with
  | none => rfl
  | some found =>
    simp only [Option.map_some, items?_upToSemicolon]
    cases items? 0 found.2.2 with
    | none => rfl
    | some read => simp only [Option.map_some, restUpToSemicolon, Setting.readAll_upToSemicolon]

theorem readAfter_ne_scan (ts : List Token) (e : ScanError) :
    readAfter ts ≠ .error (.scan e) := by
  intro h
  unfold readAfter at h
  split at h
  · cases h
  · split at h
    · cases h
    · split at h
      · rename_i hclauses
        obtain ⟨i, -, -, hi⟩ := exists_of_clauses_error hclauses
        rw [Except.error.inj h] at hi
        cases hi
      · cases h

end Draft

namespace Table

/-- Whether a text ends with the semicolon that ends its first definition. -/
structure EndsDefinition (text : String) : Prop where
  code : (Source.mark true text.toList).getLast? = some (';', .code)
  terminator : ∃ ts body semicolon last, Token.tokenize (Source.withoutComments text) = .ok ts ∧
    Draft.afterCreateTable? ts = some (body ++ [semicolon, last]) ∧
    (∀ t ∈ body, t.kind ≠ .semicolon) ∧ semicolon.kind = .semicolon

variable {s : String}

theorem getLast?_blank {cs : List Char} (h : (Source.mark true cs).getLast? = some (';', .code)) :
    (Source.blank cs).getLast? = some ';' := by
  rw [Source.blank, List.getLast?_map, h]
  rfl

theorem EndsDefinition.exists_scans (h : EndsDefinition s) :
    ∃ ts p, (∀ after, Scan.Scans .start (Source.blank s.toList ++ after) ts p after) ∧
      ∃ draft, (∀ rest, Draft.read (ts ++ rest) = draft) ∧ ∀ e, draft ≠ .error (.scan e) := by
  obtain ⟨ts, body, semicolon, last, htokens, hafter, hbody, hk⟩ := h.terminator
  obtain ⟨us, p, gap, hgap, hscans, rfl⟩ := Token.tokenize_eq_ok_iff.1 htokens
  obtain ⟨t, u, read, happ, hread⟩ := Draft.afterCreateTable?_append_rest hafter
  have hus : us = t :: u :: read ++ body ++ [semicolon] := by
    have hcut : t :: u :: read ++ (body ++ [semicolon, last]) =
        (t :: u :: read ++ body ++ [semicolon]) ++ [last] := by simp
    exact (List.append_inj' (happ.trans hcut) rfl).1
  rw [Source.withoutComments, String.toList_ofList] at hscans
  have hlast := getLast?_blank h.code
  have hkind : ∀ v, us.getLast? = some v → v.kind = .semicolon := by
    intro v hv
    rw [hus, List.getLast?_concat, Option.some.injEq] at hv
    rw [← hv, hk]
  refine ⟨us, p, hscans.append_after (hscans.eq_nil_of_gap hgap hlast) hlast hkind,
    Draft.readAfter (body ++ [semicolon]), fun rest => ?_, Draft.readAfter_ne_scan _⟩
  have hrest : Draft.afterCreateTable? (us ++ rest) = some (body ++ semicolon :: rest) := by
    rw [hus, List.append_assoc, List.append_assoc]
    exact hread _
  rw [Draft.read_eq_readAfter hrest, ← Draft.readAfter_upToSemicolon,
    upToSemicolon_append hbody hk]

theorem EndsDefinition.parse_append (h : EndsDefinition s) :
    ∃ p draft, (∀ e, draft ≠ .error (.scan e)) ∧ ∀ r, parse (s ++ r) =
      match (Scan.scanFrom p (Source.blank r.toList)).unterminated with
      | none => settled draft
      | some q => .error (.scan (.unterminatedLiteral q.line q.column)) := by
  obtain ⟨ts, p, hscans, draft, hdraft, hscan⟩ := h.exists_scans
  refine ⟨p, draft, hscan, fun r => ?_⟩
  have hblank : Source.blank (s ++ r).toList = Source.blank s.toList ++ Source.blank r.toList := by
    rw [String.toList_append, Source.blank, Source.mark_append h.code, List.map_append]
    rfl
  rw [parse, parseStatement_eq, Token.tokenize, Scan.ofText, Source.withoutComments,
    String.toList_ofList, hblank, (hscans (Source.blank r.toList)).scanFrom_append]
  cases (Scan.scanFrom p (Source.blank r.toList)).unterminated with
  | none => simp only [List.append_assoc, hdraft]
  | some q => rfl

theorem settled_ne_scan {draft : Except ParseError Draft} (h : ∀ e, draft ≠ .error (.scan e))
    (e : ScanError) : settled draft ≠ .error (.scan e) := by
  cases draft with
  | error e' => exact fun he => h e (by rw [← Except.error.inj he])
  | ok d =>
    rw [settled]
    cases d.settle <;> exact fun he => by cases he

theorem exists_tokenize_iff {r : String} (p : Position) :
    (∃ ts, Token.tokenize (Source.withoutComments r) = .ok ts) ↔
      (Scan.scanFrom p (Source.blank r.toList)).unterminated = none := by
  have hplace := congrArg Scan.unterminated
    (Scan.scanFrom_unplaced .start p (Source.blank r.toList))
  rw [Scan.unplaced, Scan.unplaced] at hplace
  rw [Token.tokenize, Scan.ofText, Source.withoutComments, String.toList_ofList]
  cases hu : (Scan.scanFrom p (Source.blank r.toList)).unterminated with
  | none =>
    rw [hu, Option.map_none, Option.map_eq_none_iff] at hplace
    simp [hplace]
  | some q =>
    rw [hu, Option.map_some] at hplace
    obtain ⟨q', hq, -⟩ := Option.map_eq_some_iff.1 hplace
    simp [hq]

/-- What follows the semicolon of a definition counts for nothing, as long as it scans: a quote in
it that nothing closes is an error. -/
theorem parse_append_iff (h : EndsDefinition s) (r : String) :
    (parse (s ++ r) = parse s ↔ ∃ ts, Token.tokenize (Source.withoutComments r) = .ok ts) ∧
      (parse (s ++ r) ≠ parse s →
        ∃ line column, parse (s ++ r) = .error (.scan (.unterminatedLiteral line column))) := by
  obtain ⟨p, draft, hdraft, hall⟩ := h.parse_append
  have hself : parse s = settled draft := by
    have hnil := hall ""
    have hgap : Scan.Gap [] := by simp [Scan.Gap]
    have hend : Scan.scanFrom p (Source.blank "".toList) = ⟨[], none, ""⟩ :=
      Scan.scanFrom_of_gap hgap p
    rwa [String.append_empty, hend] at hnil
  rw [exists_tokenize_iff p, hall, hself]
  cases hu : (Scan.scanFrom p (Source.blank r.toList)).unterminated with
  | none => simp
  | some q =>
    have hne := settled_ne_scan hdraft (.unterminatedLiteral q.line q.column)
    refine ⟨⟨fun he => absurd he.symm hne, fun he => by cases he⟩, fun _ => ⟨_, _, rfl⟩⟩

theorem endsDefinition_semicolons : EndsDefinition "CREATE TABLE t (`;` INT) /* ; */;" := by
  have htokens : Token.tokenize (Source.withoutComments "CREATE TABLE t (`;` INT) /* ; */;") =
      .ok [⟨"", .word "CREATE", "CREATE", ⟨1, 1, 0⟩⟩, ⟨" ", .word "TABLE", "TABLE", ⟨1, 8, 7⟩⟩,
        ⟨" ", .word "t", "t", ⟨1, 14, 13⟩⟩, ⟨" ", .leftParen, "(", ⟨1, 16, 15⟩⟩,
        ⟨"", .quotedName ";", "`;`", ⟨1, 17, 16⟩⟩, ⟨" ", .word "INT", "INT", ⟨1, 21, 20⟩⟩,
        ⟨"", .rightParen, ")", ⟨1, 24, 23⟩⟩, ⟨"        ", .semicolon, ";", ⟨1, 33, 32⟩⟩,
        ⟨"", .eof, "", ⟨1, 34, 33⟩⟩] := by
    decide +kernel
  exact ⟨by decide, _, [_, _, _, _, _], _, _, htokens, rfl, by decide, rfl⟩

theorem parse_append_iff_semicolons :
    EndsDefinition "CREATE TABLE t (`;` INT) /* ; */;" ∧
      parse ("CREATE TABLE t (`;` INT) /* ; */;" ++ "); -- it's\nCREATE TABLE u (`") ≠
        parse "CREATE TABLE t (`;` INT) /* ; */;" ∧
      parse ("CREATE TABLE t (`;` INT) /* ; */;" ++ "); -- it's\nCREATE TABLE u (") =
        parse "CREATE TABLE t (`;` INT) /* ; */;" := by
  refine ⟨endsDefinition_semicolons, ?_, (parse_append_iff endsDefinition_semicolons _).1.2 ?_⟩
  · rw [ne_eq, (parse_append_iff endsDefinition_semicolons _).1, exists_tokenize_iff .start]
    decide +kernel
  · rw [exists_tokenize_iff .start]
    decide +kernel

theorem not_parse_append : ¬∀ s r : String, EndsDefinition s → parse (s ++ r) = parse s := by
  intro h
  have hquote := h _ "'" endsDefinition_semicolons
  revert hquote
  decide +kernel

end Table

end SqlTables
