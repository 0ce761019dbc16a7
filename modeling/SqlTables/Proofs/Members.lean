import Mathlib.Algebra.Order.BigOperators.Group.List
import SqlTables.Proofs.RoundTrip.Column
import SqlTables.Proofs.Schema.Parsed
import SqlTables.Proofs.Token.Extent
import SqlTables.Proofs.Unplaced

/-! Members of `ENUM` and `SET` types. They are written with their backslashes single, where a
string that is read takes backslashes for escapes. No text as short gives back a member that holds
one, whatever else becomes of the list. -/

namespace SqlTables

open Declaration Lexeme
open Dialect (enclose memberList mysqlType)
open Token (extent)

variable {ts part : List Token} {parts : List (List Token)} {v : String}

/-- Whether a text, from its first token to its last, is read as the column. -/
def Declaration.Column.OfText (c : Column) (text : String) : Prop :=
  ∃ ts last, Token.tokenize text = .ok (ts ++ [last]) ∧ Column.read? ts = some (c, true)

namespace Declaration

theorem splitCommas_cons_cases (depth : Nat) (t : Token) (ts : List Token) :
    splitCommas depth (t :: ts) = [] :: splitCommas depth ts ∨
      ∃ depth' part parts, splitCommas depth' ts = part :: parts ∧
        splitCommas depth (t :: ts) = (t :: part) :: parts := by
  rw [splitCommas]
  split_ifs
  · exact .inl rfl
  · dsimp only
    split
    · rename_i part parts hparts
      exact .inr ⟨_, part, parts, hparts, rfl⟩
    · rename_i hparts
      exact absurd hparts (splitCommas_ne_nil _ ts)

theorem mem_of_mem_splitCommas {depth : Nat} (hp : part ∈ splitCommas depth ts) :
    ∀ t ∈ part, t ∈ ts := by
  induction ts generalizing depth part with
  | nil => simp_all [splitCommas]
  | cons t ts ih =>
    intro u hu
    rcases splitCommas_cons_cases depth t ts with hs | ⟨depth', first, parts, hfirst, hs⟩
    all_goals rw [hs] at hp
    · rcases List.mem_cons.1 hp with rfl | hp
      · simp at hu
      · exact List.mem_cons_of_mem _ (ih hp u hu)
    · rcases List.mem_cons.1 hp with rfl | hp
      · rcases List.mem_cons.1 hu with rfl | hu
        · exact List.mem_cons_self ..
        · exact List.mem_cons_of_mem _ (ih (hfirst ▸ List.mem_cons_self ..) u hu)
      · exact List.mem_cons_of_mem _ (ih (hfirst ▸ List.mem_cons_of_mem _ hp) u hu)

theorem extent_splitCommas (h : ∀ t ∈ ts, t.Spelled) (depth : Nat) :
    ((splitCommas depth ts).map extent).sum + (splitCommas depth ts).length ≤ extent ts + 1 := by
  induction ts generalizing depth with
  | nil => simp [splitCommas]
  | cons t ts ih =>
    rw [List.forall_mem_cons] at h
    have hpos : 0 < t.width := Nat.lt_of_lt_of_le h.1.pos (Nat.le_add_left _ _)
    rcases splitCommas_cons_cases depth t ts with hs | ⟨depth', part, parts, hparts, hs⟩
    · have hts := ih h.2 depth
      simp only [hs, List.map_cons, List.sum_cons, List.length_cons, Token.extent_nil,
        Token.extent_cons]
      omega
    · have hts := ih h.2 depth'
      simp only [hparts, hs, List.map_cons, List.sum_cons, List.length_cons,
        Token.extent_cons] at hts ⊢
      omega

theorem length_le_of_member? (h : ∀ t ∈ part, t.Spelled)
    (hm : (TypeParameter.read part).member? = some v) :
    (Dialect.mysql.quoteString v).length ≤ extent part := by
  cases part with
  | nil => cases hm
  | cons t part =>
    have hkind : t.kind = .string v := by
      rw [TypeParameter.read] at hm
      split at hm
      · split at hm <;> cases hm
      · cases hm
        assumption
      · cases hm
    have hstring := (List.forall_mem_cons.1 h).1.string v hkind
    rw [Token.extent_cons, Token.width]
    omega

theorem sum_members_le (h : ∀ part ∈ parts, ∀ t ∈ part, t.Spelled) :
    (((parts.map TypeParameter.read).filterMap TypeParameter.member?).map
      fun v => (Dialect.mysql.quoteString v).length + 1).sum ≤
        (parts.map extent).sum + parts.length := by
  induction parts with
  | nil => simp
  | cons part parts ih =>
    rw [List.forall_mem_cons] at h
    have hparts := ih h.2
    rw [List.map_cons, List.map_cons, List.sum_cons, List.length_cons]
    cases hm : (TypeParameter.read part).member? with
    | none =>
      rw [List.filterMap_cons_none hm]
      omega
    | some v =>
      have hv := length_le_of_member? h.1 hm
      rw [List.filterMap_cons_some hm, List.map_cons, List.sum_cons]
      omega

theorem sum_members_readParameters_lt (h : ∀ t ∈ ts, t.Spelled) (hne : ts ≠ []) :
    (((DeclaredType.readParameters ts).1.filterMap TypeParameter.member?).map
      fun v => (Dialect.mysql.quoteString v).length + 1).sum < extent ts := by
  unfold DeclaredType.readParameters
  split
  · rename_i g rest hg
    obtain ⟨rfl, -⟩ := eq_append_of_group? hg
    have hinside : ∀ t ∈ g.inside, t.Spelled := fun t ht => h t (by simp [ht])
    have hopening := (h g.opening (by simp)).pos
    have hclosing := (h g.closing (by simp)).pos
    have hparts := extent_splitCommas hinside 0
    have hmembers := @sum_members_le (splitCommas 0 g.inside) fun part hp t ht =>
      hinside t (mem_of_mem_splitCommas hp t ht)
    simp only [Token.extent_append, Token.extent_cons, Token.extent_nil, Token.width]
    omega
  · obtain ⟨t, ts, rfl⟩ := List.exists_cons_of_ne_nil hne
    have hpos := (h t (List.mem_cons_self ..)).pos
    rw [Token.extent_cons, Token.width]
    simp only [List.filterMap_nil, List.map_nil, List.sum_nil]
    omega

theorem DeclaredType.exists_name?_of_read? {type : DeclaredType} {rest : List Token}
    (h : DeclaredType.read? ts = some (type, rest)) : ∃ name r,
      DeclaredType.name? ts = some (name, r) ∧ type.parameters = (readParameters r).1 := by
  obtain ⟨⟨name, r⟩, hname, h⟩ := Option.bind_eq_some_iff.1 h
  refine ⟨name, r, hname, ?_⟩
  simp only [Option.pure_def] at h
  split at h
  all_goals
    rw [Option.some.injEq, Prod.mk.injEq] at h
    rw [← h.1]

theorem Column.exists_of_read? {c : Column} {complete : Bool}
    (h : Column.read? ts = some (c, complete)) : ∃ rest rest',
      Declaration.name? ts = some (c.name, rest) ∧
        DeclaredType.read? rest = some (c.type, rest') ∧
          Attribute.readAll rest' = (c.attributes, complete) := by
  obtain ⟨⟨name, rest⟩, hname, h⟩ := Option.bind_eq_some_iff.1 h
  obtain ⟨⟨type, rest'⟩, htype, h⟩ := Option.bind_eq_some_iff.1 h
  cases h
  exact ⟨rest, rest', hname, htype, rfl⟩

theorem Column.members_field (c : Column) :
    c.field.members = c.type.parameters.filterMap TypeParameter.member? := by
  have hattribute : ∀ a ∈ c.attributes, ∀ f : Field, (a.apply f).members = f.members := by
    intro a _ f
    cases a <;> rfl
  exact get_foldl_apply (·.members) hattribute c.bareField

end Declaration

variable {f : Field}

theorem mysqlType_listed (hl : f.type.isListed = true) (nativeJson : Bool) :
    mysqlType nativeJson f = f.type.name ++ memberList f.members := by
  rcases ColumnType.isListed_iff.1 hl with ht | ht <;>
    simp [mysqlType, Dialect.mysqlBaseType, ht, ColumnType.acceptsSign, ColumnType.isInteger,
      ColumnType.isDecimal, ColumnType.isFloating, ColumnType.name]

theorem toList_memberList (members : List String) : (memberList members).toList =
    '(' :: ((",".intercalate (members.map fun v => enclose '\x27' v.toList)).toList ++ [')']) := by
  simp [memberList]

theorem length_memberList {members : List String} (h : members ≠ []) :
    (memberList members).length =
      (members.map fun v => (enclose '\x27' v.toList).length + 1).sum + 1 := by
  obtain ⟨v, members, rfl⟩ := List.exists_cons_of_ne_nil h
  rw [← String.length_toList, toList_memberList, String.toList_intercalate, List.map_map,
    List.map_cons, intercalate_cons, List.flatMap_map]
  simp [List.length_flatMap, String.length_toList]
  omega

def Field.listing (f : Field) (name : String) : Field :=
  { name := name, type := f.type, members := f.members }

theorem plain_listing (hl : f.type.isListed = true) (h : ∀ v ∈ f.members, '\\' ∉ v.toList)
    (name : String) : (f.listing name).Plain := by
  have htype : f.type.isCustom = false ∧ f.type.isDecimal = false ∧ f.type ≠ .varChar := by
    rcases ColumnType.isListed_iff.1 hl with ht | ht <;> rw [ht] <;> decide
  constructor
  · constructor <;> simp [Field.listing, htype, hl]
    exact h
  all_goals simp [Field.listing]

theorem ofText_listing (hl : f.type.isListed = true) (h : ∀ v ∈ f.members, '\\' ∉ v.toList)
    (name : String) (nativeJson : Bool) : (f.listing name).column.OfText
      (Dialect.mysql.quoteName name ++ " " ++ mysqlType nativeJson f) := by
  have hplain := plain_listing hl h name
  have hlexemes : (f.listing name).columnLexemes [] =
      [Lexeme.name .mysql [] name] ++ (f.listing name).typeLexemes := by
    change Lexeme.name .mysql [] name :: ((f.listing name).typeLexemes ++ []) = _
    rw [List.append_nil]
    rfl
  have hbase : Dialect.mysqlBaseType true (f.listing name) = mysqlType nativeJson f := by
    rw [mysqlType_listed hl]
    rcases ColumnType.isListed_iff.1 hl with ht | ht <;>
      simp [Dialect.mysqlBaseType, Field.listing, ht, ColumnType.name]
  have htext : (Dialect.mysql.quoteName name ++ " " ++ mysqlType nativeJson f).toList =
      textOf ((f.listing name).columnLexemes []) := by
    rw [hlexemes, textOf_append, textOf_typeLexemes hplain.toPlainType, hbase]
    simp [Lexeme.name]
  have hwritten : Written ((f.listing name).columnLexemes []) [] := by
    have htight : Tight [Lexeme.name .mysql [] name] :=
      tight_name (Dialect.quotes_mysql name) gap_nil
    rw [hlexemes]
    exact (htight.append (sealed_typeLexemes hplain.toPlainType)) [] Scan.delimited_nil
  have hscans := hwritten.scans .start
  rw [List.append_nil, ← htext] at hscans
  exact ⟨_, _, Token.tokenize_eq_ok_iff.2 ⟨_, _, [], gap_nil, hscans, rfl⟩,
    read?_columnLexemes hplain [] .start⟩

theorem sum_members_ofText_le (hl : f.type.isListed = true) (hm : f.members ≠ [])
    {name : String} {nativeJson : Bool} {c : Column}
    (h : c.OfText (Dialect.mysql.quoteName name ++ " " ++ mysqlType nativeJson f)) :
    (c.field.members.map fun v => (Dialect.mysql.quoteString v).length + 1).sum ≤
      (f.members.map fun v => (enclose '\x27' v.toList).length + 1).sum := by
  obtain ⟨ts, last, htokens, hread⟩ := h
  obtain ⟨p, gap, hgap, hscans⟩ := Token.exists_scans_of_tokenize htokens
  have htype : f.type.isCustom = false ∧ isBareWord f.type.name = true := by
    rcases ColumnType.isListed_iff.1 hl with ht | ht <;> rw [ht] <;> decide
  have hlist := toList_memberList f.members
  generalize hrest : (",".intercalate (f.members.map fun v => enclose '\x27' v.toList)).toList ++
    [')'] = rest at hlist
  -- the text begins with the name, the type and the parenthesis as they were written
  have hopening : Written [Lexeme.name .mysql [] name, word [' '] f.type.name, mark [] '('] rest :=
    (((tight_name (Dialect.quotes_mysql name) gap_nil).append (sealed_word htype.2 gap_space
      (by simp))) _ (Scan.delimited_cons.2 (by decide))).append (written_mark (by decide) gap_nil _)
  have htext : (Dialect.mysql.quoteName name ++ " " ++ mysqlType nativeJson f).toList =
      textOf [Lexeme.name .mysql [] name, word [' '] f.type.name, mark [] '('] ++ rest := by
    rw [mysqlType_listed hl]
    simp [Lexeme.name, word, mark, hlist]
  rw [htext] at hscans
  have hspelled := hscans.spelled
  obtain ⟨vs, q, gap', rfl, -, hvs⟩ := (hopening.scans .start).exists_append hscans hgap
  have hlength := hvs.length_eq
  have hmembers := length_memberList hm
  rw [← String.length_toList, hlist, List.length_cons] at hmembers
  obtain ⟨ts, rest', hname, htype', -⟩ := Column.exists_of_read? hread
  have hts : ts = (word [' '] f.type.name).token _ :: ((mark [] '(').token _ :: vs) :=
    (congrArg Prod.snd (Option.some.inj hname)).symm
  obtain ⟨_, _, hwords, hparameters⟩ := DeclaredType.exists_name?_of_read? htype'
  rw [hts, name?_type htype.1 (fun _ _ => rfl)] at hwords
  cases hwords
  rw [Column.members_field, hparameters]
  have hlt := @sum_members_readParameters_lt ((mark [] '(').token _ :: vs)
    (fun t ht => hspelled t (List.mem_cons_of_mem _ (List.mem_cons_of_mem _ ht))) (by simp)
  have hchars : (mark [] '(').chars.length = 1 := rfl
  rw [Token.extent_cons, Token.width_token, hchars] at hlt
  omega

/-- The members of an `ENUM` or `SET` come back just when no backslash is among their characters. -/
theorem exists_ofText_members_iff (ht : f.type = .enum ∨ f.type = .set) (hm : f.members ≠ [])
    (name : String) (nativeJson : Bool) :
    (∃ c : Column, c.OfText (Dialect.mysql.quoteName name ++ " " ++ mysqlType nativeJson f) ∧
        c.field.type = f.type ∧ c.field.members = f.members) ↔
      ∀ v ∈ f.members, '\\' ∉ v.toList := by
  have hl := ColumnType.isListed_iff.2 ht
  constructor
  · rintro ⟨c, hc, -, hmembers⟩ v hv
    have hsum := sum_members_ofText_le hl hm hc
    rw [hmembers] at hsum
    -- no member takes more room than before, so none takes less
    by_contra hslash
    refine absurd hsum (Nat.not_le.2 (List.sum_lt_sum _ _ ?_ ⟨v, hv, ?_⟩))
    · intro v _
      rw [length_quoteString, length_enclose]
      omega
    · have hcount := List.count_pos_iff.2 hslash
      rw [length_quoteString, length_enclose]
      omega
  · intro h
    have hplain := plain_listing hl h name
    refine ⟨(f.listing name).column, ofText_listing hl h name nativeJson, ?_, ?_⟩
    all_goals
      rw [field_column hplain]
      rfl

def memberField (type : ColumnType) (members : List String) : Field :=
  { name := "f", type := type, members := members }

theorem exists_ofText_members_iff_quotes :
    (∃ c : Column, c.OfText (Dialect.mysql.quoteName "a`b" ++ " " ++
          mysqlType true (memberField .set ["it's", "a,b", "(", ""])) ∧
        c.field.type = .set ∧ c.field.members = ["it's", "a,b", "(", ""]) ∧
      ¬∃ c : Column, c.OfText (Dialect.mysql.quoteName "c" ++ " " ++
          mysqlType true (memberField .enum ["a", "b\\"])) ∧
        c.field.type = .enum ∧ c.field.members = ["a", "b\\"] :=
  ⟨(@exists_ofText_members_iff (memberField .set _) (.inr rfl) (by decide) "a`b" true).2
      (by decide),
    fun h => absurd ((@exists_ofText_members_iff (memberField .enum _) (.inl rfl) (by decide)
      "c" true).1 h) (by decide)⟩

theorem not_exists_ofText_members :
    ¬∀ (f : Field) (name : String) (nativeJson : Bool), f.type = .enum ∨ f.type = .set →
      f.members ≠ [] → ∃ c : Column,
        c.OfText (Dialect.mysql.quoteName name ++ " " ++ mysqlType nativeJson f) ∧
          c.field.type = f.type ∧ c.field.members = f.members := by
  intro h
  obtain ⟨c, ⟨ts, last, htokens, hread⟩, -, hmembers⟩ :=
    h (memberField .enum ["a\\b"]) "c" true (.inl rfl) (by decide)
  have hfound : (Token.tokenize (Dialect.mysql.quoteName "c" ++ " " ++
      mysqlType true (memberField .enum ["a\\b"]))).map (fun ts =>
        (Column.read? ts.dropLast).map fun read => read.1.field.members) = .ok (some ["ab"]) := by
    decide +kernel
  rw [htokens, Except.map, List.dropLast_concat, hread, Option.map_some, hmembers] at hfound
  exact absurd hfound (by decide)

end SqlTables
