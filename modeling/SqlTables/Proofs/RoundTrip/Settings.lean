import SqlTables.Declaration.Setting
import SqlTables.Proofs.RoundTrip.Clauses

/-! Settings of a table as they are written in MySQL after the column list, and as they are read
back. -/

namespace SqlTables

open Declaration Lexeme
open Text (Position)

variable {ws : List Lexeme} {ts : List Token} {t : Table} {s : Setting}

structure Sets (ws : List Lexeme) (s : Setting) : Prop where
  sealed : Sealed ws
  read : ∀ p ts, Setting.readAll (tokensAt p ws ++ ts) = s :: Setting.readAll ts

theorem readAll_of_keyword? {u : Token} {make : String → Option Setting} {after : List Token}
    (hu : ¬(u.kind = .semicolon ∨ u.kind = .eof))
    (h : Setting.keyword? (u :: ts) = some (make, after)) : Setting.readAll (u :: ts) =
      ((Setting.value after).1.bind make).toList ++ Setting.readAll (Setting.value after).2 := by
  rw [Setting.readAll, if_neg hu]
  split
  · rename_i make' after' hsome
    rw [h, Option.some.injEq, Prod.mk.injEq] at hsome
    obtain ⟨rfl, rfl⟩ := hsome
    rfl
  · rename_i hnone
    rw [h] at hnone
    simp at hnone

theorem readAll_of_other {u : Token} (hu : ¬(u.kind = .semicolon ∨ u.kind = .eof))
    (h : Setting.keyword? (u :: ts) = none) : Setting.readAll (u :: ts) = Setting.readAll ts := by
  rw [Setting.readAll, if_neg hu]
  split
  · rename_i hsome
    rw [h] at hsome
    simp at hsome
  · rfl

def bareValue (v : String) : Lexeme := if isBareWord v then word [' '] v else number [' '] v

structure Gives (w : Lexeme) (v : String) : Prop where
  sealed : Sealed [w]
  value : ∀ p ts, Setting.value (w.token p :: ts) = (some v, ts)
  equals : ∀ p q ts, Setting.value ((mark [' '] '=').token p :: w.token q :: ts) = (some v, ts)

theorem gives_number {v : String} (h : isNumeral v = true) : Gives (number [' '] v) v :=
  ⟨(tight_number h gap_space).sealed (by simp [number]), fun _ _ => rfl, fun _ _ _ => rfl⟩

theorem gives_string (v : String) : Gives (string [' '] v) v :=
  ⟨(tight_string v gap_space).sealed (by simp [string]), fun _ _ => rfl, fun _ _ _ => rfl⟩

theorem gives_bareValue {v : String} (h : isBareWord v = true ∨ isNumeral v = true) :
    Gives (bareValue v) v := by
  unfold bareValue
  split_ifs with hb
  · exact ⟨sealed_word hb gap_space (by simp), fun _ _ => rfl, fun _ _ _ => rfl⟩
  · exact gives_number (h.resolve_left hb)

theorem sealed_equals : Sealed [mark [' '] '='] := by
  have hequals : Tight [mark [' '] '='] := fun after _ => written_mark (by decide) gap_space after
  exact hequals.sealed (by simp [mark])

theorem word_not_end (k : String) (p : Position) :
    ¬(((word [' '] k).token p).kind = .semicolon ∨ ((word [' '] k).token p).kind = .eof) := by
  rintro (h | h) <;> simp [word, token] at h

theorem sets_equals {k v : String} {w : Lexeme} {make : String → Option Setting}
    (hk : isBareWord k = true)
    (hkey : ∀ p ts, Setting.keyword? ((word [' '] k).token p :: ts) = some (make, ts))
    (hw : Gives w v) (hmake : make v = some s) :
    Sets [word [' '] k, mark [' '] '=', w] s := by
  refine ⟨(sealed_word hk gap_space (by simp)).append (sealed_equals.append hw.sealed), ?_⟩
  intro p ts
  rw [tokensAt_cons, List.cons_append, readAll_of_keyword? (word_not_end k p) (hkey _ _),
    tokensAt_cons, tokensAt_cons, List.cons_append, List.cons_append, hw.equals]
  simp [hmake]

theorem sets_value {k v : String} {w : Lexeme} {make : String → Option Setting}
    (hk : isBareWord k = true)
    (hkey : ∀ p ts, Setting.keyword? ((word [' '] k).token p :: ts) = some (make, ts))
    (hw : Gives w v) (hmake : make v = some s) : Sets [word [' '] k, w] s := by
  refine ⟨(sealed_word hk gap_space (by simp)).append hw.sealed, fun p ts => ?_⟩
  rw [tokensAt_cons, List.cons_append, readAll_of_keyword? (word_not_end k p) (hkey _ _),
    tokensAt_cons, List.cons_append, hw.value]
  simp [hmake]

theorem Sets.default (h : Sets ws s) : Sets (word [' '] "DEFAULT" :: ws) s := by
  refine ⟨(sealed_word (by decide) gap_space (by simp)).append h.sealed, fun p ts => ?_⟩
  rw [tokensAt_cons, List.cons_append, readAll_of_other (word_not_end _ p) rfl, h.read]

def settingLexemes : Script.TableOption → List Lexeme
  | .engine v => [word [' '] "ENGINE", mark [' '] '=', bareValue v]
  | .autoIncrement n =>
    [word [' '] "AUTO_INCREMENT", mark [' '] '=', number [' '] (toString n.toNat)]
  | .charset v => [word [' '] "DEFAULT", word [' '] "CHARSET", mark [' '] '=', bareValue v]
  | .collate v => [word [' '] "COLLATE", mark [' '] '=', bareValue v]
  | .rowFormat v => [word [' '] "ROW_FORMAT", mark [' '] '=', bareValue v]
  | .tableSpace v => [word [' '] "TABLESPACE", bareValue v]
  | .comment v => [word [' '] "COMMENT", mark [' '] '=', string [' '] v]

def settingOf : Script.TableOption → Setting
  | .engine v => .engine v
  | .autoIncrement n => .autoIncrementStart n
  | .charset v => .charset v
  | .collate v => .collation v
  | .rowFormat v => .rowFormat v
  | .tableSpace v => .tableSpace v
  | .comment v => .comment v

def bareOption? : Script.TableOption → Option String
  | .engine v | .charset v | .collate v | .rowFormat v | .tableSpace v => some v
  | .autoIncrement _ | .comment _ => none

theorem sets_settingLexemes {o : Script.TableOption}
    (h : ∀ v ∈ bareOption? o, isBareWord v = true ∨ isNumeral v = true) :
    Sets (settingLexemes o) (settingOf o) := by
  have hbare (v : String) (hv : bareOption? o = some v) : Gives (bareValue v) v :=
    gives_bareValue (h v hv)
  cases o with
  | engine v => exact sets_equals (by decide) (fun _ _ => rfl) (hbare v rfl) rfl
  | autoIncrement n =>
    refine sets_equals (by decide) (fun _ _ => rfl) (gives_number (isNumeral_toString n.toNat)) ?_
    rw [uint64?_toString]
    rfl
  | charset v => exact (sets_equals (by decide) (fun _ _ => rfl) (hbare v rfl) rfl).default
  | collate v => exact sets_equals (by decide) (fun _ _ => rfl) (hbare v rfl) rfl
  | rowFormat v => exact sets_equals (by decide) (fun _ _ => rfl) (hbare v rfl) rfl
  | tableSpace v => exact sets_value (by decide) (fun _ _ => rfl) (hbare v rfl) rfl
  | comment v => exact sets_equals (by decide) (fun _ _ => rfl) (gives_string v) rfl

theorem readAll_settingLexemes {os : List Script.TableOption}
    (h : ∀ o ∈ os, Sets (settingLexemes o) (settingOf o)) (p : Position) (ts : List Token) :
    Setting.readAll (tokensAt p (os.flatMap settingLexemes) ++ ts) =
      os.map settingOf ++ Setting.readAll ts := by
  induction os generalizing p with
  | nil => rfl
  | cons o os ih =>
    rw [List.forall_mem_cons] at h
    rw [List.flatMap_cons, tokensAt_append, List.append_assoc, h.1.read, ih h.2]
    rfl

theorem chars_bareValue (v : String) : (bareValue v).chars = ' ' :: v.toList := by
  unfold bareValue
  split_ifs <;> rfl

theorem textOf_equals (k : String) {w : Lexeme} {text : List Char} (hw : w.chars = ' ' :: text) :
    textOf [word [' '] k, mark [' '] '=', w] = ' ' :: (k.toList ++ ' ' :: '=' :: ' ' :: text) := by
  rw [chars] at hw
  simp [word, mark, hw]

theorem textOf_settingLexemes (o : Script.TableOption) :
    textOf (settingLexemes o) = ' ' :: (o.render .mysql).toList := by
  cases o with
  | engine v =>
    change _ = ' ' :: ("ENGINE = " ++ v).toList
    rw [settingLexemes, textOf_equals "ENGINE" (chars_bareValue v)]
    simp
  | autoIncrement n =>
    change _ = ' ' :: ("AUTO_INCREMENT = " ++ toString n.toNat).toList
    rw [settingLexemes, textOf_equals "AUTO_INCREMENT" (chars_number [' '] (toString n.toNat))]
    simp
  | charset v =>
    change _ = ' ' :: ("DEFAULT CHARSET = " ++ v).toList
    rw [settingLexemes, textOf_cons, textOf_equals "CHARSET" (chars_bareValue v)]
    simp [word]
  | collate v =>
    change _ = ' ' :: ("COLLATE = " ++ v).toList
    rw [settingLexemes, textOf_equals "COLLATE" (chars_bareValue v)]
    simp
  | rowFormat v =>
    change _ = ' ' :: ("ROW_FORMAT = " ++ v).toList
    rw [settingLexemes, textOf_equals "ROW_FORMAT" (chars_bareValue v)]
    simp
  | tableSpace v =>
    have hv := chars_bareValue v
    rw [chars] at hv
    change _ = ' ' :: ("TABLESPACE " ++ v).toList
    simp [settingLexemes, word, hv]
  | comment v =>
    change _ = ' ' :: ("COMMENT = " ++ Dialect.mysql.quoteString v).toList
    rw [settingLexemes, textOf_equals "COMMENT" (chars_string [' '] v)]
    simp

theorem textOf_flatMap_settingLexemes (os : List Script.TableOption) :
    textOf (os.flatMap settingLexemes) =
      (String.join (os.map fun o => " " ++ o.render .mysql)).toList := by
  induction os with
  | nil => rfl
  | cons o os ih =>
    rw [List.flatMap_cons, textOf_append, textOf_settingLexemes, ih]
    simp

def settingOptions (t : Table) : List Script.TableOption :=
  t.engine.toList.map .engine ++ t.autoIncrementStart.toList.map .autoIncrement
    ++ t.charset.toList.map .charset ++ t.collation.toList.map .collate
    ++ t.rowFormat.toList.map .rowFormat ++ t.tableSpace.toList.map .tableSpace
    ++ t.comment.toList.map .comment

theorem tableOptions_eq {o : Options} (ho : o.dialect = .mysql) (t : Table) :
    Creation.tableOptions o t = settingOptions (t.written o) := by
  unfold Creation.tableOptions settingOptions Table.written
  cases o.includeAutoIncrement <;> cases o.includeCharset <;> cases o.includeComments <;>
    simp [ho, Table.effectiveEngine]

theorem findSome?_toList_map {α β γ : Type} (v : Option α) (make : α → β) (f : β → Option γ) :
    (v.toList.map make).findSome? f = v.bind fun a => f (make a) := by
  cases v <;> simp

theorem applyAll_settingOptions (t draft : Table) :
    Setting.applyAll draft ((settingOptions t).map settingOf) =
      { draft with
        engine := t.engine
        charset := t.charset
        collation := t.collation
        autoIncrementStart := t.autoIncrementStart
        rowFormat := t.rowFormat
        tableSpace := t.tableSpace
        comment := t.comment } := by
  simp only [Setting.applyAll, settingOptions, List.map_append, List.map_map, List.findSome?_append,
    Function.comp_def, findSome?_toList_map, settingOf, Setting.engine?, Setting.charset?,
    Setting.collation?, Setting.autoIncrementStart?, Setting.rowFormat?, Setting.tableSpace?,
    Setting.comment?, Option.bind_fun_some, Option.bind_fun_none, Option.or_none, Option.none_or]

theorem mem_bareSettings {o : Options} {x : Script.TableOption}
    (hx : x ∈ Creation.tableOptions o t) {v : String} (hv : v ∈ bareOption? x) :
    v ∈ t.bareSettings o := by
  simp only [Creation.tableOptions, List.mem_ite_nil_left, List.mem_ite_nil_right, List.mem_append,
    List.mem_cons, List.not_mem_nil, or_false, List.mem_map, Option.mem_toList] at hx
  simp only [Table.bareSettings, List.mem_append, List.mem_ite_nil_right, List.mem_cons,
    List.not_mem_nil, or_false, Option.mem_toList]
  rcases hx with ⟨_, ((((rfl | ⟨_, n, _, rfl⟩) | ⟨hc, rfl | rfl⟩) | ⟨a, ha, rfl⟩) | ⟨a, ha, rfl⟩) |
    ⟨_, a, _, rfl⟩⟩
  · obtain rfl : t.effectiveEngine o = v := Option.some.inj hv
    simp
  · simp [bareOption?] at hv
  · obtain rfl : t.charset.getD o.charset = v := Option.some.inj hv
    simp [hc]
  · obtain rfl : t.collation.getD o.collation = v := Option.some.inj hv
    simp [hc]
  · obtain rfl : a = v := Option.some.inj hv
    simp [ha]
  · obtain rfl : a = v := Option.some.inj hv
    simp [ha]
  · simp [bareOption?] at hv

end SqlTables
