import SqlTables.Declaration.DefaultValue
import SqlTables.Declaration.Reference
import SqlTables.Report
import SqlTables.Schema.Field

/-! Attributes of a column, the part of its definition after the type. They may come in any order;
words and groups that mean nothing here are skipped and reported. -/

namespace SqlTables.Declaration

inductive Attribute where
  | nullable (allowed : Bool)
  | default (value : String)
  | autoIncrement
  | unsigned (without : Bool)
  | zerofill
  | comment (text : String)
  | primaryKey
  | unique
  | onUpdate (text : String)
  | references (target : Reference)
  | check (expression : String)
  /-- Understood and without effect: character sets, collations, constraint names, computed
  columns. -/
  | neutral
  | skippedGroup
  | skippedWord (lexeme : String)
deriving Repr, DecidableEq

namespace Attribute

def apply (f : Field) : Attribute → Field
  | .nullable allowed => { f with nullable := allowed }
  | .default value => { f with default := some value }
  | .autoIncrement => { f with autoIncrement := true }
  | .unsigned without => { f with unsigned := without }
  | .zerofill => { f with zerofill := true }
  | .comment text => { f with comment := some text }
  | .primaryKey => { f with inPrimaryKey := true }
  | .unique => { f with unique := true }
  | .onUpdate text => { f with onUpdate := some text }
  | .references _ | .check _ | .neutral | .skippedGroup | .skippedWord _ => f

def reference? : Attribute → Option Reference
  | .references target => some target
  | _ => none

def check? : Attribute → Option String
  | .check expression => some expression
  | _ => none

def event? (column : String) : Attribute → Option Event
  | .skippedGroup =>
    some ⟨.debug, "Skipping parenthesised attribute of column '" ++ column ++ "'"⟩
  | .skippedWord lexeme =>
    some ⟨.debug, "Skipping unknown attribute '" ++ lexeme ++ "' of column '" ++ column ++ "'"⟩
  | _ => none

def flags : List (String × List String × Attribute) := [
  ("NOT", ["NULL"], .nullable false),
  ("NULL", [], .nullable true),
  ("AUTO_INCREMENT", [], .autoIncrement),
  ("AUTOINCREMENT", [], .autoIncrement),
  ("UNSIGNED", [], .unsigned true),
  ("SIGNED", [], .unsigned false),
  ("ZEROFILL", [], .zerofill),
  ("PRIMARY", ["KEY"], .primaryKey),
  ("UNIQUE", ["KEY"], .unique),
  ("UNIQUE", ["INDEX"], .unique),
  ("UNIQUE", [], .unique)]

def flag? (ts : List Token) : Option (Attribute × List Token) :=
  flags.findSome? fun (w, ws, a) => (keywords? (w :: ws) ts).map (a, ·)

def skipGeneration (ts : List Token) : List Token :=
  skipOneOf [["AS"]] (skipOneOf [["ALWAYS"], ["BY", "DEFAULT"]] ts)

/-- The part of a generated column after `GENERATED`. The expression of a computed column is left
for the next attribute. -/
def generated (ts : List Token) : Attribute × List Token :=
  match keyword? "IDENTITY" (skipGeneration ts) with
  | some rest => (.autoIncrement, skipGroup rest)
  | none => (.neutral, skipGeneration ts)

def charsetKeywords : List (String × List String) := [
  ("CHARACTER", ["SET"]), ("CHARSET", []), ("COLLATE", [])]

def charset? (ts : List Token) : Option (List Token) :=
  charsetKeywords.findSome? fun (w, ws) => keywords? (w :: ws) ts

def skipped? (ts : List Token) : Option (Attribute × List Token) :=
  match group? ts with
  | some (_, rest) => some (.skippedGroup, rest)
  | none => (take? ts).map fun (t, rest) => (.skippedWord t.lexeme, rest)

/-- The next attribute. A keyword that asks for a value fails without it. -/
def read? (ts : List Token) : Option (Attribute × List Token) :=
  if let some found := flag? ts then some found
  else if let some rest := keyword? "DEFAULT" ts then
    (defaultValue? rest).map fun (value, rest) => (.default value, rest)
  else if let some rest := keyword? "COMMENT" ts then
    (string? rest).map fun (text, rest) => (.comment text, rest)
  else if let some rest := charset? ts then
    (take? rest).map fun (_, rest) => (.neutral, rest)
  else if let some rest := keywords? ["ON", "UPDATE"] ts then
    (call? rest).map fun (text, rest) => (.onUpdate text, rest)
  else if let some rest := keyword? "GENERATED" ts then some (generated rest)
  else if peekKeyword "REFERENCES" ts then
    (Declaration.reference? ts).map fun (target, rest) => (.references target, rest)
  else if let some rest := keyword? "CHECK" ts then
    (group? rest).map fun (g, rest) => (.check (Token.sourceText g.inside), rest)
  else if let some rest := keyword? "CONSTRAINT" ts then
    (name? rest).map fun (_, rest) => (.neutral, rest)
  else skipped? ts

theorem flag?_consumes {ts rest : List Token} {a : Attribute} (h : flag? ts = some (a, rest)) :
    Consumes ts rest := by
  obtain ⟨⟨w, ws, a'⟩, -, h⟩ := List.exists_of_findSome?_eq_some h
  obtain ⟨r, hr, he⟩ := Option.map_eq_some_iff.1 h
  cases he
  exact keywords?_consumes hr

theorem charset?_consumes {ts rest : List Token} (h : charset? ts = some rest) :
    Consumes ts rest := by
  obtain ⟨⟨w, ws⟩, -, h⟩ := List.exists_of_findSome?_eq_some h
  exact keywords?_consumes h

theorem generated_skips (ts : List Token) : Skips ts (generated ts).2 := by
  have h : Skips ts (skipGeneration ts) := (skipOneOf_skips _ ts).trans (skipOneOf_skips _ _)
  unfold generated
  split
  · exact h.trans ((keyword?_consumes ‹_›).skips.trans (skipGroup_skips _))
  · exact h

theorem skipped?_consumes {ts rest : List Token} {a : Attribute}
    (h : skipped? ts = some (a, rest)) : Consumes ts rest := by
  unfold skipped? at h
  split at h
  · rename_i hg
    cases h
    exact group?_consumes hg
  · obtain ⟨⟨t, r⟩, ht, he⟩ := Option.map_eq_some_iff.1 h
    cases he
    exact take?_consumes ht

theorem read?_consumes {ts rest : List Token} {a : Attribute} (h : read? ts = some (a, rest)) :
    Consumes ts rest := by
  unfold read? at h
  split at h
  · rename_i hf
    cases h
    exact flag?_consumes hf
  split at h
  · rename_i hk
    obtain ⟨⟨v, r⟩, hv, he⟩ := Option.map_eq_some_iff.1 h
    cases he
    exact (keyword?_consumes hk).trans (defaultValue?_consumes hv)
  split at h
  · rename_i hk
    obtain ⟨⟨v, r⟩, hv, he⟩ := Option.map_eq_some_iff.1 h
    cases he
    exact (keyword?_consumes hk).trans (string?_consumes hv)
  split at h
  · rename_i hk
    obtain ⟨⟨v, r⟩, hv, he⟩ := Option.map_eq_some_iff.1 h
    cases he
    exact (charset?_consumes hk).trans (take?_consumes hv)
  split at h
  · rename_i hk
    obtain ⟨⟨v, r⟩, hv, he⟩ := Option.map_eq_some_iff.1 h
    cases he
    exact (keywords?_consumes hk).trans (call?_consumes hv)
  split at h
  · rename_i r hk
    have hr := generated_skips r
    rw [Option.some.inj h] at hr
    exact (keyword?_consumes hk).trans_skips hr
  split at h
  · obtain ⟨⟨v, r⟩, hv, he⟩ := Option.map_eq_some_iff.1 h
    cases he
    exact reference?_consumes hv
  split at h
  · rename_i hk
    obtain ⟨⟨v, r⟩, hv, he⟩ := Option.map_eq_some_iff.1 h
    cases he
    exact (keyword?_consumes hk).trans (group?_consumes hv)
  split at h
  · rename_i hk
    obtain ⟨⟨v, r⟩, hv, he⟩ := Option.map_eq_some_iff.1 h
    cases he
    exact (keyword?_consumes hk).trans (name?_consumes hv)
  exact skipped?_consumes h

/-- The attributes up to the end, or up to the first that cannot be read, and whether all could. -/
def readAll (ts : List Token) : List Attribute × Bool :=
  if isDone ts then ([], true)
  else
    match _h : read? ts with
    | none => ([], false)
    | some (a, rest) =>
      let (others, complete) := readAll rest
      (a :: others, complete)
termination_by ts.length
decreasing_by exact (read?_consumes _h).length_lt

end Attribute

end SqlTables.Declaration
