import SqlTables.Declaration.Reading
import SqlTables.Schema.Table
import SqlTables.Text.Basic

/-! Settings of a table, written after its column list. The first value given for a setting counts,
and words that set nothing are passed over. -/

namespace SqlTables.Declaration

inductive Setting where
  | engine (name : String)
  | charset (name : String)
  | collation (name : String)
  | autoIncrementStart (n : UInt64)
  | rowFormat (name : String)
  | tableSpace (name : String)
  | comment (text : String)
deriving Repr, DecidableEq

namespace Setting

def keywords : List (String × List String × (String → Option Setting)) := [
  ("ENGINE", [], fun v => some (.engine v)),
  ("CHARACTER", ["SET"], fun v => some (.charset v)),
  ("CHARSET", [], fun v => some (.charset v)),
  ("COLLATE", [], fun v => some (.collation v)),
  ("AUTO_INCREMENT", [], fun v => (Text.uint64? v.toList).map .autoIncrementStart),
  ("ROW_FORMAT", [], fun v => some (.rowFormat v)),
  ("TABLESPACE", [], fun v => some (.tableSpace v)),
  ("COMMENT", [], fun v => some (.comment v))]

def keyword? (ts : List Token) : Option ((String → Option Setting) × List Token) :=
  keywords.findSome? fun (w, ws, make) => (keywords? (w :: ws) ts).map (make, ·)

def skipEquals : List Token → List Token
  | [] => []
  | t :: rest => if t.kind = .equals then rest else t :: rest

/-- The value after an optional equals sign. A token that is no value stays. -/
def value (ts : List Token) : Option String × List Token :=
  match skipEquals ts with
  | [] => (none, [])
  | t :: rest =>
    match t.value? with
    | some v => (some v, rest)
    | none => (none, t :: rest)

theorem keyword?_consumes {ts rest : List Token} {make : String → Option Setting}
    (h : keyword? ts = some (make, rest)) : Consumes ts rest := by
  obtain ⟨⟨w, ws, make'⟩, -, h⟩ := List.exists_of_findSome?_eq_some h
  obtain ⟨r, hr, he⟩ := Option.map_eq_some_iff.1 h
  cases he
  exact keywords?_consumes hr

theorem skipEquals_skips (ts : List Token) : Skips ts (skipEquals ts) := by
  unfold skipEquals
  split
  · exact .refl _
  · split
    · rename_i ht
      exact (Consumes.head (by simp [ht]) (.refl _)).skips
    · exact .refl _

theorem value_skips (ts : List Token) : Skips ts (value ts).2 := by
  have h := skipEquals_skips ts
  unfold value
  split
  · rename_i he
    exact he ▸ h
  · rename_i t rest he
    rw [he] at h
    split
    · rename_i v hv
      refine h.trans (Consumes.head ?_ (.refl _)).skips
      intro hk
      simp [Token.value?, hk] at hv
    · exact h

def readAll (ts : List Token) : List Setting :=
  match ts with
  | [] => []
  | t :: rest =>
    if t.kind = .semicolon ∨ t.kind = .eof then []
    else
      match _h : keyword? (t :: rest) with
      | some (make, after) =>
        let found := value after
        (found.1.bind make).toList ++ readAll found.2
      | none => readAll rest
termination_by ts.length
decreasing_by
  · have h1 := (keyword?_consumes _h).length_lt
    have h2 := (value_skips after).length_le
    omega
  · simp

def engine? : Setting → Option String
  | .engine name => some name
  | _ => none

def charset? : Setting → Option String
  | .charset name => some name
  | _ => none

def collation? : Setting → Option String
  | .collation name => some name
  | _ => none

def autoIncrementStart? : Setting → Option UInt64
  | .autoIncrementStart n => some n
  | _ => none

def rowFormat? : Setting → Option String
  | .rowFormat name => some name
  | _ => none

def tableSpace? : Setting → Option String
  | .tableSpace name => some name
  | _ => none

def comment? : Setting → Option String
  | .comment text => some text
  | _ => none

/-- The table with the first value of each setting. -/
def applyAll (t : Table) (settings : List Setting) : Table :=
  { t with
    engine := settings.findSome? engine?
    charset := settings.findSome? charset?
    collation := settings.findSome? collation?
    autoIncrementStart := settings.findSome? autoIncrementStart?
    rowFormat := settings.findSome? rowFormat?
    tableSpace := settings.findSome? tableSpace?
    comment := settings.findSome? comment? }

end Setting

end SqlTables.Declaration
