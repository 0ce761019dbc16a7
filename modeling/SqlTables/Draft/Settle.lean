import SqlTables.Draft.Read
import SqlTables.Schema.FreshName

/-! Settling a draft into a table. Columns of the primary key are flagged, indexes declared twice
are kept once, and a unique key on a single column becomes the column's flag, unless the column is
in the primary key: there the flag gives way to an index. -/

namespace SqlTables.Draft

def flagPrimaryKey (t : Table) : List String → Except SchemaError Table
  | [] => .ok t
  | column :: rest =>
    if t.hasField column then flagPrimaryKey (t.modifyField column Field.asPrimaryKey) rest
    else .error (.unknownIndexColumn "PRIMARY" column)

/-- Keeps one of equal indexes. Two indexes that differ may not share a name. -/
def distinctIndexes (kept : List Index) : List Index → Except SchemaError (List Index)
  | [] => .ok kept
  | i :: rest =>
    match kept.find? (·.name = i.name) with
    | none => distinctIndexes (kept ++ [i]) rest
    | some seen =>
      if seen = i then distinctIndexes kept rest else .error (.duplicateIndexName i.name)

/-- Adds an index, or flags the column of a unique key outside the primary key. -/
def placeIndex (t : Table) (i : Index) : Except SchemaError Table :=
  match i.kind, i.fields with
  | .unique, [column] =>
    match t.field? column with
    | none => .error (.unknownIndexColumn i.name column)
    | some f =>
      .ok (if f.inPrimaryKey then t.withIndex i else t.modifyField column Field.asUnique)
  | _, _ => .ok (t.withIndex i)

def placeIndexes (t : Table) : List Index → Except SchemaError Table
  | [] => .ok t
  | i :: rest =>
    match placeIndex t i with
    | .error e => .error e
    | .ok t => placeIndexes t rest

def promote (t : Table) (column : String) : Table :=
  if t.indexes.any (·.isUniqueOn column) then t
  else
    t.withIndex ⟨freshName (t.indexes.map (·.name)) ("uk_" ++ column), .unique, [column]⟩

def clearKeyFlags (t : Table) : Table :=
  { t with
    fields := t.fields.map fun f => if f.inPrimaryKey then { f with unique := false } else f }

/-- Turns the unique flags of primary key columns into keys. -/
def promoteKeyFlags (t : Table) : Table :=
  let flagged := t.fields.filter fun f => f.inPrimaryKey && f.unique
  (flagged.map (·.name)).foldl promote (clearKeyFlags t)

def settle (d : Draft) : Except SchemaError Table := do
  let t ← flagPrimaryKey d.table d.primaryKey
  let indexes ← distinctIndexes [] t.indexes
  let t ← placeIndexes { t with indexes := [] } indexes
  let t := promoteKeyFlags t
  t.validate
  return t

end SqlTables.Draft
