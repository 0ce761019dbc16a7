import SqlTables.Options
import SqlTables.Report
import SqlTables.Schema.FreshName
import SqlTables.Schema.Table
import SqlTables.Script.Statement

/-! Where the indexes of a table go. MySQL lists all of them inside the table. The others list
unique keys only, and every other index is a statement of its own named for the table and columns;
of two with the same name the first is kept. -/

namespace SqlTables.Creation

open Script (Constraint CreateIndex)

structure KeyPlan where
  constraints : List Constraint
  indexes : List CreateIndex
deriving Repr, DecidableEq

def uniqueColumns (t : Table) : List String :=
  (t.fields.filter fun f => f.unique && !f.inPrimaryKey).map (·.name)

def indexedColumns (t : Table) : List String := (t.fields.filter (·.indexed)).map (·.name)

/-- Whether the table lists a key of the kind on exactly the column. -/
def declaresKey (t : Table) (kind : IndexKind) (column : String) : Bool :=
  t.indexes.any fun i => i.kind == kind && i.fields == [column]

/-- A key of the kind on each column, its name made from the stem and clear of those taken. -/
def columnKeys (kind : IndexKind) (stem : String) (taken : List String) :
    List String → List Index
  | [] => []
  | column :: rest =>
    let name := freshName taken (stem ++ column)
    ⟨name, kind, [column]⟩ :: columnKeys kind stem (name :: taken) rest

def inlineKeys (t : Table) : List Index :=
  let names := t.indexes.map (·.name)
  let uniques := columnKeys .unique "uk_" names <|
    (uniqueColumns t).filter (!declaresKey t .unique ·)
  let plain := columnKeys .normal "idx_" (uniques.map (·.name) ++ names) <|
    (indexedColumns t).filter (!declaresKey t .normal ·)
  uniques ++ t.indexes ++ plain

def inlinePlan (t : Table) : KeyPlan :=
  ⟨(inlineKeys t).map fun i => .key i.kind i.name i.fields, []⟩

/-- Unique keys inside the table: those of columns have no name. -/
def uniqueConstraints (t : Table) : List Constraint :=
  (uniqueColumns t).map (fun column => .unique none [column]) ++
    (t.indexes.filter (·.kind == .unique)).map fun i => .unique (some i.name) i.fields

def standaloneIndex (o : Options) (t : Table) (columns : List String) (method : Option String) :
    CreateIndex :=
  ⟨t.name ++ "_" ++ "_".intercalate columns, t.name, columns, o.includeIfNotExists, method⟩

def indexMethod (d : Dialect) (kind : IndexKind) : Option String :=
  if d = .postgresql ∧ kind = .spatial then some "GIST" else none

/-- Keeps the first index of each name, those in `seen` aside. -/
def firstOfName (seen : List String) : List CreateIndex → List CreateIndex
  | [] => []
  | i :: rest =>
    if i.name ∈ seen then firstOfName seen rest else i :: firstOfName (i.name :: seen) rest

def standaloneIndexes (o : Options) (t : Table) : List CreateIndex :=
  firstOfName [] <|
    ((t.indexes.filter (·.kind != .unique)).map fun i =>
      standaloneIndex o t i.fields (indexMethod o.dialect i.kind)) ++
    (indexedColumns t).map fun column => standaloneIndex o t [column] none

def keyPlan (o : Options) (t : Table) : KeyPlan :=
  match o.dialect with
  | .mysql => inlinePlan t
  | _ => ⟨uniqueConstraints t, standaloneIndexes o t⟩

def downgrades (d : Dialect) (kind : IndexKind) : Bool :=
  match d, kind with
  | .mysql, _ => false
  | _, .fulltext => true
  | .sqlite, .spatial => true
  | _, _ => false

def keyEvents (o : Options) (t : Table) : List Event :=
  (t.indexes.filter (downgrades o.dialect ·.kind)).map fun i =>
    ⟨.warn, o.dialect.title ++ " has no " ++ i.kind.name ++ " index, emitting '" ++ i.name ++
      "' as a plain index"⟩

end SqlTables.Creation
