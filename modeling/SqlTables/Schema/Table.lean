import SqlTables.Schema.Field
import SqlTables.Schema.Key

/-! Table definitions and their structural rules: column names and index names are distinct, and
indexes and foreign keys list columns of the table. -/

namespace SqlTables

structure Table where
  name : String
  comment : Option String := none
  engine : Option String := none
  charset : Option String := none
  collation : Option String := none
  autoIncrementStart : Option UInt64 := none
  rowFormat : Option String := none
  tableSpace : Option String := none
  fields : List Field := []
  indexes : List Index := []
  foreignKeys : List ForeignKey := []
  checks : List Check := []
deriving Repr, DecidableEq, Inhabited

inductive SchemaError where
  | duplicateField (name : String)
  | duplicateIndexName (name : String)
  | unknownIndexColumn (index column : String)
  | unknownForeignKeyColumn (constraint column : String)
deriving Repr, DecidableEq

def SchemaError.message : SchemaError → String
  | .duplicateField name => "Duplicate column '" ++ name ++ "'"
  | .duplicateIndexName name => "Duplicate index name '" ++ name ++ "'"
  | .unknownIndexColumn index column =>
    "Index '" ++ index ++ "' references unknown column '" ++ column ++ "'"
  | .unknownForeignKeyColumn constraint column =>
    "Foreign key '" ++ constraint ++ "' references unknown column '" ++ column ++ "'"

/-- The first name that repeats one of `seen` or an earlier one. -/
def firstRepeat? (seen : List String) : List String → Option String
  | [] => none
  | name :: rest => if name ∈ seen then some name else firstRepeat? (name :: seen) rest

namespace Table

def withField (t : Table) (f : Field) : Table := { t with fields := t.fields ++ [f] }

def withIndex (t : Table) (i : Index) : Table := { t with indexes := t.indexes ++ [i] }

def withComment (t : Table) (text : String) : Table := { t with comment := some text }

def fieldNames (t : Table) : List String := t.fields.map (·.name)

def field? (t : Table) (name : String) : Option Field := t.fields.find? (·.name = name)

def hasField (t : Table) (name : String) : Bool := t.fields.any (·.name = name)

def modifyField (t : Table) (name : String) (change : Field → Field) : Table :=
  { t with fields := go t.fields }
where
  go : List Field → List Field
    | [] => []
    | f :: rest => if f.name = name then change f :: rest else f :: go rest

def primaryKeyFields (t : Table) : List Field := t.fields.filter (·.inPrimaryKey)

def solePrimaryKey? (t : Table) : Option Field :=
  match t.primaryKeyFields with
  | [f] => some f
  | _ => none

def fieldFault? (t : Table) : Option SchemaError :=
  (firstRepeat? [] t.fieldNames).map .duplicateField

/-- Looks at the indexes in order: first at the name of each, then at its columns. -/
def indexFault? (t : Table) (seen : List String) : List Index → Option SchemaError
  | [] => none
  | i :: rest =>
    if i.name ∈ seen then some (.duplicateIndexName i.name)
    else
      match i.fields.find? (!t.hasField ·) with
      | some column => some (.unknownIndexColumn i.name column)
      | none => t.indexFault? (i.name :: seen) rest

def foreignKeyFault? (t : Table) : Option SchemaError :=
  t.foreignKeys.findSome? fun k =>
    (k.fields.find? (!t.hasField ·)).map (.unknownForeignKeyColumn k.name)

/-- The first broken rule: of the columns, then the indexes, then the foreign keys. -/
def fault? (t : Table) : Option SchemaError :=
  t.fieldFault?.or ((t.indexFault? [] t.indexes).or t.foreignKeyFault?)

def validate (t : Table) : Except SchemaError Unit :=
  match t.fault? with
  | some e => .error e
  | none => .ok ()

end Table

end SqlTables
