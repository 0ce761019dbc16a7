import SqlTables.Json.Decode
import SqlTables.Schema.Table

/-! Tables as JSON. Absent values are left out, as are empty members, foreign keys and checks;
fields, indexes and flags are always written. -/

namespace SqlTables

open Json (Members record? optionalMember listMember strings list? string? bool?)

def Field.toJson (f : Field) : Json := .obj <|
  [("name", .str f.name), ("type", .str f.type.name)]
    ++ optionalMember "length" (fun n => .int n.toNat) f.length
    ++ optionalMember "precision" (fun n => .int n.toNat) f.precision
    ++ optionalMember "scale" (fun n => .int n.toNat) f.scale
    ++ [("nullable", .bool f.nullable)]
    ++ optionalMember "defaultValue" .str f.default
    ++ optionalMember "comment" .str f.comment
    ++ [("isPrimaryKey", .bool f.inPrimaryKey), ("isAutoIncrement", .bool f.autoIncrement),
      ("unique", .bool f.unique), ("index", .bool f.indexed), ("unsigned", .bool f.unsigned),
      ("zerofill", .bool f.zerofill)]
    ++ listMember "enumValues" .str f.members
    ++ optionalMember "onUpdate" .str f.onUpdate

def Field.keys : List String := [
  "name", "type", "length", "precision", "scale", "nullable", "defaultValue", "comment",
  "isPrimaryKey", "isAutoIncrement", "unique", "index", "unsigned", "zerofill", "enumValues",
  "onUpdate"]

def Field.ofJson? (v : Json) : Option Field := do
  let ms ← record? Field.keys v
  return {
    name := ← ms.required "name" string?
    type := ColumnType.ofName (← ms.required "type" string?)
    length := ← ms.optional "length" Json.uint32?
    precision := ← ms.optional "precision" Json.uint32?
    scale := ← ms.optional "scale" Json.uint32?
    nullable := ← ms.withDefault "nullable" true bool?
    default := ← ms.optional "defaultValue" string?
    comment := ← ms.optional "comment" string?
    inPrimaryKey := ← ms.withDefault "isPrimaryKey" false bool?
    autoIncrement := ← ms.withDefault "isAutoIncrement" false bool?
    unique := ← ms.withDefault "unique" false bool?
    indexed := ← ms.withDefault "index" false bool?
    unsigned := ← ms.withDefault "unsigned" false bool?
    zerofill := ← ms.withDefault "zerofill" false bool?
    members := ← ms.withDefault "enumValues" [] (list? string?)
    onUpdate := ← ms.optional "onUpdate" string? }

def Index.toJson (i : Index) : Json := .obj [
  ("name", .str i.name), ("fields", strings i.fields), ("kind", .str i.kind.name)]

def Index.ofJson? (v : Json) : Option Index := do
  let ms ← record? ["name", "fields", "kind"] v
  return {
    name := ← ms.required "name" string?
    fields := ← ms.required "fields" (list? string?)
    kind := ← ms.required "kind" fun v => (Json.constant? v).bind IndexKind.ofName? }

def ForeignKey.toJson (k : ForeignKey) : Json := .obj <|
  [("name", .str k.name), ("fields", strings k.fields),
    ("referencedTable", .str k.referencedTable),
    ("referencedFields", strings k.referencedFields)]
    ++ optionalMember "onDelete" .str k.onDelete
    ++ optionalMember "onUpdate" .str k.onUpdate

def ForeignKey.keys : List String := [
  "name", "fields", "referencedTable", "referencedFields", "onDelete", "onUpdate"]

def ForeignKey.ofJson? (v : Json) : Option ForeignKey := do
  let ms ← record? ForeignKey.keys v
  return {
    name := ← ms.required "name" string?
    fields := ← ms.required "fields" (list? string?)
    referencedTable := ← ms.required "referencedTable" string?
    referencedFields := ← ms.required "referencedFields" (list? string?)
    onDelete := ← ms.optional "onDelete" string?
    onUpdate := ← ms.optional "onUpdate" string? }

def Check.toJson (c : Check) : Json :=
  .obj (optionalMember "name" .str c.name ++ [("expression", .str c.expression)])

def Check.ofJson? (v : Json) : Option Check := do
  let ms ← record? ["name", "expression"] v
  return {
    name := ← ms.optional "name" string?
    expression := ← ms.required "expression" string? }

def Table.toJson (t : Table) : Json := .obj <|
  [("name", .str t.name)]
    ++ optionalMember "comment" .str t.comment
    ++ optionalMember "engine" .str t.engine
    ++ optionalMember "charset" .str t.charset
    ++ optionalMember "collation" .str t.collation
    ++ optionalMember "autoIncrementStart" (fun n => .int n.toNat) t.autoIncrementStart
    ++ optionalMember "rowFormat" .str t.rowFormat
    ++ optionalMember "tableSpace" .str t.tableSpace
    ++ [("fields", .arr (t.fields.map Field.toJson)),
      ("indexes", .arr (t.indexes.map Index.toJson))]
    ++ listMember "foreignKeys" ForeignKey.toJson t.foreignKeys
    ++ listMember "checks" Check.toJson t.checks

def Table.keys : List String := [
  "name", "comment", "engine", "charset", "collation", "autoIncrementStart", "rowFormat",
  "tableSpace", "fields", "indexes", "foreignKeys", "checks"]

def Table.ofJson? (v : Json) : Option Table := do
  let ms ← record? Table.keys v
  return {
    name := ← ms.required "name" string?
    comment := ← ms.optional "comment" string?
    engine := ← ms.optional "engine" string?
    charset := ← ms.optional "charset" string?
    collation := ← ms.optional "collation" string?
    autoIncrementStart := ← ms.optional "autoIncrementStart" Json.uint64?
    rowFormat := ← ms.optional "rowFormat" string?
    tableSpace := ← ms.optional "tableSpace" string?
    fields := ← ms.withDefault "fields" [] (list? Field.ofJson?)
    indexes := ← ms.withDefault "indexes" [] (list? Index.ofJson?)
    foreignKeys := ← ms.withDefault "foreignKeys" [] (list? ForeignKey.ofJson?)
    checks := ← ms.withDefault "checks" [] (list? Check.ofJson?) }

end SqlTables
