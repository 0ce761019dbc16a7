import SqlTables.CommandLine.Arguments
import SqlTables.Creation.Script
import SqlTables.Json.Writer
import SqlTables.Migration
import SqlTables.Parse
import SqlTables.Schema.Codec

/-! What the commands do, as functions of the files they read. Options are loaded before tables. -/

namespace SqlTables.CommandLine

inductive Failure where
  | file (path : String)
  | parse (e : ParseError)
  | options
  | dialect (name : String)
  | model (path : String)
  | schema (e : SchemaError)
deriving Repr, DecidableEq

def Failure.message : Failure → String
  | .file path => "Failed to read or write a file: " ++ path
  | .parse e => "Failed to parse the DDL: " ++ e.message
  | .options => "Failed to load the generation options"
  | .dialect name => "Failed to load the generation options: " ++ Dialect.unknownMessage name
  | .model path => "Failed to deserialize the table model JSON: " ++ path
  | .schema e => "Invalid table: " ++ e.message

inductive Output where
  | nothing
  | print (text : String)
  | save (path text : String)
deriving Repr, DecidableEq

def Output.emit (path : Option String) (text : String) : Output :=
  match path with
  | some path => .save path text
  | none => .print text

abbrev Files := String → Option String

def readFile (files : Files) (path : String) : Except Failure String :=
  match files path with
  | some text => .ok text
  | none => .error (.file path)

def loadBase (files : Files) : Option String → Except Failure Options
  | none => .ok {}
  | some path => do
    let text ← readFile files path
    match Options.parse? text with
    | some o => return o
    | none => throw .options

def loadOptions (files : Files) (path dialect : Option String) : Except Failure Options := do
  let o ← loadBase files path
  match dialect with
  | none => return o
  | some name =>
    match Dialect.ofName? name with
    | some d => return { o with dialect := d }
    | none => throw (.dialect name)

inductive Model where
  | one (t : Table)
  | many (ts : List Table)
deriving Repr, DecidableEq

/-- A list of tables if it reads as one, else a table. The value is nested less than 128 deep, and
its numbers fit a double. -/
def Model.ofJson? (v : Json) : Option Model :=
  if v.depth < 128 && v.allFinite then
    ((Json.list? Table.ofJson? v).map .many).or ((Table.ofJson? v).map .one)
  else none

def Model.ofTables : List Table → Model
  | [t] => .one t
  | ts => .many ts

def loadModel (files : Files) (path : String) (fromDdl : Bool) : Except Failure Model := do
  let text ← readFile files path
  if fromDdl then
    let ts ← (Table.successes (Table.parseScript text)).mapError .parse
    return .ofTables ts
  match (Json.parse? text).bind Model.ofJson? with
  | some m => return m
  | none => throw (.model path)

def loadTable (files : Files) (path : String) (fromDdl : Bool) : Except Failure Table := do
  let text ← readFile files path
  if fromDdl then (Table.parse text).mapError .parse
  else
    match (Json.parse? text).bind Table.ofJson? with
    | some t => return t
    | none => throw (.model path)

def reportEntry (n : Nat) : Except ParseError Table → Json
  | .ok t => .obj [("status", .str "ok"), ("statement", .int n), ("table", t.toJson)]
  | .error e => .obj [("status", .str "error"), ("statement", .int n), ("error", .str e.message)]

def report (n : Nat) : List (Except ParseError Table) → List Json
  | [] => []
  | r :: rest => reportEntry n r :: report (n + 1) rest

def Model.script (o : Options) : Model → Except SchemaError String
  | .one t => Creation.single o t
  | .many ts => Creation.batch o ts

def Command.execute (files : Files) : Command → Except Failure Output
  | .parse file batch output => do
    let text ← readFile files file
    if batch then return .emit output (Json.arr (report 1 (Table.parseScript text))).pretty
    let t ← (Table.parse text).mapError .parse
    return .emit output t.toJson.pretty
  | .generate file fromDdl dialect options output => do
    let o ← loadOptions files options dialect
    let m ← loadModel files file fromDdl
    let text ← (m.script o).mapError .schema
    return .emit output text
  | .diff old new fromDdl dialect options => do
    let o ← loadOptions files options dialect
    let old ← loadTable files old fromDdl
    let new ← loadTable files new fromDdl
    new.validate.mapError .schema
    let text := Migration.script o old new
    return if text = "" then .nothing else .print text

def Command.inputs : Command → List String
  | .parse file _ _ => [file]
  | .generate file _ _ options _ => options.toList ++ [file]
  | .diff old new _ _ options => options.toList ++ [old, new]

def versionText : String := "ddl 0.1.0"

def helpText : String :=
  "Usage: ddl [--verbose] parse FILE [--batch] [--output FILE]\n" ++
  "       ddl [--verbose] generate FILE [--from-ddl] [--dialect NAME] [--options FILE] " ++
  "[--output FILE]\n" ++
  "       ddl [--verbose] diff OLD NEW [--from-ddl] [--dialect NAME] [--options FILE]"

end SqlTables.CommandLine
