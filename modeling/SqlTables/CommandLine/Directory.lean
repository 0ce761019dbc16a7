import SqlTables.CommandLine.Run

/-! Running the command line inside a directory of named texts. -/

namespace SqlTables.CommandLine

structure Directory where
  files : List (List String × String)
deriving Repr, DecidableEq

namespace Directory

def splitPath (cs : List Char) : List (List Char) :=
  cs.foldr
    (fun c parts =>
      match parts with
      | part :: parts => if c = '/' then [] :: part :: parts else (c :: part) :: parts
      | [] => [[c]])
    [[]]

def pathNames (path : String) : List String := (splitPath path.toList).map String.ofList

def hasDirectory (d : Directory) (names : List String) : Bool :=
  names.isEmpty || d.files.any fun (key, _) => names.length < key.length && names.isPrefixOf key

/-- The names on the way to a file, `here` being those passed. Every name but the last must be a
directory, and the last must not be one. -/
def locate? (d : Directory) (here : List String) : List String → Option (List String)
  | [] => none
  | [name] =>
    if name = "" ∨ name = "." ∨ name = ".." ∨ d.hasDirectory (here ++ [name]) then none
    else some (here ++ [name])
  | name :: rest =>
    if name = "." ∨ name = "" ∧ here ≠ [] then d.locate? here rest
    else if name = ".." then if here = [] then none else d.locate? here.dropLast rest
    else if name ≠ "" ∧ d.hasDirectory (here ++ [name]) then d.locate? (here ++ [name]) rest
    else none

def find? (d : Directory) (path : String) : Option (List String) := d.locate? [] (pathNames path)

def read? (d : Directory) (path : String) : Option String :=
  (d.find? path).bind fun names => d.files.lookup names

def write? (d : Directory) (path text : String) : Option Directory :=
  (d.find? path).map fun names => ⟨(names, text) :: d.files.filter (·.1 ≠ names)⟩

def ofFiles (files : List (String × String)) : Directory :=
  ⟨files.map fun (path, text) => ((pathNames path).filter fun n => n ≠ "" ∧ n ≠ ".", text)⟩

end Directory

structure Outcome where
  exit : Nat
  stdout : String
  failure : Option Failure
  directory : Directory
deriving Repr, DecidableEq

def Outcome.printed (d : Directory) (text : String) : Outcome := ⟨0, text ++ "\n", none, d⟩

def Outcome.failed (d : Directory) (f : Failure) : Outcome := ⟨1, "", some f, d⟩

def Outcome.ofOutput (d : Directory) : Output → Outcome
  | .nothing => ⟨0, "", none, d⟩
  | .print text => .printed d text
  | .save path text =>
    match d.write? path text with
    | some d => ⟨0, "", none, d⟩
    | none => .failed d (.file path)

/-- A run of the command line. Status one is a failure and two a usage error. -/
def run (d : Directory) (args : List String) : Outcome :=
  match request? false args with
  | none => ⟨2, "", none, d⟩
  | some .help => .printed d helpText
  | some .version => .printed d versionText
  | some (.run c) =>
    match c.execute d.read? with
    | .error f => .failed d f
    | .ok output => .ofOutput d output

end SqlTables.CommandLine
