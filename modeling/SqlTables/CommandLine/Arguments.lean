/-! The arguments of the command line: a command with its file names, flags and options. A flag or
option is given at most once, and the value of an option does not begin with a dash. -/

namespace SqlTables.CommandLine

inductive Command where
  | parse (file : String) (batch : Bool) (output : Option String)
  | generate (file : String) (fromDdl : Bool) (dialect options output : Option String)
  | diff (old new : String) (fromDdl : Bool) (dialect options : Option String)
deriving Repr, DecidableEq

inductive Request where
  | help
  | version
  | run (c : Command)
deriving Repr, DecidableEq

structure Form where
  flags : List String
  options : List String
deriving Repr, DecidableEq

structure Given where
  files : List String := []
  flags : List String := []
  options : List (String × String) := []
deriving Repr, DecidableEq

inductive Sorting where
  | wrong
  | help
  | given (g : Given)
deriving Repr, DecidableEq

def Given.addFlag? (g : Given) (name : String) : Option Given :=
  if name ∈ g.flags then none else some { g with flags := name :: g.flags }

def Given.addOption? (g : Given) (name value : String) : Option Given :=
  if g.options.any (·.1 = name) then none else some { g with options := (name, value) :: g.options }

def looksLikeOption (arg : String) : Bool :=
  match arg.toList with
  | '-' :: _ :: _ => true
  | _ => false

def splitLong (arg : String) : String × Option String :=
  let cs := arg.toList
  let name := String.ofList (cs.takeWhile (· ≠ '='))
  match cs.dropWhile (· ≠ '=') with
  | [] => (name, none)
  | _ :: value => (name, some (String.ofList value))

def Form.sort (form : Form) (g : Given) : List String → Sorting
  | [] => .given g
  | "--" :: rest => .given { g with files := g.files ++ rest }
  | arg :: rest =>
    if !looksLikeOption arg then form.sort { g with files := g.files ++ [arg] } rest
    else if arg = "-h" ∨ arg = "--help" then .help
    else
      let (name, joined) := splitLong (if arg = "-v" then "--verbose" else arg)
      if name ∈ form.flags then
        match joined, g.addFlag? name with
        | none, some g => form.sort g rest
        | _, _ => .wrong
      else if name ∈ form.options then
        match joined, rest with
        | some value, rest =>
          match g.addOption? name value with
          | some g => form.sort g rest
          | none => .wrong
        | none, value :: rest =>
          match looksLikeOption value, g.addOption? name value with
          | false, some g => form.sort g rest
          | _, _ => .wrong
        | none, [] => .wrong
      else .wrong

def Given.has (g : Given) (name : String) : Bool := g.flags.contains name

def Given.value? (g : Given) (name : String) : Option String := g.options.lookup name

def parseForm : Form := ⟨["--verbose", "--batch"], ["--output"]⟩

def generateForm : Form := ⟨["--verbose", "--from-ddl"], ["--dialect", "--options", "--output"]⟩

def diffForm : Form := ⟨["--verbose", "--from-ddl"], ["--dialect", "--options"]⟩

def parseCommand? (g : Given) : Option Command :=
  match g.files with
  | [file] => some (.parse file (g.has "--batch") (g.value? "--output"))
  | _ => none

def generateCommand? (g : Given) : Option Command :=
  match g.files with
  | [file] =>
    some (.generate file (g.has "--from-ddl") (g.value? "--dialect") (g.value? "--options")
      (g.value? "--output"))
  | _ => none

def diffCommand? (g : Given) : Option Command :=
  match g.files with
  | [old, new] =>
    some (.diff old new (g.has "--from-ddl") (g.value? "--dialect") (g.value? "--options"))
  | _ => none

def Sorting.request? (make : Given → Option Command) : Sorting → Option Request
  | .wrong => none
  | .help => some .help
  | .given g => (make g).map .run

/-- The request made by the arguments; none is a usage error. Only `--verbose`, once, may stand
before the command. -/
def request? (verbose : Bool) : List String → Option Request
  | "parse" :: rest => (parseForm.sort {} rest).request? parseCommand?
  | "generate" :: rest => (generateForm.sort {} rest).request? generateCommand?
  | "diff" :: rest => (diffForm.sort {} rest).request? diffCommand?
  | arg :: rest =>
    if arg = "-V" ∨ arg = "--version" then some .version
    else if arg = "-h" ∨ arg = "--help" ∨ arg = "help" then some .help
    else if (arg = "-v" ∨ arg = "--verbose") ∧ !verbose then request? true rest
    else none
  | [] => none

end SqlTables.CommandLine
