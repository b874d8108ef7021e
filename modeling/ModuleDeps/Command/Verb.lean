import ModuleDeps.Command.Flags

/-!
# Verbs of the command line

The program is called with a verb, which stands anywhere among the arguments;
without one it prints its version or its help.  Looking for the verb skips
flags and, behind a flag that needs one, its value.  At that time the help
flag is not known yet, so what follows it is taken for its value.

Besides `help`, the library that reads the command line adds commands of its own,
which are found in the same way.  What they do is left out; a command line for
them is only told apart (`names`).
-/

set_option autoImplicit false

namespace ModuleDeps.Command

inductive Verb
  | none
  | add
  | check
  | help
  | locate
  | open
  | resolve
deriving DecidableEq, Repr

namespace Verb

def name : Verb → String
  | .none => "wiseimport"
  | .add => "add"
  | .check => "check"
  | .help => "help"
  | .locate => "locate"
  | .open => "open"
  | .resolve => "resolve"

def ofText? (t : Text) : Option Verb :=
  [Verb.add, .check, .help, .locate, .open, .resolve].find? fun v => utf8 v.name == t

end Verb

/-! ## Flags of the verbs -/

def globalFlags (root config : Text) : List Flag := [
  { name := "config", kind := .text, standard := config,
    usage := "YAML file with layout markers, hard-coded modules and excludes" },
  { name := "diff", kind := .switch,
    usage := "Print a unified diff instead of the modified file" },
  { name := "in-place", kind := .switch,
    usage := "Modify the file in place instead of printing to stdout" },
  { name := "root", kind := .text, standard := root,
    usage :=
      "Workspace root to search (default: nearest directory with ui5.yaml, package.json or .git)" },
  { name := "verbose", kind := .switch,
    usage := "Print progress information to stderr" }]

def versionFlag : Flag :=
  { name := "version", letter := some 0x76, kind := .switch, usage := "Show version information" }

def helpFlag (v : Verb) : Flag :=
  { name := "help", letter := some 0x68, kind := .switch, usage := "help for " ++ v.name }

def ownFlags : Verb → List Flag
  | .none => [helpFlag .none, versionFlag]
  | .add => [
    { name := "col", kind := .number, usage := "Cursor column (1-based)" },
    { name := "end-col", kind := .number,
      usage := "Selection end column (1-based, defaults to --col)" },
    { name := "end-line", kind := .number,
      usage := "Selection end line (1-based, defaults to --line)" },
    helpFlag .add,
    { name := "line", kind := .number, usage := "Cursor line (1-based)" }]
  | v => [helpFlag v]

def allFlags (root config : Text) (v : Verb) : List Flag := globalFlags root config ++ ownFlags v

/-! ## Finding the verb -/

/-- The flags known while the verb is looked for. -/
def earlyFlags : List Flag := versionFlag :: globalFlags [] []

def takesNext (arg : Text) : Bool :=
  if List.contains arg 0x3D then false
  else
    match arg with
    | 0x2D :: 0x2D :: name => ((named? earlyFlags name).map fun f => f.kind != .switch).getD true
    | [0x2D, letter] => ((lettered? earlyFlags letter).map fun f => f.kind != .switch).getD true
    | _ => false

/-- The arguments that can name a verb.  A flag that takes the very last
argument ends the search. -/
def words : List Text → List Text
  | [] => []
  | arg :: rest =>
    if arg = utf8 "--" then []
    else if takesNext arg then
      match rest with
      | _ :: next :: rest => words (next :: rest)
      | _ => []
    else if arg.isEmpty ∨ arg.startsWith (utf8 "-") then words rest
    else arg :: words rest

/-- The arguments without the first one, outside of flags, that is `word`. -/
def dropWord (word : Text) : List Text → List Text
  | [] => []
  | arg :: rest =>
    if arg = utf8 "--" then arg :: rest
    else if takesNext arg then
      match rest with
      | [] => [arg]
      | value :: rest => arg :: value :: dropWord word rest
    else if arg = word then rest
    else arg :: dropWord word rest

def findVerb (args : List Text) : Verb × List Text :=
  match words args with
  | [] => (.none, args)
  | word :: _ =>
    match Verb.ofText? word with
    | some v => (v, dropWord word args)
    | none => (.none, args)

/-! ## Commands of the library -/

/-- Those that the help lists: it writes completion scripts. -/
def listedCommands : List String := ["completion"]

/-- All of them.  The hidden ones answer the completion scripts, and write a
log if the environment names a file for it. -/
def libraryCommands : List String := listedCommands ++ ["__complete", "__completeNoDesc"]

def names (commands : List String) (args : List Text) : Bool :=
  (words args).head?.any fun word => commands.any fun name => utf8 name == word

end ModuleDeps.Command
