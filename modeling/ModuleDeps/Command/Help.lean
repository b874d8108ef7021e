import ModuleDeps.Command.Verb
import ModuleDeps.Text.Blank

/-!
# Help texts

The help of a verb: what it does, how it is called, and its flags in a table.
The help of a command of the library is left out.
-/

set_option autoImplicit false

namespace ModuleDeps.Command

def joinLines (lines : List String) : Text := Text.joinWith [Text.lf] (lines.map utf8)

def Verb.summary : Verb → String
  | .none => "Wise import - add dependencies to sap.ui.define modules"
  | .add => "Add a dependency to the declaration block of FILE"
  | .check => "Report JavaScript files whose declaration block cannot be edited"
  | .help => "Help about any command"
  | .locate => "Print the declaration block descriptor of FILE as JSON"
  | .open => "Print the path of the file defining SYMBOL"
  | .resolve => "Print the import path SYMBOL would be added with"

def Verb.description : Verb → Text
  | .none => joinLines [
    "wiseimport adds a dependency to a JavaScript module.",
    "",
    "It locates the module's declaration block, either",
    "",
    "  sap.ui.define([ 'path/to/Dep' ], function (Dep) \x7b ... \x7d)",
    "",
    "or a run of \"import Dep from 'path/to/Dep'\" lines, finds the file defining",
    "the symbol in the workspace and inserts the import path and the parameter",
    "name, keeping the existing indentation and comma style.",
    "",
    "Workspace paths are turned into import paths with an ordered list of layout",
    "markers (e.g. /webapp/ -> sap/bi/webi/). Markers, hard-coded modules and",
    "search exclusions can be overridden with a YAML file given by --config."]
  | .add => joinLines [
    "Add SYMBOL to the declaration block of FILE.",
    "",
    "When SYMBOL is omitted, it is taken from the cursor given by --line/--col,",
    "or from the selection --line/--col to --end-line/--end-col. Lines and columns",
    "are 1-based."]
  | .check => joinLines [
    "check runs the block locator over a file or over every .js file below a",
    "directory (skipping node_modules, dist, vendor and hidden directories) and",
    "reports blocks that are malformed or whose dependency and parameter counts",
    "differ. It exits with an error when any such block is found."]
  | .help => joinLines [
    "Help provides help for any command in the application.",
    "Simply type wiseimport help [path to command] for full details."]
  | v => utf8 v.summary

def Verb.synopsis : Verb → List String
  | .none => ["wiseimport [command] [flags]", "wiseimport [command]"]
  | .add => ["wiseimport add FILE [SYMBOL] [flags]"]
  | .check => ["wiseimport check PATH [flags]"]
  | .help => ["wiseimport help [command] [flags]"]
  | .locate => ["wiseimport locate FILE [flags]"]
  | .open => ["wiseimport open SYMBOL [flags]"]
  | .resolve => ["wiseimport resolve SYMBOL [flags]"]

/-! ## Tables -/

/-- The verbs as listed, with the command of the library that is not hidden. -/
def verbRows : List (String × String) := [
  ("add", Verb.add.summary),
  ("check", Verb.check.summary),
  ("completion", "Generate the autocompletion script for the specified shell"),
  ("help", Verb.help.summary),
  ("locate", Verb.locate.summary),
  ("open", Verb.open.summary),
  ("resolve", Verb.resolve.summary)]

def padTo (width : Nat) (t : Text) : Text := t ++ List.replicate (width - t.length) Text.space

def verbTable : Text :=
  verbRows.flatMap fun row =>
    utf8 "  " ++ padTo 11 (utf8 row.1) ++ utf8 " " ++ utf8 row.2 ++ [Text.lf]

def Flag.column (f : Flag) : Text :=
  let lead := match f.letter with
    | some letter => utf8 "  -" ++ [letter] ++ utf8 ", --"
    | none => utf8 "      --"
  let value := match f.kind with
    | .switch => ""
    | .text => " string"
    | .number => " int"
  lead ++ utf8 f.name ++ utf8 value

/-- A row of the table of flags; a value that a flag has by itself is quoted. -/
def Flag.row (width : Nat) (f : Flag) : Text :=
  padTo width f.column ++ utf8 "   " ++ utf8 f.usage ++
    (if f.standard.isEmpty then [] else utf8 " (default " ++ f.standard.quoted ++ utf8 ")")

def flagTable (flags : List Flag) : Text :=
  let sorted := flags.mergeSort fun f g => f.name ≤ g.name
  let width := sorted.foldl (fun n f => max n f.column.length) 0
  (Text.joinWith [Text.lf] (sorted.map (Flag.row width))).trimEnd

def usage (root config : Text) (v : Verb) : Text :=
  let synopsis := v.synopsis.flatMap fun line => utf8 "\n  " ++ utf8 line
  let verbs := if v = .none then utf8 "\n\nAvailable Commands:\n" ++ verbTable.dropLast else []
  let own := if v = .none then allFlags root config v else ownFlags v
  let global := if v = .none then []
    else utf8 "\n\nGlobal Flags:\n" ++ flagTable (globalFlags root config)
  let hint := if v = .none then
      utf8 "\n\nUse \"wiseimport [command] --help\" for more information about a command."
    else []
  utf8 "Usage:" ++ synopsis ++ verbs ++ utf8 "\n\nFlags:\n" ++ flagTable own ++ global ++ hint ++
    [Text.lf]

def help (root config : Text) (v : Verb) : Text :=
  v.description ++ utf8 "\n\n" ++ usage root config v

end ModuleDeps.Command
