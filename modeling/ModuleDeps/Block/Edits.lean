import ModuleDeps.Block.Descriptor
import ModuleDeps.Buffer.Batch

/-!
# Edits that add a dependency

In the factory form the path and the parameter are put behind the last entry
of their lists, each on a line of its own with the indentation of the list.
Among import lines a whole line is added.
-/

set_option autoImplicit false

namespace ModuleDeps

def entryText (entry : Text) (existing : Nat) (comma : Bool) (indent : Text) : Text :=
  if existing = 0 then entry
  else (if comma then [] else [Text.comma]) ++ [Text.lf] ++ indent ++ entry

def importText (name literal : Text) (semicolon : Bool) : Text :=
  utf8 "import " ++ name ++ utf8 " from " ++ literal ++ (if semicolon then utf8 ";" else [])

namespace Descriptor

def literal (d : Descriptor) (path : Text) : Text := d.quote ++ path ++ d.quote

/-- The insertions that add `name` bound to `path` to a document of `lineCount`
lines.  A line behind the last one starts with the line end that the document
lacks. -/
def edits (d : Descriptor) (lineCount : Nat) (name path : Text) : Batch :=
  match d.kind with
  | .lineImports =>
    let line := importText name (d.literal path) d.semicolon
    let text := if lineCount ≤ d.dependencyInsert.line then Text.lf :: line else line ++ [Text.lf]
    ⟨d.version, [⟨d.dependencyInsert, text⟩]⟩
  | .bracketedFactory =>
    ⟨d.version, [
      ⟨d.dependencyInsert,
        entryText (d.literal path) d.dependencies.length d.dependencyComma d.dependencyIndent⟩,
      ⟨d.parameterInsert,
        entryText name d.parameters.length d.parameterComma d.parameterIndent⟩]⟩

end Descriptor

end ModuleDeps
