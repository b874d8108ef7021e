import ModuleDeps.Buffer.Position
import ModuleDeps.Text.Case

/-!
# Descriptors of declaration blocks

The dependencies of a module are declared either by a factory call, a list of
paths in brackets followed by a function with one parameter for each path, or
by a run of import lines.  A descriptor gives both forms the same view.
-/

set_option autoImplicit false

namespace ModuleDeps

inductive BlockKind
  | bracketedFactory
  | lineImports
deriving DecidableEq, Repr

def BlockKind.name : BlockKind → Text
  | .bracketedFactory => utf8 "bracketed-factory"
  | .lineImports => utf8 "line-imports"

structure Descriptor where
  kind : BlockKind
  /-- Where a further path goes; for import lines the start of the line behind
  the last of them. -/
  dependencyInsert : Position
  parameterInsert : Position
  dependencies : List Text
  parameters : List Text
  dependencyIndent : Text
  parameterIndent : Text
  dependencyComma : Bool
  parameterComma : Bool
  quote : Text
  semicolon : Bool
  /-- The version of the text that was read, zero when it has none. -/
  version : UInt64
deriving DecidableEq, Repr

namespace Descriptor

/-- Whether a parameter ends with `name`, up to letter case. -/
def hasParameter (d : Descriptor) (name : Text) : Bool :=
  d.parameters.any fun parameter => parameter.lower.endsWith name.lower

end Descriptor

end ModuleDeps
