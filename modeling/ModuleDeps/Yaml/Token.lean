import ModuleDeps.Yaml.Source

/-!
# Tokens of YAML

The structure of a document shows in its tokens: indentation opens and closes
block collections, and brackets open and close flow collections.
-/

set_option autoImplicit false

namespace ModuleDeps.Yaml

inductive Token
  | streamStart
  | streamEnd
  | versionDirective (major minor : Nat)
  | tagDirective (handle lead : Text)
  | documentStart
  | documentEnd
  | blockSequence
  | blockMapping
  | blockEnd
  | flowSequence
  | flowSequenceEnd
  | flowMapping
  | flowMappingEnd
  | blockEntry
  | flowEntry
  | key
  | value
  | alias (name : Text)
  | anchor (name : Text)
  | tag (handle suffix : Text)
  | scalar (text : Text) (plain : Bool)
deriving DecidableEq, Repr

end ModuleDeps.Yaml
