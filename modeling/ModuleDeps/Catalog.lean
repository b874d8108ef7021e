import ModuleDeps.Text.Case

/-!
# Catalogs of modules

A catalog lists modules whose import path is fixed, so that they are never
searched for.  No two entries have the same name.
-/

set_option autoImplicit false

namespace ModuleDeps

structure KnownModule where
  name : Text
  path : Text
deriving DecidableEq, Repr

abbrev Catalog := List KnownModule

namespace Catalog

def builtin : Catalog := [
  ⟨utf8 "ActionDispatcher", utf8 "sap/bi/smart/core/action/ActionDispatcher"⟩,
  ⟨utf8 "ActionRegistry", utf8 "sap/bi/smart/core/action/ActionRegistry"⟩,
  ⟨utf8 "Logger", utf8 "sap/bi/smart/core/Logger"⟩,
  ⟨utf8 "StoreRegistry", utf8 "sap/bi/smart/core/store/StoreRegistry"⟩]

def least? : List KnownModule → Option KnownModule
  | [] => none
  | entry :: rest =>
    match least? rest with
    | none => some entry
    | some best => if best.name.before entry.name then some best else some entry

/-- The entry of a name.  Its own spelling wins; otherwise the first in byte
order among the names equal to it up to letter case. -/
def lookup (catalog : Catalog) (name : Text) : Option KnownModule :=
  match catalog.find? (·.name == name) with
  | some entry => some entry
  | none => least? (catalog.filter fun entry => entry.name.equalFold name)

end Catalog

end ModuleDeps
