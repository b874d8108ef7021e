import ModuleDeps.Catalog
import ModuleDeps.Finder
import ModuleDeps.Layout

/-!
# Settings

The tables that decide how a symbol becomes an import path: layout markers,
the catalog of known modules, the excludes and the limit of a search.
-/

set_option autoImplicit false

namespace ModuleDeps

structure Settings where
  markers : List Marker
  modules : Catalog
  excludes : List Text
  limit : Int
deriving DecidableEq, Repr

/-- Settings of which some may be left open. -/
structure SettingsPatch where
  markers : Option (List Marker) := none
  modules : Option Catalog := none
  excludes : Option (List Text) := none
  limit : Int := 0
deriving DecidableEq, Repr

namespace Settings

def builtin : Settings where
  markers := Marker.builtin
  modules := Catalog.builtin
  excludes := defaultExcludes
  limit := defaultLimit

/-- The settings with the tables of a patch in place of their own; a limit
below one leaves the limit as it is. -/
def patched (s : Settings) (p : SettingsPatch) : Settings where
  markers := p.markers.getD s.markers
  modules := p.modules.getD s.modules
  excludes := p.excludes.getD s.excludes
  limit := if p.limit ≤ 0 then s.limit else p.limit

end Settings

end ModuleDeps
