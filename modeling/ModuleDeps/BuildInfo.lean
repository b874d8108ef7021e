import ModuleDeps.Text.Basic

/-!
# Build information

What a build of the program knows about itself.
-/

set_option autoImplicit false

namespace ModuleDeps

structure BuildInfo where
  version : Text
  gitCommit : Text
  gitTag : Text
  buildDate : Text
  toolchain : Text
  compiler : Text
  platform : Text
deriving DecidableEq, Repr

namespace BuildInfo

/-- A build that was told nothing. -/
def plain : BuildInfo where
  version := utf8 "dev"
  gitCommit := utf8 "unknown"
  gitTag := utf8 "unknown"
  buildDate := utf8 "unknown"
  toolchain := []
  compiler := []
  platform := []

def render (i : BuildInfo) : Text :=
  utf8 "wiseimport version " ++ i.version ++
    utf8 "\nGit commit: " ++ i.gitCommit ++
    utf8 "\nGit tag: " ++ i.gitTag ++
    utf8 "\nBuild date: " ++ i.buildDate ++
    utf8 "\nGo version: " ++ i.toolchain ++
    utf8 "\nCompiler: " ++ i.compiler ++
    utf8 "\nPlatform: " ++ i.platform

end BuildInfo

end ModuleDeps
