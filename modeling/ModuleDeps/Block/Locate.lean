import ModuleDeps.Block.Descriptor
import ModuleDeps.Block.Entries
import ModuleDeps.Block.ImportLine
import ModuleDeps.Block.InsertPoint
import ModuleDeps.Buffer.Search

/-!
# Locating the declaration block

The factory form is taken whenever its marker occurs in the document, and
otherwise the import lines are.  The lists of the factory form run from the
first opening delimiter to the first closing one, whatever stands between
them; what was read is checked afterwards, because an edit of a misread block
would bind a parameter to the wrong path.
-/

set_option autoImplicit false

namespace ModuleDeps

inductive LocateError
  | notFound
  | malformed
  | misaligned
  /-- A place outside of the text was looked at. -/
  | outOfRange
deriving DecidableEq, Repr

def LocateError.message : LocateError → Text
  | .notFound => utf8 "declaration block not found"
  | .malformed => utf8 "declaration block is malformed"
  | .misaligned => utf8 "declaration block has different dependency and parameter counts"
  | .outOfRange => utf8 "place outside of the document"

def defineMarker : Text := utf8 "sap.ui.define"

def factoryMarker : Text := utf8 "function"

def defaultQuote : Text := [Text.squote]

/-! ## Lists -/

/-- A delimited list: its entries, where it can be continued, its closing
delimiter and whether it ends with a comma. -/
structure EntryList where
  entries : List Text
  insert : Position
  close : Position
  comma : Bool
deriving DecidableEq, Repr

namespace Buffer

def seek (b : Buffer) (needle : Text) (start : Position) : Except LocateError Position :=
  match b.search needle start with
  | .ok (some p) => .ok p
  | .ok none => .error .notFound
  | .error _ => .error .outOfRange

def read (b : Buffer) (p q : Position) : Except LocateError Text :=
  match b.textRange p q with
  | .ok t => .ok t
  | .error _ => .error .outOfRange

def insertPoint (b : Buffer) (close : Position) : Position × Bool :=
  match b.lastMeaningful close with
  | (p, .unknown) => b.settleInsert p
  | (p, .present) => (p, true)
  | (p, .absent) => (p, false)

def scanList (b : Buffer) (start : Position) (opener closer : UInt8) :
    Except LocateError EntryList := do
  let first ← b.seek [opener] start
  let close ← b.seek [closer] first
  let (insert, comma) := b.insertPoint close
  let content : Position := ⟨first.line, first.column + 1⟩
  let t ← if content.Before insert then b.read content insert else pure []
  return ⟨splitEntries t [Text.comma], insert, close, comma⟩

end Buffer

/-! ## The two forms -/

def checkEntries (dependencies parameters : List Text) : Except LocateError Unit :=
  if !dependencies.all isLiteral then .error .malformed
  else if !parameters.all isIdentifier then .error .malformed
  else if parameters.length ≠ dependencies.length then .error .misaligned
  else .ok ()

def quoteOf : List Text → Except LocateError Text
  | [] => .ok defaultQuote
  | [] :: _ => .error .outOfRange
  | (q :: _) :: _ => .ok [q]

def locateFactory (b : Buffer) (stamp : UInt64) (start : Position) :
    Except LocateError Descriptor := do
  let deps ← b.scanList start 0x5B 0x5D
  let factory ← b.seek factoryMarker deps.close
  let gap ← b.read ⟨deps.close.line, deps.close.column + 1⟩ factory
  if !onlySeparators gap then throw .malformed
  let params ← b.scanList factory 0x28 0x29
  let dependencies := deps.entries.map Text.trim
  let parameters := params.entries.map Text.trim
  checkEntries dependencies parameters
  let quote ← quoteOf dependencies
  return {
    kind := .bracketedFactory
    dependencyInsert := deps.insert
    parameterInsert := params.insert
    dependencies
    parameters
    dependencyIndent := filler deps.entries
    parameterIndent := filler params.entries
    dependencyComma := deps.comma
    parameterComma := params.comma
    quote
    semicolon := false
    version := stamp }

/-- The import statements among lines numbered from `n` on, with their line
numbers. -/
def importsFrom : Nat → List Text → List (Nat × ImportLine)
  | _, [] => []
  | n, line :: rest =>
    match ImportLine.ofText? line with
    | some statement => (n, statement) :: importsFrom (n + 1) rest
    | none => importsFrom (n + 1) rest

def ImportLine.literal (statement : ImportLine) : Text :=
  statement.quote :: statement.path ++ [statement.quote]

def locateImports (b : Buffer) (stamp : UInt64) : Except LocateError Descriptor :=
  let found := importsFrom 0 b.lines
  match found.getLast? with
  | none => .error .notFound
  | some (n, last) =>
    .ok {
      kind := .lineImports
      dependencyInsert := ⟨n + 1, 0⟩
      parameterInsert := ⟨n + 1, 0⟩
      dependencies := found.map fun row => row.2.literal
      parameters := found.map fun row => row.2.name
      dependencyIndent := []
      parameterIndent := []
      dependencyComma := false
      parameterComma := false
      quote := [last.quote]
      semicolon := last.semicolon
      version := stamp }

/-- The declaration block of a buffer, with `stamp` as its version. -/
def locate (b : Buffer) (stamp : UInt64) : Except LocateError Descriptor :=
  match b.search defineMarker ⟨0, 0⟩ with
  | .ok (some start) => locateFactory b stamp start
  | .ok none => locateImports b stamp
  | .error _ => .error .outOfRange

end ModuleDeps
