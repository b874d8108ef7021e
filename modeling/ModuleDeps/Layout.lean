import ModuleDeps.Buffer.Basic
import ModuleDeps.Text.Case

/-!
# Project layouts

A layout marker says which part of a file's path is its import path: the part
from a segment on, or the part behind it, put behind a fixed lead.  Markers
are listed most specific first, and a marker is tried on all candidates before
the next one.

A segment is looked for in the lower-cased path, and the path is cut at the
offset found there.  Lower-casing may change the number of bytes in front of
the segment, so the cut can miss the segment, and even lie behind the path's
end, which is refused.
-/

set_option autoImplicit false

namespace ModuleDeps

structure Marker where
  segments : List Text
  lead : Text := []
  strip : Bool := false
deriving DecidableEq, Repr

structure Candidate where
  path : Text
  importPath : Text
deriving DecidableEq, Repr

def toSlash (path : Text) : Text := path.replaceByte Text.backslash [Text.slash]

def extensionLength (path : Text) : Nat :=
  match Text.lastIndexOf? Text.dot path, Text.lastIndexOf? Text.slash path with
  | none, _ => 0
  | some i, none => path.length - i
  | some i, some j => if j < i then path.length - i else 0

def dropExtension (path : Text) : Text := path.take (path.length - extensionLength path)

namespace Marker

def builtin : List Marker := [
  { segments := [utf8 "/sap/m/"] },
  { segments := [utf8 "/sap/bi/webi/"] },
  { segments := [utf8 "/webapp/"], lead := utf8 "sap/bi/webi/", strip := true }]

def join (lead rest : Text) : Text :=
  let lead := if lead.isEmpty || lead.endsWith [Text.slash] then lead else lead ++ [Text.slash]
  dropExtension (Text.dropLead [Text.slash] (toSlash (lead ++ Text.dropLead [Text.slash] rest)))

/-- Where the first segment that occurs in a lower-cased path makes the cut. -/
def cutOffset? (strip : Bool) (lowered : Text) : List Text → Option Nat
  | [] => none
  | segment :: rest =>
    let wanted := (toSlash segment).lower
    if segment.isEmpty then cutOffset? strip lowered rest
    else
      match Text.indexOf? wanted lowered with
      | some i => some (if strip then i + wanted.length else i)
      | none => cutOffset? strip lowered rest

def apply (m : Marker) (path : Text) : Except OutOfRange (Option Text) :=
  let normalized := toSlash path
  match cutOffset? m.strip normalized.lower m.segments with
  | none => .ok none
  | some i =>
    match normalized.slice i normalized.length with
    | .ok rest => .ok (some (join m.lead rest))
    | .error e => .error e

def pick (m : Marker) : List Text → Except OutOfRange (Option Candidate)
  | [] => .ok none
  | path :: rest =>
    match m.apply path with
    | .ok (some importPath) => .ok (some ⟨path, importPath⟩)
    | .ok none => pick m rest
    | .error e => .error e

end Marker

/-- The candidate of the first marker that applies to one. -/
def resolve (candidates : List Text) : List Marker → Except OutOfRange (Option Candidate)
  | [] => .ok none
  | m :: rest =>
    match m.pick candidates with
    | .ok (some candidate) => .ok (some candidate)
    | .ok none => resolve candidates rest
    | .error e => .error e

end ModuleDeps
