import ModuleDeps.Text.Utf8

/-!
# Glob patterns

A pattern is read as a sequence of code points.  `*` stands for any characters
of a path component, `**` for any components, `?` for one character, `[…]` for
one character of a class, `{…,…}` for one of several patterns, and a backslash
takes the sign from the character after it.
-/

set_option autoImplicit false

namespace ModuleDeps.Glob

abbrev Codes := List Nat

def codes (t : Text) : Codes := t.scalars.map Text.Scalar.code

abbrev bang : Nat := 0x21
abbrev star : Nat := 0x2A
abbrev comma : Nat := 0x2C
abbrev dash : Nat := 0x2D
abbrev slash : Nat := 0x2F
abbrev question : Nat := 0x3F
abbrev openClass : Nat := 0x5B
abbrev backslash : Nat := 0x5C
abbrev closeClass : Nat := 0x5D
abbrev caret : Nat := 0x5E
abbrev openChoice : Nat := 0x7B
abbrev closeChoice : Nat := 0x7D

/-! ## Validity -/

inductive Scope
  | plain
  /-- Behind the bracket of a class. -/
  | classStart
  /-- Behind the negation of a class. -/
  | classBody
  | inClass
deriving DecidableEq, Repr

/-- Whether the rest of a pattern closes all classes and the `depth` choices
that are open. -/
def validFrom : Scope → Nat → Codes → Bool
  | .plain, depth, [] => depth == 0
  | _, _, [] => false
  | .plain, depth, c :: rest =>
    if c = backslash then
      match rest with
      | [] => false
      | _ :: rest => validFrom .plain depth rest
    else if c = openClass then validFrom .classStart depth rest
    else if c = openChoice then validFrom .plain (depth + 1) rest
    else if c = closeChoice then
      match depth with
      | 0 => false
      | depth + 1 => validFrom .plain depth rest
    else validFrom .plain depth rest
  | scope, depth, c :: rest =>
    if scope = .classStart ∧ (c = caret ∨ c = bang) then validFrom .classBody depth rest
    else if c = closeClass then scope = .inClass && validFrom .plain depth rest
    else if c = backslash then
      match rest with
      | [] => false
      | _ :: rest => validFrom .inClass depth rest
    else validFrom .inClass depth rest

def isValid (pattern : Codes) : Bool := validFrom .plain 0 pattern

/-! ## Choices -/

/-- The rest of a pattern behind an opened choice, cut at the bracket that
closes it, `depth` further choices being open. -/
def closeChoice? : Nat → Codes → Option (Codes × Codes)
  | _, [] => none
  | depth, c :: rest =>
    if c = backslash then
      match rest with
      | [] => none
      | d :: rest => (closeChoice? depth rest).map fun cut => (c :: d :: cut.1, cut.2)
    else if c = openChoice then
      (closeChoice? (depth + 1) rest).map fun cut => (c :: cut.1, cut.2)
    else if c = closeChoice then
      match depth with
      | 0 => some ([], rest)
      | depth + 1 => (closeChoice? depth rest).map fun cut => (c :: cut.1, cut.2)
    else (closeChoice? depth rest).map fun cut => (c :: cut.1, cut.2)

def consFirst (c : Nat) : List Codes → List Codes
  | [] => [[c]]
  | first :: rest => (c :: first) :: rest

/-- The alternatives of a choice, cut at the commas outside of its `depth`
inner choices. -/
def alternatives : Nat → Codes → List Codes
  | _, [] => [[]]
  | depth, c :: rest =>
    if c = backslash then
      match rest with
      | [] => [[c]]
      | d :: rest => consFirst c (consFirst d (alternatives depth rest))
    else if c = openChoice then consFirst c (alternatives (depth + 1) rest)
    else if c = closeChoice then consFirst c (alternatives (depth - 1) rest)
    else if c = comma ∧ depth = 0 then [] :: alternatives depth rest
    else consFirst c (alternatives depth rest)

/-- The alternatives of the choice that a pattern starts with, each with the
pattern behind the choice. -/
def expand? : Codes → Option (List Codes)
  | [] => none
  | _ :: rest => (closeChoice? 0 rest).map fun cut => (alternatives 0 cut.1).map (· ++ cut.2)

end ModuleDeps.Glob
