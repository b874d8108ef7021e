import ModuleDeps.Glob.Pattern

/-!
# Matching paths

A pattern is matched from left to right.  Two places are kept to return to:
behind the last `*` of the component, where one more character is given to the
star, and behind the last `**/`, where one more component is.  A choice is
matched by trying the pattern with each of its alternatives in turn.

A `**` counts as such only at the start of a component and in front of a
slash or at the end of the pattern; elsewhere it means the same as `*`.
-/

set_option autoImplicit false

namespace ModuleDeps.Glob

inductive Verdict
  | yes
  | no
  /-- The pattern turned out to be none, which ends all attempts. -/
  | bad
deriving DecidableEq, Repr

def Verdict.orElse : Verdict → (Unit → Verdict) → Verdict
  | .no, next => next ()
  | v, _ => v

/-! ## Classes -/

/-- The largest code point, which no range starts with. -/
def maxCode : Nat := 0x10FFFF

/-- Reads the rest of a class until a member is `target`; `last` is the member
a range may start with.  The result says whether one was, and what is left of
the pattern. -/
def scanClass (target : Nat) : Nat → Codes → Bool × Codes
  | _, [] => (false, [])
  | last, c :: rest =>
    if c = closeClass then (false, c :: rest)
    else if last < maxCode ∧ c = dash ∧ rest ≠ [] ∧ rest.head? ≠ some closeClass then
      match rest with
      | [] => (false, [])
      | d :: rest =>
        if d = backslash then
          match rest with
          | [] => (last ≤ target && target ≤ Text.replacement, [])
          | e :: rest =>
            if last ≤ target && target ≤ e then (true, rest) else scanClass target maxCode rest
        else if last ≤ target && target ≤ d then (true, rest)
        else scanClass target maxCode rest
    else if c = backslash then
      match rest with
      | [] => (target == Text.replacement, [])
      | d :: rest => if d = target then (true, rest) else scanClass target d rest
    else if c = target then (true, rest)
    else scanClass target c rest

def afterClass? : Codes → Option Codes
  | [] => none
  | c :: rest =>
    if c = backslash then
      match rest with
      | [] => none
      | _ :: rest => afterClass? rest
    else if c = closeClass then some rest
    else afterClass? rest

inductive ClassMatch
  | accepted (rest : Codes)
  | rejected (rest : Codes)
  | bad
deriving DecidableEq, Repr

/-- A class behind its bracket against one character. -/
def matchClass (pattern : Codes) (target : Nat) : ClassMatch :=
  let negated := pattern.head? = some caret ∨ pattern.head? = some bang
  let members := if negated then pattern.tail else pattern
  if members.isEmpty ∨ members.head? = some closeClass then .bad
  else
    let (found, rest) := scanClass target maxCode members
    if found = decide negated then
      if rest.isEmpty then .bad else .rejected rest
    else
      match afterClass? rest with
      | some rest => .accepted rest
      | none => .bad

/-! ## The end of the path -/

def emptyPatterns : List Codes := [[], [star], [star, star], [slash, star, star],
  [star, star, slash], [slash, star, star, slash]]

def matchesEmpty : Nat → Codes → Verdict
  | 0, _ => .no
  | fuel + 1, pattern =>
    if emptyPatterns.contains pattern then .yes
    else if pattern.head? = some openChoice then
      match expand? pattern with
      | none => .bad
      | some choices =>
        choices.foldl (fun v choice => v.orElse fun _ => matchesEmpty fuel choice) .no
    else if isValid pattern then .no
    else .bad

/-! ## Matching -/

/-- How far the pattern and the path are matched, where to return to, and
whether a component of the pattern starts here.  All places are offsets. -/
structure Progress where
  inPattern : Nat := 0
  inPath : Nat := 0
  stars : Option (Nat × Nat) := none
  components : Option (Nat × Nat) := none
  atStart : Bool := true
deriving DecidableEq, Repr

def nextComponent? (path : Codes) (start : Nat) : Option Nat :=
  ((path.drop start).findIdx? (· == slash)).map fun i => start + i + 1

/-- Gives one more component to the last `**/`. -/
def retryComponents (path : Codes) (s : Progress) : Option Progress := do
  let (inPattern, inPath) ← s.components
  let next ← nextComponent? path inPath
  return { s with inPattern, inPath := next, components := some (inPattern, next), atStart := true }

/-- Gives one more character to the last `*`, or else one more component to
the last `**/`. -/
def retry (path : Codes) (s : Progress) : Option Progress :=
  match s.stars with
  | some (inPattern, inPath) =>
    match path.drop inPath with
    | c :: _ =>
      if c = slash then retryComponents path s
      else some { s with
        inPattern, inPath := inPath + 1, stars := some (inPattern, inPath + 1), atStart := false }
    | [] => retryComponents path s
  | none => retryComponents path s

def stepStar (pattern : Codes) (s : Progress) : Option Progress :=
  let next := s.inPattern + 1
  if pattern[next]? = some star then
    if s.atStart ∧ pattern.length = next + 1 then none
    else if s.atStart ∧ pattern[next + 1]? = some slash then
      some { s with
        inPattern := next + 2, stars := none, components := some (next + 2, s.inPath) }
    else some { s with inPattern := next + 1, stars := some (next + 1, s.inPath), atStart := false }
  else some { s with inPattern := next, stars := some (next, s.inPath), atStart := false }

def run : Nat → Codes → Codes → Progress → Verdict
  | 0, _, _, _ => .no
  | fuel + 1, pattern, path, s =>
    let giveUp (s : Progress) : Verdict :=
      match retry path s with
      | some s => run fuel pattern path s
      | none => if isValid (pattern.drop s.inPattern) then .no else .bad
    let literal (c : Nat) (here next : Nat) (target : Nat) : Verdict :=
      if c = target then
        run fuel pattern path { s with
          inPattern := next, inPath := s.inPath + 1, atStart := c == slash }
      else giveUp { s with inPattern := here }
    match path.drop s.inPath with
    | [] => matchesEmpty (pattern.length + 1) (pattern.drop s.inPattern)
    | target :: _ =>
      match pattern.drop s.inPattern with
      | [] => giveUp s
      | c :: rest =>
        if c = star then
          match stepStar pattern s with
          | some s => run fuel pattern path s
          | none => .yes
        else if c = question then
          if target = slash then giveUp { s with atStart := false }
          else run fuel pattern path { s with
            inPattern := s.inPattern + 1, inPath := s.inPath + 1, atStart := false }
        else if c = openClass then
          match matchClass rest target with
          | .accepted rest =>
            run fuel pattern path { s with
              inPattern := pattern.length - rest.length, inPath := s.inPath + 1, atStart := false }
          | .rejected rest =>
            giveUp { s with inPattern := pattern.length - rest.length, atStart := false }
          | .bad => .bad
        else if c = openChoice then
          match expand? (c :: rest) with
          | none => .bad
          | some choices =>
            choices.foldl (fun v choice => v.orElse fun _ =>
              run fuel (pattern.take s.inPattern ++ choice) path { s with atStart := true }) .no
        else if c = backslash then
          match rest with
          | [] => .bad
          | d :: _ => literal d s.inPattern (s.inPattern + 2) target
        else literal c s.inPattern (s.inPattern + 1) target

/-- More steps than a match can take: for every place of the last `**/` and
of the last `*` each character of pattern and path is met once, and every
choice shortens the pattern. -/
def enoughSteps (pattern path : Codes) : Nat :=
  let places := (pattern.length + 1) * (path.length + 1)
  (pattern.length + 1) * places * places * (pattern.length + path.length + 2)

def verdict (pattern path : Text) : Verdict :=
  run (enoughSteps (codes pattern) (codes path)) (codes pattern) (codes path) {}

def isMatch (pattern path : Text) : Bool := verdict pattern path == .yes

end ModuleDeps.Glob
