import ModuleDeps.Text.Basic

/-!
# Line differences

The difference of two texts is a shortest script of deleted and inserted
lines.  It is found by following, for a growing number of edits, the furthest
points that can be reached on every diagonal of the grid of line pairs; a
point `x` on diagonal `k` has passed `x` old and `x - k` new lines.
-/

set_option autoImplicit false

namespace ModuleDeps.Diff

def linesOf : Text → List Text
  | [] => []
  | b :: rest =>
    if b = Text.lf then [b] :: linesOf rest
    else
      match linesOf rest with
      | [] => [[b]]
      | line :: more => (b :: line) :: more

/-- Replaces the old lines from `start` up to `stop` by new ones. -/
structure Edit where
  start : Nat
  stop : Nat
  inserted : List Text := []
deriving DecidableEq, Repr

/-! ## Furthest points -/

/-- The furthest points, one for each diagonal that was reached. -/
abbrev Front := List (Int × Nat)

def Front.get (f : Front) (k : Int) : Nat :=
  match f.find? fun row => row.1 == k with
  | some row => row.2
  | none => 0

def Front.set (f : Front) (k : Int) (x : Nat) : Front :=
  (k, x) :: f.filter fun row => row.1 != k

/-- Whether the furthest path to diagonal `k` with `d` edits comes from the
diagonal above, by an inserted line. -/
def comesDown (f : Front) (d : Nat) (k : Int) : Bool :=
  k == -(d : Int) || (k != (d : Int) && f.get (k - 1) < f.get (k + 1))

def commonLength : List Text → List Text → Nat
  | a :: as, b :: bs => if a = b then commonLength as bs + 1 else 0
  | _, _ => 0

def reach (old new : List Text) (f : Front) (d : Nat) (k : Int) : Nat :=
  let x := if comesDown f d k then f.get (k + 1) else f.get (k - 1) + 1
  let y := (x : Int) - k
  if y < 0 then x else x + commonLength (old.drop x) (new.drop y.toNat)

/-- Extends the front over the diagonals given.  The result says whether the
end of both texts was reached. -/
def extend (old new : List Text) (d : Nat) : List Int → Front → Bool × Front
  | [], f => (false, f)
  | k :: rest, f =>
    let x := reach old new f d k
    let f := f.set k x
    if x = old.length ∧ (x : Int) - k = new.length then (true, f) else extend old new d rest f

def diagonals (d : Nat) : List Int := (List.range (d + 1)).map fun (i : Nat) => 2 * (i : Int) - d

/-- The fronts for each number of edits, the last first. -/
def fronts (old new : List Text) : Nat → Nat → Front → List Front → List Front
  | 0, _, _, done => done
  | fuel + 1, d, f, done =>
    match extend old new d (diagonals d) f with
    | (true, f) => f :: done
    | (false, f) => fronts old new fuel (d + 1) f (f :: done)

/-! ## The path back -/

/-- The corners of the path, from its start to `(x, y)`; the fronts are those
of `d` and fewer edits, the last first. -/
def corners : List Front → Nat → Int → Int → List (Int × Int) → List (Int × Int)
  | [], _, _, _, done => done
  | [_], _, x, y, done => if x < 0 ∨ y < 0 then done else (x, y) :: done
  | f :: rest, d, x, y, done =>
    if 0 < x ∧ 0 < y then
      let k := x - y
      let source := if comesDown f d k then k + 1 else k - 1
      let x' : Int := f.get source
      corners rest (d - 1) x' (x' - source) ((x, y) :: done)
    else if x < 0 ∨ y < 0 then done
    else (x, y) :: done

def editsAlong (old new : List Text) : Int → Int → List (Int × Int) → List Edit
  | _, _, [] => []
  | x, y, (cx, cy) :: rest =>
    let k := cx - cy
    let x' := if x - y < k then min (k + y) old.length else x
    let y' := if k < x' - y then x' - k else y
    let deleted := if x < x' then [{ start := x.toNat, stop := x'.toNat }] else []
    let inserted : List Edit := if y < y' then
        [{ start := x'.toNat, stop := x'.toNat,
           inserted := (new.drop y.toNat).take (y' - y).toNat }]
      else []
    let step := max 0 (cx - x')
    deleted ++ inserted ++ editsAlong old new (x' + step) (y' + step) rest

def script (old new : List Text) : List Edit :=
  let size := old.length + new.length
  let found := fronts old new (size + 1) 0 [] []
  editsAlong old new 0 0 (corners found (found.length - 1) old.length new.length [])

end ModuleDeps.Diff
