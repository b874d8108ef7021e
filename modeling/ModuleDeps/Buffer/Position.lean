import ModuleDeps.Text.Basic

/-!
# Positions

A position names a line and a byte column in it, both counted from zero.
Positions are compared line first.  They come from editors and command lines,
so neither number need lie inside a text, nor be non-negative.
-/

set_option autoImplicit false

namespace ModuleDeps

structure Position where
  line : Int := 0
  column : Int := 0
deriving DecidableEq, Repr

namespace Position

def Before (p q : Position) : Prop :=
  p.line < q.line ∨ p.line = q.line ∧ p.column < q.column

instance (p q : Position) : Decidable (p.Before q) :=
  inferInstanceAs (Decidable (p.line < q.line ∨ p.line = q.line ∧ p.column < q.column))

def render (p : Position) : Text := Text.ofInt p.line ++ utf8 ":" ++ Text.ofInt p.column

end Position

end ModuleDeps
