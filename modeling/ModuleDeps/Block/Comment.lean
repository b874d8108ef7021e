import ModuleDeps.Text.Basic

/-!
# Comments in source text

A line comment starts at the first `//` of a line outside of quotes; inside
quotes a backslash hides the byte after it.  A block comment runs from `/*` to
the next `*/`, and a `/*` without one opens nothing.
-/

set_option autoImplicit false

namespace ModuleDeps

def lineComment : Text := [Text.slash, Text.slash]

def blockOpen : Text := [Text.slash, Text.star]

def blockClose : Text := [Text.star, Text.slash]

def isQuote (b : UInt8) : Bool := b == Text.squote || b == Text.dquote || b == Text.backquote

/-- What stands in front of the line comment of a line read inside the quotes
`quote`. -/
def codeFrom : Option UInt8 → Text → Text
  | _, [] => []
  | some q, b :: rest =>
    if b = Text.backslash then
      match rest with
      | [] => [b]
      | c :: rest => b :: c :: codeFrom (some q) rest
    else b :: codeFrom (if b = q then none else some q) rest
  | none, b :: rest =>
    if isQuote b then b :: codeFrom (some b) rest
    else if lineComment.isPrefixOf (b :: rest) then []
    else b :: codeFrom none rest

def stripComment (line : Text) : Text := codeFrom none line

theorem codeFrom_isPrefix (q : Option UInt8) (t : Text) : codeFrom q t <+: t := by
  fun_induction codeFrom q t with
  | case1 q => exact List.prefix_rfl
  | case2 q => exact List.prefix_rfl
  | case3 q c rest ih =>
      exact List.cons_prefix_cons.mpr ⟨rfl, List.cons_prefix_cons.mpr ⟨rfl, ih⟩⟩
  | case4 q b rest notEscape ih => exact List.cons_prefix_cons.mpr ⟨rfl, ih⟩
  | case5 b rest quote ih => exact List.cons_prefix_cons.mpr ⟨rfl, ih⟩
  | case6 b rest notQuote starts => exact List.nil_prefix
  | case7 b rest notQuote noComment ih => exact List.cons_prefix_cons.mpr ⟨rfl, ih⟩

theorem stripComment_isPrefix (line : Text) : stripComment line <+: line :=
  codeFrom_isPrefix none line

/-- Drops the block comments of a text of which `skip` bytes belong to a
comment. -/
def dropBlocksFrom : Nat → Text → Text
  | _, [] => []
  | skip + 1, _ :: rest => dropBlocksFrom skip rest
  | 0, b :: rest =>
    if blockOpen.isPrefixOf (b :: rest) then
      match Text.indexOf? blockClose (rest.drop 1) with
      | some i => dropBlocksFrom (i + 3) rest
      | none => b :: dropBlocksFrom 0 rest
    else b :: dropBlocksFrom 0 rest

def dropBlockComments (t : Text) : Text := dropBlocksFrom 0 t

end ModuleDeps
