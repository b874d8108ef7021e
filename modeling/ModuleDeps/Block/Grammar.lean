import ModuleDeps.Block.Comment

/-!
# The pieces of a declaration block

A dependency is one quoted literal, a parameter is one identifier, and between
the two lists of a block stand separators and comments only.
-/

set_option autoImplicit false

namespace ModuleDeps

/-! ## Identifiers -/

def isNameStart (b : UInt8) : Bool := Text.isLetter b || b == 0x5F || b == Text.dollar

def isNameByte (b : UInt8) : Bool := Text.isWord b || b == Text.dollar

def isIdentifier : Text → Bool
  | [] => false
  | b :: rest => isNameStart b && rest.all isNameByte

/-! ## Literals -/

/-- The rest of a literal quoted with `q`: an escape hides any byte but a line
feed, and the closing quote is the last byte. -/
def closesLiteral (q : UInt8) : Text → Bool
  | [] => false
  | b :: rest =>
    if b = Text.backslash then
      match rest with
      | [] => false
      | c :: rest => c != Text.lf && closesLiteral q rest
    else if b = q then rest.isEmpty
    else closesLiteral q rest

def isLiteral : Text → Bool
  | [] => false
  | b :: rest => (b == Text.squote || b == Text.dquote) && closesLiteral b rest

/-! ## Between the lists -/

def isSeparator (b : UInt8) : Bool :=
  b == Text.comma || b == Text.space || b == Text.tab || b == Text.cr

def onlySeparators (t : Text) : Bool :=
  ((dropBlockComments t).splitAt Text.lf).all fun line => (stripComment line).all isSeparator

end ModuleDeps
