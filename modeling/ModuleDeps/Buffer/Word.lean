import ModuleDeps.Buffer.Basic

/-!
# The word at a cursor

A selection within one line designates its text.  An empty one, and one that
holds no text, designates the word that touches its start: a longest run of
letters, digits and underscores, ends included.
-/

set_option autoImplicit false

namespace ModuleDeps

structure Selection where
  start : Position
  stop : Position
deriving DecidableEq, Repr

namespace Selection

def cursor (p : Position) : Selection := ⟨p, p⟩

def isEmpty (s : Selection) : Bool := s.start == s.stop

def isSingleLine (s : Selection) : Bool := s.start.line == s.stop.line

end Selection

namespace Text

/-- The words of a text that starts at offset `n`, with their offsets. -/
def wordsFrom : Nat → Text → List (Nat × Text)
  | _, [] => []
  | n, b :: rest =>
    if isWord b then
      match wordsFrom (n + 1) rest with
      | [] => [(n, [b])]
      | (start, word) :: more =>
        if start = n + 1 then (n, b :: word) :: more else (n, [b]) :: (start, word) :: more
    else wordsFrom (n + 1) rest

def words (t : Text) : List (Nat × Text) := wordsFrom 0 t

end Text

namespace Buffer

def wordTouching (b : Buffer) (p : Position) : Option Text :=
  ((b.line p.line).words.find? fun row => row.1 ≤ p.column &&
    p.column ≤ row.1 + row.2.length).map
    Prod.snd

def wordAt (b : Buffer) (s : Selection) : Except OutOfRange (Option Text) :=
  if !s.isSingleLine then .ok none
  else if s.isEmpty then .ok (b.wordTouching s.start)
  else do
    let selected ← b.textRange s.start s.stop
    return if selected.isEmpty then b.wordTouching s.start else some selected

end Buffer

end ModuleDeps
