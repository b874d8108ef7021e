import ModuleDeps.Block.Descriptor
import ModuleDeps.Text.Quoted

/-!
# Descriptors as JSON

Printed with an indentation of two spaces.  Characters that have a meaning in
HTML, and the two Unicode line separators, are escaped, and U+FFFD stands for
a byte outside every character.  An empty list is `null`.
-/

set_option autoImplicit false

namespace ModuleDeps

namespace Json

def isEscaped (code : Nat) : Bool :=
  code < 0x20 || code == 0x3C || code == 0x3E || code == 0x26 || code == 0x2028 || code == 0x2029

def shortEscape? (code : Nat) : Option UInt8 :=
  if code = 0x07 ∨ code = 0x0B then none else Text.shortEscape? code

def char (s : Text.Scalar) : Text :=
  if !s.wellFormed then Text.encode s.code
  else if s.code = 0x22 ∨ s.code = 0x5C then Text.backslash :: s.bytes
  else
    match shortEscape? s.code with
    | some letter => [Text.backslash, letter]
    | none => if isEscaped s.code then utf8 "\\u" ++ Text.hexDigits 4 s.code else s.bytes

def string (t : Text) : Text := utf8 "\"" ++ t.scalars.flatMap char ++ utf8 "\""

def bool (b : Bool) : Text := if b then utf8 "true" else utf8 "false"

/-- Lines between brackets, indented two spaces deeper than `depth`. -/
def enclosed (depth : Nat) (opener closer : UInt8) (rows : List Text) : Text :=
  let indent (n : Nat) : Text := Text.lf :: List.replicate n Text.space
  opener :: indent (depth + 2) ++
    Text.joinWith (Text.comma :: indent (depth + 2)) rows ++ indent depth ++ [closer]

def strings : List Text → Text
  | [] => utf8 "null"
  | ts => enclosed 2 0x5B 0x5D (ts.map string)

def field (name : String) (value : Text) : Text := string (utf8 name) ++ utf8 ": " ++ value

def object (depth : Nat) (fields : List (String × Text)) : Text :=
  enclosed depth 0x7B 0x7D (fields.map fun f => field f.1 f.2)

def position (p : Position) : Text :=
  object 2 [("line", Text.ofInt p.line), ("column", Text.ofInt p.column)]

end Json

/-- False and zero are left out where they say nothing. -/
def Descriptor.toJson (d : Descriptor) : Text :=
  Json.object 0 ([
    ("kind", Json.string d.kind.name),
    ("dependencyInsert", Json.position d.dependencyInsert),
    ("parameterInsert", Json.position d.parameterInsert),
    ("dependencies", Json.strings d.dependencies),
    ("parameters", Json.strings d.parameters),
    ("dependencyIndent", Json.string d.dependencyIndent),
    ("indentation", Json.string d.parameterIndent),
    ("dependencyComma", Json.bool d.dependencyComma),
    ("parameterComma", Json.bool d.parameterComma),
    ("quote", Json.string d.quote)] ++
    (if d.semicolon then [("semicolon", Json.bool true)] else []) ++
    (if d.version = 0 then [] else [("version", Text.ofNat d.version.toNat)]))

end ModuleDeps
