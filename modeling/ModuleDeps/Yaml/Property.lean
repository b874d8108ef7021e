import ModuleDeps.Yaml.Comment
import ModuleDeps.Yaml.Token

/-!
# Directives and node properties

Directives stand in front of a document and announce a version of YAML or the
handle of a family of tags.  Anchors, aliases and tags stand in front of a
node or instead of one.
-/

set_option autoImplicit false

namespace ModuleDeps.Yaml

open Scan

def toText (cs : Codes) : Text := cs.flatMap Text.encode

def exclamation : UInt8 := 0x21

/-! ## Names and addresses -/

def readName : Scan Text := do return toText (← takeWhile isNameCode)

/-- A byte written as a percent sign and two hexadecimal digits. -/
def readOctet : Scan UInt8 := do
  ensure 3
  let c ← get
  match c.sees '%', hexValue? 2 0 c.ahead.tail with
  | true, some value =>
    skipMany 3
    return value.toUInt8
  | _, _ => fail

def readTrailingOctets : Nat → Text → Scan Text
  | 0, done => return done
  | n + 1, done => do
    let b ← readOctet
    if Text.isContinuation b then readTrailingOctets n (done ++ [b]) else fail

/-- A character of an address that is written byte by byte. -/
def readEscapedChar : Scan Text := do
  let b ← readOctet
  match leadWidth b with
  | 0 => fail
  | n + 1 => readTrailingOctets n [b]

def isUriCode (c : Nat) : Bool :=
  isNameCode c || (";/?:@&=+$,.!~*'()[]%".toList.map code).contains c

def readUri : Nat → Text → Scan Text
  | 0, done => return done
  | fuel + 1, done => do
    ensure 1
    let c ← peek
    if !isUriCode c then return done
    else if c == code '%' then
      let bytes ← readEscapedChar
      readUri fuel (done ++ bytes)
    else
      skip
      readUri fuel (done ++ [c.toUInt8])

def readAddress : Scan Text := do
  let uri ← readUri (← get).room []
  if uri.isEmpty then fail else return uri

/-- A handle: an exclamation mark, and possibly a name and a second one. -/
def readHandle : Scan Text := do
  ensure 1
  if !(← sees '!') then fail
  else
    skip
    let name ← readName
    if ← sees '!' then
      skip
      return exclamation :: name ++ [exclamation]
    else return exclamation :: name

/-- Whether a handle ends in an exclamation mark of its own. -/
def isClosedHandle (handle : Text) : Bool :=
  1 < handle.length && handle.getLast? == some exclamation

/-! ## Properties -/

def endTag (handle suffix : Text) : Scan Token := do
  ensure 1
  if isBlankOrEnd (← peek) then return .tag handle suffix else fail

/-- A tag: an address between angle brackets, or a handle and an address.  An
exclamation mark alone is a tag without a handle. -/
def readTag : Scan Token := do
  ensure 2
  if ← sees '<' 1 then
    skipMany 2
    let uri ← readAddress
    if ← sees '>' then
      skip
      endTag [] uri
    else fail
  else
    let handle ← readHandle
    if isClosedHandle handle then endTag handle (← readAddress)
    else
      let uri ← readUri (← get).room handle.tail
      if uri.isEmpty then endTag [] [exclamation] else endTag [exclamation] uri

def endsAnchor (c : Nat) : Bool :=
  isBlankOrEnd c || ("?:,]%@".toList.map code ++ [0x7D, 0x60]).contains c

def readAnchor : Scan Text := do
  skip
  let name ← readName
  if name.isEmpty || !endsAnchor (← peek) then fail else return name

/-! ## Directives -/

/-- The most digits that the number of a version has. -/
def maxVersionDigits : Nat := 2

def readVersionNumber : Scan Nat := do
  let digits ← takeWhile isDigitCode
  if digits.isEmpty || maxVersionDigits < digits.length then fail
  else return digits.foldl (fun n d => n * 10 + (d - 0x30)) 0

def readVersion : Scan Token := do
  skipBlanks
  let major ← readVersionNumber
  if ← sees '.' then
    skip
    return .versionDirective major (← readVersionNumber)
  else fail

def readTagFamily : Scan Token := do
  skipBlanks
  let handle ← readHandle
  if handle ≠ [exclamation] && !isClosedHandle handle then fail
  else
    ensure 1
    if !isBlank (← peek) then fail
    else
      skipBlanks
      let lead ← readAddress
      if isBlankOrEnd (← peek) then return .tagDirective handle lead else fail

/-- A directive from its percent sign to the end of its line. -/
def readDirective : Scan Token := do
  skip
  let name ← readName
  if name.isEmpty || !isBlankOrEnd (← peek) then fail
  else
    let token ←
      if name = utf8 "YAML" then readVersion
      else if name = utf8 "TAG" then readTagFamily
      else fail
    ensure 1
    skipBlanks
    if ← sees '#' then skipToBreak
    if !isBreakOrEnd (← peek) then fail
    else
      if isBreak (← peek) then
        let _ ← readLine
      return token

end ModuleDeps.Yaml
