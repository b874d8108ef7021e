import ModuleDeps.Proofs.Block.Entries
import ModuleDeps.Proofs.Block.InsertPoint
import ModuleDeps.Proofs.Buffer.Batch
import ModuleDeps.Proofs.Text.Alike

/-!
# The frame of a factory block

A document with a factory block is cut by the delimiters that the search stops
at: the marker, the brackets, the factory's name and its parentheses.  A
`Frame` holds the parts between them, each free of the delimiter that ends it.
On a buffer that holds a frame every search is decided by the frame, so the
whole reading comes down to the two lists (`locate_frame`); and every buffer
that is read as a factory block holds a frame (`exists_frame`).
-/

set_option autoImplicit false

namespace ModuleDeps

open Text

theorem exists_of_bind_eq_ok {ε α β : Type} {x : Except ε α} {next : α → Except ε β}
    {r : β} (done : x >>= next = .ok r) : ∃ a, x = .ok a ∧ next a = .ok r := by
  cases x with
  | error e => cases done
  | ok a => exact ⟨a, rfl, done⟩

/-! ## Reading one list -/

namespace Buffer

theorem search_leads {b : Buffer} {X lead needle tail : Text}
    (holds : b.lines = splitAt lf (X ++ (lead ++ (needle ++ tail)))) (nonempty : needle ≠ [])
    (apart : lf ∉ needle) (leads : Leads needle lead) :
    b.search needle (Position.after X) = .ok (some (Position.after (X ++ lead))) := by
  rw [search_after holds nonempty apart, leads.indexOf? nonempty tail]
  simp

theorem exists_of_seek {b : Buffer} {X Y needle : Text} {p : Position}
    (holds : b.lines = splitAt lf (X ++ Y)) (nonempty : needle ≠ []) (apart : lf ∉ needle)
    (found : b.seek needle (Position.after X) = .ok p) :
    ∃ lead tail, Y = lead ++ (needle ++ tail) ∧ Leads needle lead ∧
      p = Position.after (X ++ lead) := by
  rw [seek, search_after holds nonempty apart] at found
  cases place : indexOf? needle Y with
  | none =>
      rw [place] at found
      cases found
  | some i =>
      rw [place] at found
      obtain ⟨lead, tail, cut, leads, leadTake⟩ := exists_leads nonempty place
      refine ⟨lead, tail, cut, leads, ?_⟩
      rw [← leadTake]
      exact (Except.ok.inj found).symm

/-- A list that is opened behind `lead` and holds `inner`, as it is read: up to
its insert point, which may fail to lie behind the opening delimiter. -/
inductive Scanned (b : Buffer) (lead : Text) (opener : UInt8) (inner : Text) : EntryList → Prop
  | behind {above : List Text} {line body R : Text} {comma : Bool} :
      (∀ l ∈ above, lf ∉ l) → lf ∉ line →
        stacked above ++ line = lead ++ opener :: body →
      inner = body ++ R → Slack line comma R →
      b.insertPoint (Position.after (lead ++ opener :: inner)) =
        (Position.after (lead ++ opener :: body), comma) →
      Scanned b lead opener inner
        ⟨splitEntries (b.withEnding body) [Text.comma], Position.after (lead ++ opener :: body),
          Position.after (lead ++ opener :: inner), comma⟩
  | ahead {p : Position} {comma : Bool} :
      b.insertPoint (Position.after (lead ++ opener :: inner)) = (p, comma) →
      p.Before (Position.after (lead ++ [opener])) →
      Scanned b lead opener inner ⟨[], p, Position.after (lead ++ opener :: inner), comma⟩

theorem Scanned.close {b : Buffer} {lead inner : Text} {opener : UInt8} {L : EntryList}
    (scanned : b.Scanned lead opener inner L) :
    L.close = Position.after (lead ++ opener :: inner) := by
  cases scanned with
  | behind _ _ _ _ _ _ => rfl
  | ahead _ _ => rfl

theorem Scanned.insertPoint {b : Buffer} {lead inner : Text} {opener : UInt8} {L : EntryList}
    (scanned : b.Scanned lead opener inner L) :
    b.insertPoint (Position.after (lead ++ opener :: inner)) = (L.insert, L.comma) := by
  cases scanned with
  | behind _ _ _ _ _ place => exact place
  | ahead place _ => exact place

section List

variable {b : Buffer} {P g inner tail : Text} {opener closer : UInt8}
  (holds : b.lines = splitAt lf (P ++ (g ++ opener :: (inner ++ closer :: tail))))
  (openerFirst : opener ∉ g) (closerFirst : closer ∉ inner) (distinct : closer ≠ opener)
  (openerLine : opener ≠ lf) (closerLine : closer ≠ lf)

include holds openerFirst openerLine in
theorem search_opener :
    b.search [opener] (Position.after P) = .ok (some (Position.after (P ++ g))) :=
  search_leads holds (by simp) (by simp [Ne.symm openerLine]) (leads_singleton_iff.mpr openerFirst)

include holds closerFirst distinct closerLine in
theorem search_closer : b.search [closer] (Position.after (P ++ g)) =
    .ok (some (Position.after (P ++ g ++ opener :: inner))) := by
  have holdsList : b.lines = splitAt lf (P ++ g ++ (opener :: inner ++ ([closer] ++ tail))) := by
    rw [holds]
    simp
  exact search_leads holdsList (by simp) (by simp [Ne.symm closerLine])
    (leads_singleton_iff.mpr (by simp [closerFirst, distinct]))

include holds openerFirst closerFirst distinct openerLine closerLine in
theorem scanList_eq {insert : Position} {comma : Bool}
    (place : b.insertPoint (Position.after (P ++ g ++ opener :: inner)) = (insert, comma)) :
    b.scanList (Position.after P) opener closer = (do
      let t ← if (Position.after (P ++ g ++ [opener])).Before insert
        then b.read (Position.after (P ++ g ++ [opener])) insert
        else pure []
      return ⟨splitEntries t [Text.comma], insert, Position.after (P ++ g ++ opener :: inner),
        comma⟩) := by
  have first : b.seek [opener] (Position.after P) = .ok (Position.after (P ++ g)) := by
    rw [seek, search_opener holds openerFirst openerLine]
  have close : b.seek [closer] (Position.after (P ++ g)) =
      .ok (Position.after (P ++ g ++ opener :: inner)) := by
    rw [seek, search_closer holds closerFirst distinct closerLine]
  have content : Position.after (P ++ g ++ [opener]) =
      ⟨(Position.after (P ++ g)).line, (Position.after (P ++ g)).column + 1⟩ :=
    Position.after_concat openerLine (P ++ g)
  rw [scanList, first, content]
  simp only [bind, Except.bind, close, place]

include holds openerFirst closerFirst distinct openerLine closerLine in
theorem scanned_scanList :
    ∃ L, b.scanList (Position.after P) opener closer = .ok L ∧
      Scanned b (P ++ g) opener inner L := by
  have holdsInner : b.lines = splitAt lf (P ++ g ++ opener :: inner ++ closer :: tail) := by
    rw [holds]
    simp
  obtain ⟨above, line, R, comma, wholeAbove, lineApart, cut, place, slack⟩ :=
    exists_insert holdsInner
  have scan := scanList_eq holds openerFirst closerFirst distinct openerLine closerLine place
  have contentFront : P ++ g ++ [opener] <+: P ++ g ++ opener :: inner := ⟨inner, by simp⟩
  have insertFront : stacked above ++ line <+: P ++ g ++ opener :: inner := ⟨R, cut.symm⟩
  rcases Nat.lt_or_ge (stacked above ++ line).length (P ++ g ++ [opener]).length with short | long
  · -- The insert point lies in front of the list.
    obtain ⟨more, moreCut⟩ :=
      List.prefix_of_prefix_length_le insertFront contentFront (Nat.le_of_lt short)
    have moreNonempty : more ≠ [] := by
      rintro rfl
      rw [← moreCut] at short
      simp at short
    have before := Position.after_before_append (t := stacked above ++ line) moreNonempty
    have notBehind := Position.not_after_append_before (stacked above ++ line) more
    rw [moreCut] at before notBehind
    refine ⟨_, ?_, Scanned.ahead place before⟩
    rw [scan, if_neg notBehind]
    rfl
  · obtain ⟨body, bodyCut⟩ := List.prefix_of_prefix_length_le contentFront insertFront long
    have lineCut : stacked above ++ line = P ++ g ++ opener :: body := by
      rw [← bodyCut]
      simp
    have innerCut : inner = body ++ R := by
      rw [lineCut] at cut
      simpa using cut
    rw [lineCut] at place scan
    refine ⟨_, ?_, Scanned.behind wholeAbove lineApart lineCut innerCut slack place⟩
    rw [scan]
    cases body with
    | nil =>
        have same := Position.not_after_append_before (P ++ g ++ [opener]) []
        rw [List.append_nil] at same
        rw [if_neg same, withEnding_nil]
        rfl
    | cons a body =>
        have before :=
          Position.after_before_append (t := P ++ g ++ [opener]) (List.cons_ne_nil a body)
        have range : b.read (Position.after (P ++ g ++ [opener]))
            (Position.after (P ++ g ++ [opener] ++ a :: body)) =
              .ok (b.withEnding (a :: body)) := by
          have whole :
              b.lines = splitAt lf (P ++ g ++ [opener] ++
                (a :: body ++ (R ++ closer :: tail))) := by
            rw [holds, innerCut]
            simp
          rw [read, textRange_after whole]
        have spelled : P ++ g ++ [opener] ++ a :: body = P ++ g ++ opener :: a :: body := by simp
        rw [spelled] at before range
        rw [if_pos before, range]
        rfl

end List

end Buffer

/-! ## The frame -/

/-- A text cut at the delimiters of its factory block. -/
structure Frame where
  /-- In front of the marker. -/
  front : Text
  /-- Between the marker and the opening bracket. -/
  head : Text
  deps : Text
  /-- Between the closing bracket and the factory. -/
  gap : Text
  /-- Between the factory and its opening parenthesis. -/
  neck : Text
  params : Text
  tail : Text
  marker_first : Leads defineMarker front
  head_open : 0x5B ∉ head
  deps_close : 0x5D ∉ deps
  factory_first : Leads factoryMarker (0x5D :: gap)
  neck_open : 0x28 ∉ neck
  params_close : 0x29 ∉ params

namespace Frame

def depsLead (f : Frame) : Text := f.front ++ (defineMarker ++ f.head)

def factoryLead (f : Frame) : Text := f.depsLead ++ 0x5B :: (f.deps ++ 0x5D :: f.gap)

def paramsLead (f : Frame) : Text := f.factoryLead ++ (factoryMarker ++ f.neck)

def text (f : Frame) : Text := f.paramsLead ++ 0x28 :: (f.params ++ 0x29 :: f.tail)

theorem text_eq_deps (f : Frame) :
    f.text = f.front ++ ((defineMarker ++ f.head) ++ 0x5B :: (f.deps ++ 0x5D ::
      (f.gap ++ (factoryMarker ++ (f.neck ++ 0x28 :: (f.params ++ 0x29 :: f.tail)))))) := by
  simp [text, paramsLead, factoryLead, depsLead]

def depsTail (f : Frame) : Text :=
  0x5D :: (f.gap ++ (factoryMarker ++ (f.neck ++ 0x28 :: (f.params ++ 0x29 :: f.tail))))

theorem text_eq_depsTail (f : Frame) : f.text = f.depsLead ++ 0x5B :: f.deps ++ f.depsTail := by
  simp [text, paramsLead, factoryLead, depsTail]

theorem text_eq_paramsTail (f : Frame) :
    f.text = f.paramsLead ++ 0x28 :: f.params ++ 0x29 :: f.tail := by
  simp [text]

theorem text_eq_params (f : Frame) :
    f.text = f.factoryLead ++ ((factoryMarker ++ f.neck) ++ 0x28 ::
      (f.params ++ 0x29 :: f.tail)) := by
  simp [text, paramsLead]

theorem bracket_first (f : Frame) : (0x5B : UInt8) ∉ defineMarker ++ f.head := by
  rw [List.mem_append, not_or]
  exact ⟨by decide, f.head_open⟩

theorem paren_first (f : Frame) : (0x28 : UInt8) ∉ factoryMarker ++ f.neck := by
  rw [List.mem_append, not_or]
  exact ⟨by decide, f.neck_open⟩

end Frame

def describe (stamp : UInt64) (deps params : EntryList) (quote : Text) : Descriptor where
  kind := .bracketedFactory
  dependencyInsert := deps.insert
  parameterInsert := params.insert
  dependencies := deps.entries.map trim
  parameters := params.entries.map trim
  dependencyIndent := filler deps.entries
  parameterIndent := filler params.entries
  dependencyComma := deps.comma
  parameterComma := params.comma
  quote := quote
  semicolon := false
  version := stamp

/-- What is made of the two lists of a block.  `clear` says that only
separators stand between them. -/
def report (stamp : UInt64) (clear : Bool) (deps params : EntryList) :
    Except LocateError Descriptor := do
  if !clear then throw .malformed
  checkEntries (deps.entries.map trim) (params.entries.map trim)
  let quote ← quoteOf (deps.entries.map trim)
  return describe stamp deps params quote

theorem checkEntries_eq_ok_iff {dependencies parameters : List Text} :
    checkEntries dependencies parameters = .ok () ↔
      (∀ e ∈ dependencies, isLiteral e = true) ∧
      (∀ e ∈ parameters, isIdentifier e = true) ∧
      parameters.length = dependencies.length := by
  rw [checkEntries, ← List.all_eq_true, ← List.all_eq_true]
  cases dependencies.all isLiteral with
  | false => simp
  | true =>
      cases parameters.all isIdentifier with
      | false => simp
      | true =>
          by_cases aligned : parameters.length = dependencies.length
          · simp [aligned]
          · simp [aligned]

theorem report_eq_ok_iff {stamp : UInt64} {clear : Bool} {deps params : EntryList}
    {d : Descriptor} :
    report stamp clear deps params = .ok d ↔ clear = true ∧
      checkEntries (deps.entries.map trim) (params.entries.map trim) = .ok () ∧
      ∃ quote, quoteOf (deps.entries.map trim) = .ok quote ∧
      d = describe stamp deps params quote := by
  rw [report]
  cases clear with
  | false =>
      constructor
      · intro made
        cases made
      · rintro ⟨made, -⟩
        cases made
  | true =>
      constructor
      · intro made
        obtain ⟨⟨⟩, checked, made⟩ := exists_of_bind_eq_ok made
        obtain ⟨quote, quoteExact, made⟩ := exists_of_bind_eq_ok made
        exact ⟨rfl, checked, quote, quoteExact, (Except.ok.inj made).symm⟩
      · rintro ⟨-, checked, quote, quoteExact, rfl⟩
        simp only [checked, quoteExact, Bool.not_true, Bool.false_eq_true, if_false, bind,
          Except.bind]
        rfl

theorem isLiteral_cons {b : UInt8} {t : Text} (literal : isLiteral (b :: t) = true) :
    b = squote ∨ b = dquote := by
  rw [isLiteral, Bool.and_eq_true, Bool.or_eq_true, beq_iff_eq, beq_iff_eq] at literal
  exact literal.1

/-- The quote of a list of literals is that of its first one, also when further
ones follow that are written with it. -/
theorem quoteOf_spec {dependencies : List Text}
    (literals : ∀ e ∈ dependencies, isLiteral e = true) :
    ∃ q, (q = squote ∨ q = dquote) ∧ quoteOf dependencies = .ok [q] ∧
      ∀ t, quoteOf (dependencies ++ [q :: t]) = .ok [q] := by
  cases dependencies with
  | nil => exact ⟨squote, Or.inl rfl, rfl, fun _ => rfl⟩
  | cons first rest =>
      have literal := literals first (by simp)
      cases first with
      | nil => cases literal
      | cons q t => exact ⟨q, isLiteral_cons literal, rfl, fun _ => rfl⟩

theorem marker_ne_nil : defineMarker ≠ [] ∧ lf ∉ defineMarker ∧
    cr ∉ defineMarker := by decide

theorem factory_ne_nil : factoryMarker ≠ [] ∧ lf ∉ factoryMarker ∧
    cr ∉ factoryMarker := by decide

section Located

variable {b : Buffer}

theorem search_marker (f : Frame) (holds : b.lines = splitAt lf f.text) :
    b.search defineMarker ⟨0, 0⟩ = .ok (some (Position.after f.front)) := by
  have holdsMarker := holds
  rw [f.text_eq_deps, List.append_assoc, ← List.nil_append (f.front ++ _)] at holdsMarker
  rw [← Position.after_nil,
    Buffer.search_leads holdsMarker marker_ne_nil.1 marker_ne_nil.2.1 f.marker_first]
  rfl

theorem search_factory (f : Frame) (holds : b.lines = splitAt lf f.text) :
    b.search factoryMarker (Position.after (f.depsLead ++ 0x5B :: f.deps)) =
      .ok (some (Position.after f.factoryLead)) := by
  have holdsFactory : b.lines = splitAt lf (f.depsLead ++ 0x5B :: f.deps ++ (0x5D :: f.gap ++
      (factoryMarker ++ (f.neck ++ 0x28 :: (f.params ++ 0x29 :: f.tail))))) := by
    rw [holds, f.text_eq_depsTail]
    simp [Frame.depsTail]
  rw [Buffer.search_leads holdsFactory factory_ne_nil.1 factory_ne_nil.2.1 f.factory_first]
  simp [Frame.factoryLead]

/-- Reading a buffer that holds a frame is reading the two lists of the frame. -/
theorem locate_frame (f : Frame) (holds : b.lines = splitAt lf f.text) (stamp : UInt64) :
    ∃ deps params, b.Scanned f.depsLead 0x5B f.deps deps ∧
      b.Scanned f.paramsLead 0x28 f.params params ∧
      locate b stamp = report stamp (onlySeparators (b.withEnding f.gap)) deps params := by
  have holdsDeps := f.text_eq_deps ▸ holds
  have holdsParams := f.text_eq_params ▸ holds
  obtain ⟨deps, depsScan, depsScanned⟩ :=
    Buffer.scanned_scanList holdsDeps f.bracket_first f.deps_close (by decide) (by decide)
      (by decide)
  obtain ⟨params, paramsScan, paramsScanned⟩ :=
    Buffer.scanned_scanList holdsParams f.paren_first f.params_close (by decide) (by decide)
      (by decide)
  have start := search_marker f holds
  have closeAt : deps.close = Position.after (f.depsLead ++ 0x5B :: f.deps) := depsScanned.close
  have factory : b.seek factoryMarker deps.close = .ok (Position.after f.factoryLead) := by
    rw [closeAt, Buffer.seek, search_factory f holds]
  have gap : b.read ⟨deps.close.line, deps.close.column + 1⟩ (Position.after f.factoryLead) =
      .ok (b.withEnding f.gap) := by
    have holdsGap : b.lines = splitAt lf (f.depsLead ++ 0x5B :: f.deps ++ [0x5D] ++ (f.gap ++
        (factoryMarker ++ (f.neck ++ 0x28 :: (f.params ++ 0x29 :: f.tail))))) := by
      rw [holds, f.text_eq_depsTail]
      simp [Frame.depsTail]
    have behind : (⟨deps.close.line, deps.close.column + 1⟩ : Position) =
        Position.after (f.depsLead ++ 0x5B :: f.deps ++ [0x5D]) := by
      rw [closeAt, Position.after_concat (by decide)]
    have upTo : f.factoryLead = f.depsLead ++ 0x5B :: f.deps ++ [0x5D] ++ f.gap := by
      simp [Frame.factoryLead]
    rw [behind, upTo, Buffer.read, Buffer.textRange_after holdsGap]
  refine ⟨deps, params, depsScanned, paramsScanned, ?_⟩
  rw [locate, start]
  simp only [locateFactory, depsScan, factory, gap, paramsScan, bind, Except.bind]
  rfl

/-- A descriptor as it was read from a frame: the two lists are scanned, nothing
but separators stands between them, and they pass the checks. -/
structure Described (b : Buffer) (f : Frame) (deps params : EntryList) (quote : UInt8)
    (stamp : UInt64)
    (d : Descriptor) : Prop where
  depsScanned : b.Scanned f.depsLead 0x5B f.deps deps
  paramsScanned : b.Scanned f.paramsLead 0x28 f.params params
  clear : onlySeparators (b.withEnding f.gap) = true
  checked : checkEntries (deps.entries.map trim) (params.entries.map trim) = .ok ()
  quoteKind : quote = squote ∨ quote = dquote
  quoteStays : ∀ t, quoteOf (deps.entries.map trim ++ [quote :: t]) = .ok [quote]
  described : d = describe stamp deps params [quote]

theorem exists_described (f : Frame) (holds : b.lines = splitAt lf f.text) {stamp : UInt64}
    {d : Descriptor} (located : locate b stamp = .ok d) :
    ∃ deps params quote, Described b f deps params quote stamp d := by
  obtain ⟨deps, params, depsScanned, paramsScanned, read⟩ := locate_frame f holds stamp
  rw [read, report_eq_ok_iff] at located
  obtain ⟨clear, checked, quote, quoteExact, described⟩ := located
  obtain ⟨q, quoteKind, quoteFound, quoteStays⟩ :=
    quoteOf_spec (checkEntries_eq_ok_iff.mp checked).1
  obtain rfl : quote = [q] := Except.ok.inj (quoteExact.symm.trans quoteFound)
  exact ⟨deps, params, q, depsScanned, paramsScanned, clear, checked, quoteKind, quoteStays,
    described⟩

theorem locateImports_kind {stamp : UInt64} {d : Descriptor}
    (located : locateImports b stamp = .ok d) :
    d.kind = .lineImports := by
  rw [locateImports] at located
  cases last : (importsFrom 0 b.lines).getLast? with
  | none =>
      simp only [last] at located
      cases located
  | some row =>
      simp only [last] at located
      cases located
      rfl

theorem exists_list {P Q : Text} {opener closer : UInt8} {L : EntryList}
    (holds : b.lines = splitAt lf (P ++ Q)) (openerLine : opener ≠ lf)
    (closerLine : closer ≠ lf) (distinct : closer ≠ opener)
    (scan : b.scanList (Position.after P) opener closer = .ok L) :
    ∃ g inner tail, Q = g ++ opener :: (inner ++ closer :: tail) ∧ opener ∉ g ∧
      closer ∉ inner ∧
      b.Scanned (P ++ g) opener inner L := by
  have scanned := scan
  obtain ⟨first, openerSeek, scan⟩ := exists_of_bind_eq_ok scan
  obtain ⟨close, closerSeek, scan⟩ := exists_of_bind_eq_ok scan
  obtain ⟨g, rest, rfl, openerLeads, rfl⟩ :=
    Buffer.exists_of_seek holds (by simp) (by simp [Ne.symm openerLine]) openerSeek
  have holdsList : b.lines = splitAt lf (P ++ g ++ ([opener] ++ rest)) := by
    rw [holds, List.append_assoc]
  obtain ⟨lead, tail, cut, closerLeads, rfl⟩ :=
    Buffer.exists_of_seek holdsList (by simp) (by simp [Ne.symm closerLine]) closerSeek
  have openerApart := leads_singleton_iff.mp openerLeads
  have closerApart := leads_singleton_iff.mp closerLeads
  cases lead with
  | nil =>
      have same : opener = closer ∧ rest = tail := by simpa using cut
      exact absurd same.1.symm distinct
  | cons a inner =>
      obtain ⟨rfl, rfl⟩ : opener = a ∧ rest = inner ++ closer :: tail := by simpa using cut
      have innerApart : closer ∉ inner := fun member => closerApart (by simp [member])
      obtain ⟨L', again, scanned'⟩ :=
        Buffer.scanned_scanList holds openerApart innerApart distinct openerLine closerLine
      obtain rfl : L = L' := Except.ok.inj (scanned.symm.trans again)
      exact ⟨g, inner, tail, by simp, openerApart, innerApart, scanned'⟩

theorem exists_append_of_notMem {word tail g rest : Text} {c : UInt8} (apart : c ∉ word)
    (cut : word ++ tail = g ++ c :: rest) : ∃ h, g = word ++ h ∧ tail = h ++ c :: rest := by
  rcases List.append_eq_append_iff.mp cut with ⟨h, gCut, tailCut⟩ | ⟨h, wordCut, restCut⟩
  · exact ⟨h, gCut, tailCut⟩
  · cases h with
    | nil => exact ⟨[], by simpa using wordCut.symm, by simpa using restCut.symm⟩
    | cons a h =>
        have same : c = a := by simpa using congrArg List.head? restCut
        exact absurd (by simp [wordCut, same]) apart

/-- A buffer that is read as a factory block holds a frame. -/
theorem exists_frame (whole : b.Whole) {stamp : UInt64} {d : Descriptor}
    (located : locate b stamp = .ok d) (factory : d.kind = .bracketedFactory) :
    ∃ f : Frame, b.lines = splitAt lf f.text := by
  obtain ⟨t, holds⟩ := whole.exists_text
  have holdsMarker : b.lines = splitAt lf ([] ++ t) := holds
  rw [locate, ← Position.after_nil,
    Buffer.search_after holdsMarker marker_ne_nil.1 marker_ne_nil.2.1] at located
  cases place : indexOf? defineMarker t with
  | none =>
      rw [place] at located
      rw [locateImports_kind located] at factory
      cases factory
  | some i =>
      obtain ⟨front, rest, rfl, markerLeads, frontTake⟩ := exists_leads marker_ne_nil.1 place
      rw [place, Option.map_some, frontTake, List.nil_append] at located
      -- Every step of the reading that succeeds cuts off one more part of the frame.
      obtain ⟨deps, depsScan, located⟩ := exists_of_bind_eq_ok located
      obtain ⟨g, inner, rest', cut, openApart, closeApart, depsScanned⟩ :=
        exists_list holds (by decide) (by decide) (by decide) depsScan
      obtain ⟨head, rfl, rfl⟩ := exists_append_of_notMem (by decide) cut
      obtain ⟨factoryAt, factorySeek, located⟩ := exists_of_bind_eq_ok located
      have holdsClose : b.lines = splitAt lf (front ++ (defineMarker ++ head) ++ 0x5B :: inner ++
          0x5D :: rest') := by
        rw [holds]
        simp
      rw [depsScanned.close] at factorySeek
      obtain ⟨lead, rest'', leadCut, factoryLeads, rfl⟩ :=
        Buffer.exists_of_seek holdsClose factory_ne_nil.1 factory_ne_nil.2.1 factorySeek
      cases lead with
      | nil =>
          have factoryHead : factoryMarker.head? = some 0x66 := by decide
          have heads := congrArg List.head? leadCut
          rw [List.nil_append, List.head?_append, factoryHead] at heads
          exact absurd heads (by simp)
      | cons a gap =>
          obtain ⟨rfl, rfl⟩ : 0x5D = a ∧ rest' = gap ++ (factoryMarker ++ rest'') := by
            simpa using leadCut
          obtain ⟨gapText, -, located⟩ := exists_of_bind_eq_ok located
          have holdsFactory :
              b.lines = splitAt lf (front ++ (defineMarker ++ head) ++ 0x5B :: inner ++
              0x5D :: gap ++ (factoryMarker ++ rest'')) := by
            rw [holdsClose]
            simp
          split at located
          · cases located
          · obtain ⟨params, paramsScan, -⟩ := exists_of_bind_eq_ok located
            obtain ⟨g, inner', tail, cut', openApart', closeApart', -⟩ :=
              exists_list holdsFactory (by decide) (by decide) (by decide) paramsScan
            obtain ⟨neck, rfl, rfl⟩ := exists_append_of_notMem (by decide) cut'
            rw [List.mem_append, not_or] at openApart openApart'
            refine ⟨⟨front, head, inner, gap, neck, inner', tail, markerLeads, openApart.2,
              closeApart, factoryLeads, openApart'.2, closeApart'⟩, ?_⟩
            rw [holdsFactory]
            simp [Frame.text, Frame.paramsLead, Frame.factoryLead, Frame.depsLead]

end Located

end ModuleDeps
