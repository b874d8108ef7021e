import ModuleDeps.Proofs.Block.CommentFree
import ModuleDeps.Proofs.Block.Pieces
import ModuleDeps.Proofs.Staleness

/-!
# The block in a text without lines

In a text without `//` the factory block can be read off the bytes alone, with
no regard to lines and columns: `readFlat` cuts the text at the first marker,
bracket, factory and parenthesis in turn and takes the lists apart at commas
and line feeds.  Locating the block in a buffer gives what `readFlat` makes of
the rendered text, errors included: both stop at the same missing delimiter
(`Delimiting`), or read the lists of the same frame.
-/

set_option autoImplicit false

namespace ModuleDeps

open Text

/-! ## The reading -/

def demand (word t : Text) : Except LocateError (Text × Text) :=
  match cut? word t with
  | some parts => .ok parts
  | none => .error .notFound

/-- Every dependency is one literal, every parameter is an identifier, and there
are as many of one as of the other. -/
def checkLists (dependencies parameters : List Text) :
    Except LocateError (List Text × List Text) :=
  if ∀ e ∈ dependencies, IsLiteral e then
    if ∀ e ∈ parameters, isIdentifier e = true then
      if parameters.length = dependencies.length then .ok (dependencies, parameters)
      else .error .misaligned
    else .error .malformed
  else .error .malformed

/-- The dependencies and parameters of the factory block of a text. -/
def readFlat (t : Text) : Except LocateError (List Text × List Text) := do
  let (_, t) ← demand defineMarker t
  let (_, t) ← demand [0x5B] t
  let (deps, t) ← demand [0x5D] t
  let (gap, t) ← demand factoryMarker t
  if !(withoutBlocks gap).all isBetween then throw .malformed
  let (_, t) ← demand [0x28] t
  let (params, _) ← demand [0x29] t
  checkLists (pieces deps) (pieces params)

/-! ## Searching and cutting -/

namespace Buffer

theorem cut?_withEnding (b : Buffer) {word : Text}
    (word_ne : word ≠ [] ∧ lf ∉ word ∧ cr ∉ word) (t : Text) :
    cut? word (b.withEnding t) = (cut? word t).map (Prod.map b.withEnding b.withEnding) := by
  cases cut : cut? word t with
  | none =>
      rw [cut?_eq_none_iff word_ne.1] at cut
      rw [Option.map_none, cut?_eq_none_iff word_ne.1,
        (b.alikeFront_withEnding t).alike.infix_iff word_ne.1 word_ne.2.1 word_ne.2.2]
      exact cut
  | some parts =>
      obtain ⟨rfl, leads⟩ := exists_of_cut? word_ne.1 cut
      have leads' :=
        (b.alikeFront_withEnding parts.1).symm.leads word_ne.1 word_ne.2.1 word_ne.2.2 leads
      rw [withEnding_append, withEnding_append, withEnding_of_notMem b word_ne.2.1,
        cut?_of_leads word_ne.1 leads']
      rfl

section Seek

variable {b : Buffer} {X Y : Text} (holds : b.lines = splitAt lf (X ++ Y))
include holds

theorem seek_eq {word : Text} (nonempty : word ≠ []) (apart : lf ∉ word) :
    b.seek word (Position.after X) =
      match cut? word Y with
      | some parts => .ok (Position.after (X ++ parts.1))
      | none => .error .notFound := by
  rw [seek, search_after holds nonempty apart, cut?_eq nonempty]
  cases indexOf? word Y with
  | none => rfl
  | some i => rfl

theorem scanList_of_missing {opener closer : UInt8} (openerLine : opener ≠ lf)
    (closerLine : closer ≠ lf) (distinct : closer ≠ opener)
    (missing : ((cut? [opener] Y).bind fun parts => cut? [closer] parts.2) = none) :
    b.scanList (Position.after X) opener closer = .error .notFound := by
  rw [scanList, seek_eq holds (by simp) (by simp [Ne.symm openerLine])]
  cases opened : cut? [opener] Y with
  | none => rfl
  | some parts =>
      obtain ⟨g, rest⟩ := parts
      obtain ⟨rfl, -⟩ := exists_of_cut? (by simp) opened
      have holdsList : b.lines = splitAt lf (X ++ g ++ ([opener] ++ rest)) := by
        rw [holds, List.append_assoc]
      have unclosed : cut? [closer] ([opener] ++ rest) = none := by
        rw [opened, Option.bind_some] at missing
        rw [cut?_append_of_notMem (by simpa using distinct), missing]
        rfl
      have stop : b.seek [closer] (Position.after (X ++ g)) = .error .notFound := by
        rw [seek_eq holdsList (by simp) (by simp [Ne.symm closerLine]), unclosed]
      simp only [bind, Except.bind, stop]

end Seek

end Buffer

/-! ## The entries of a list -/

/-- Without comments only blanks stand behind an insert point. -/
theorem entries_append_slack {line body R : Text} {comma : Bool}
    (slack : Buffer.Slack line comma R) (free : ¬ lineComment <:+: line ++ R) :
    (splitEntries (body ++ R) [Text.comma]).map trim =
      (splitEntries body [Text.comma]).map trim := by
  cases slack with
  | none => rw [List.append_nil]
  | @lines r v rs whole vApart edge idle vBlank =>
      have lineFree : ¬ lineComment <:+: line ++ r := fun occurs =>
        free (occurs.trans ⟨[], lf :: (stacked rs ++ v), by simp⟩)
      have rBlank : ∀ a ∈ r, Buffer.isLineBlank a = true := by
        cases edge with
        | code blank cut =>
            rw [stripComment_of_notComment lineFree, List.append_cancel_left_eq] at cut
            rwa [cut]
        | comment empty _ _ => simp [empty]
      have rest : splitEntries (stacked rs ++ v) [Text.comma] = [] := by
        have none : rs.flatMap (lineEntries [Text.comma]) = [] := by
          rw [List.flatMap_eq_nil_iff]
          intro l member
          have lFree : ¬ lineComment <:+: l := by
            obtain ⟨before, after, rfl⟩ := List.append_of_mem member
            exact fun occurs => free (occurs.trans
              ⟨line ++ r ++ lf :: stacked before, lf :: (stacked after ++ v), by simp⟩)
          have blank := idle l member
          rw [stripComment_of_notComment lFree] at blank
          exact lineEntries_of_blanks blank
        rw [splitEntries_stacked (fun l member => whole l (by simp [member])) vApart, none,
          lineEntries_of_blanks vBlank]
        rfl
      rw [stacked_cons, List.append_assoc, List.cons_append, ← List.append_assoc,
        splitEntries_append_lf, rest, List.append_nil, splitEntries_append_blanks rBlank]

/-- A list of a buffer without comments has the pieces of its text as entries. -/
theorem entries_eq_pieces {b : Buffer} (free : b.CommentFree) {lead inner tail : Text}
    {opener closer : UInt8} {L : EntryList} (scanned : b.Scanned lead opener inner L)
    (holds : b.lines = splitAt lf (lead ++ opener :: inner ++ closer :: tail))
    (openVisible : isVisible opener = true) (openLine : opener ≠ lf) (closeLine : closer ≠ lf)
    (closeCode : closer ≠ slash ∧ isQuote closer = false) :
    L.entries.map trim = pieces (b.withEnding inner) := by
  obtain ⟨body, R, read⟩ :=
    scanned.exists_readTo (free.behind scanned holds openVisible openLine closeLine closeCode)
      openLine
  have textFree := (Buffer.commentFree_iff holds).mp free
  have innerFree : ¬ lineComment <:+: inner := fun occurs =>
    textFree (occurs.trans ⟨lead ++ [opener], closer :: tail, by simp⟩)
  have renderedFree : ¬ lineComment <:+: b.withEnding inner := by
    rwa [(b.alikeFront_withEnding inner).alike.infix_iff (by decide) (by decide) (by decide)]
  have slackFree : ¬ lineComment <:+: lastLine (lead ++ opener :: body) ++ R := by
    obtain ⟨above, v, whole, vApart, cut⟩ := exists_stacked (lead ++ opener :: body)
    rw [cut, lastLine_stacked whole vApart]
    refine fun occurs => textFree (occurs.trans ⟨stacked above, closer :: tail, ?_⟩)
    rw [← List.append_assoc, ← cut, read.cut]
    simp
  rw [read.trimmed, ← trim_splitEntries renderedFree, Buffer.entries_withEnding, read.cut,
    entries_append_slack read.slack slackFree]

theorem checkEntries_eq (dependencies parameters : List Text) :
    (checkEntries dependencies parameters).map (fun _ => (dependencies, parameters)) =
      checkLists dependencies parameters := by
  have literals : dependencies.all isLiteral = true ↔ ∀ e ∈ dependencies, IsLiteral e := by
    simp only [List.all_eq_true, isLiteral_iff]
  have names : parameters.all isIdentifier = true ↔ ∀ e ∈ parameters, isIdentifier e = true :=
    List.all_eq_true
  rw [checkEntries, checkLists]
  by_cases allLiterals : ∀ e ∈ dependencies, IsLiteral e
  · by_cases allNames : ∀ e ∈ parameters, isIdentifier e = true
    · rw [literals.mpr allLiterals, names.mpr allNames, if_pos allLiterals, if_pos allNames]
      by_cases aligned : parameters.length = dependencies.length <;> simp [aligned, Except.map]
    · have notAll : parameters.all isIdentifier = false :=
        Bool.eq_false_iff.mpr (mt names.mp allNames)
      rw [literals.mpr allLiterals, notAll, if_pos allLiterals, if_neg allNames]
      rfl
  · have notAll : dependencies.all isLiteral = false :=
      Bool.eq_false_iff.mpr (mt literals.mp allLiterals)
    rw [notAll, if_neg allLiterals]
    rfl

/-- What a descriptor says of a block apart from places. -/
def Descriptor.lists (d : Descriptor) : BlockKind × List Text × List Text :=
  (d.kind, d.dependencies, d.parameters)

theorem report_lists (stamp : UInt64) (clear : Bool) (deps params : EntryList) :
    (report stamp clear deps params).map Descriptor.lists =
      if clear then (checkLists (deps.entries.map trim) (params.entries.map trim)).map
        fun lists => (.bracketedFactory, lists)
      else .error .malformed := by
  rw [report, ← checkEntries_eq]
  cases clear with
  | false => rfl
  | true =>
      cases checked : checkEntries (deps.entries.map trim) (params.entries.map trim) with
      | error e => rfl
      | ok _ =>
          obtain ⟨q, -, quoted, -⟩ := quoteOf_spec (checkEntries_eq_ok_iff.mp checked).1
          simp only [bind, Except.bind, Bool.not_true, Bool.false_eq_true, if_false, quoted]
          rfl

/-! ## The whole reading -/

theorem leads_factory_iff {gap : Text} :
    Leads factoryMarker (0x5D :: gap) ↔ Leads factoryMarker gap := by
  have notHere : factoryMarker.isPrefixOf (0x5D :: (gap ++ factoryMarker)) = false := rfl
  rw [Leads, Leads, List.cons_append, indexOf?, notHere, if_neg (by simp)]
  simp

theorem cut?_bracket (t : Text) :
    cut? factoryMarker (0x5D :: t) = (cut? factoryMarker t).map fun parts =>
      (0x5D :: parts.1, parts.2) := by
  have notHere : factoryMarker.isPrefixOf (0x5D :: t) = false := rfl
  rw [cut?, notHere, if_neg (by simp)]

section Located

variable {b : Buffer} {front rest : Text}
  (holds : b.lines = splitAt lf (front ++ (defineMarker ++ rest)))

include holds in
theorem locateFactory_of_unlisted (stamp : UInt64)
    (missing : ((cut? [0x5B] rest).bind fun parts => cut? [0x5D] parts.2) = none) :
    locateFactory b stamp (Position.after front) = .error .notFound := by
  have unlisted :
      ((cut? [0x5B] (defineMarker ++ rest)).bind fun parts => cut? [0x5D] parts.2) = none := by
    rw [cut?_append_of_notMem (by decide), Option.bind_map]
    exact missing
  rw [locateFactory, Buffer.scanList_of_missing holds (by decide) (by decide) (by decide) unlisted]
  rfl

end Located

section Listed

variable {b : Buffer} {front head deps behind : Text} (headOpen : 0x5B ∉ head)
  (depsClose : 0x5D ∉ deps)
  (holds : b.lines = splitAt lf
    (front ++ ((defineMarker ++ head) ++ 0x5B :: (deps ++ 0x5D :: behind))))
include headOpen depsClose holds

theorem locateFactory_of_unnamed (stamp : UInt64) (missing : cut? factoryMarker behind = none) :
    locateFactory b stamp (Position.after front) = .error .notFound := by
  obtain ⟨L, scan, scanned⟩ := Buffer.scanned_scanList holds
    (by rw [List.mem_append, not_or]; exact ⟨by decide, headOpen⟩) depsClose (by decide)
      (by decide) (by decide)
  have holdsClose : b.lines =
      splitAt lf (front ++ (defineMarker ++ head) ++ 0x5B :: deps ++ 0x5D :: behind) := by
    rw [holds]
    simp
  have stop : b.seek factoryMarker L.close = .error .notFound := by
    rw [scanned.close, Buffer.seek_eq holdsClose factory_ne_nil.1 factory_ne_nil.2.1,
      cut?_bracket, missing]
    rfl
  rw [locateFactory, scan]
  simp only [bind, Except.bind, stop]

variable {gap tail : Text} (named : behind = gap ++ (factoryMarker ++ tail))
  (leads : Leads factoryMarker gap)
include named leads

/-- Behind the factory its list is missing, which is noticed once the text in
front of the factory is judged. -/
theorem locateFactory_of_bare (stamp : UInt64)
    (missing : ((cut? [0x28] tail).bind fun parts => cut? [0x29] parts.2) = none) :
    locateFactory b stamp (Position.after front) =
      if onlySeparators (b.withEnding gap) then .error .notFound else .error .malformed := by
  subst named
  obtain ⟨L, scan, scanned⟩ := Buffer.scanned_scanList holds
    (by rw [List.mem_append, not_or]; exact ⟨by decide, headOpen⟩) depsClose (by decide)
      (by decide) (by decide)
  generalize lead : front ++ (defineMarker ++ head) ++ 0x5B :: deps = X at scanned
  have holdsClose : b.lines = splitAt lf (X ++ (0x5D :: gap ++ (factoryMarker ++ tail))) := by
    rw [holds, ← lead]
    simp
  have holdsGap : b.lines = splitAt lf (X ++ [0x5D] ++ (gap ++ (factoryMarker ++ tail))) := by
    rw [holdsClose]
    simp
  have closeAt : L.close = Position.after X := lead ▸ scanned.close
  have found : b.seek factoryMarker L.close = .ok (Position.after (X ++ [0x5D] ++ gap)) := by
    rw [closeAt, Buffer.seek, Buffer.search_leads holdsClose factory_ne_nil.1 factory_ne_nil.2.1
      (leads_factory_iff.mpr leads)]
    simp
  have read : b.read ⟨L.close.line, L.close.column + 1⟩ (Position.after (X ++ [0x5D] ++ gap)) =
      .ok (b.withEnding gap) := by
    rw [closeAt, ← Position.after_concat (by decide : (0x5D : UInt8) ≠ lf), Buffer.read,
      Buffer.textRange_after holdsGap]
  have bare :
      ((cut? [0x28] (factoryMarker ++ tail)).bind fun parts => cut? [0x29] parts.2) = none := by
    rw [cut?_append_of_notMem (by decide), Option.bind_map]
    exact missing
  have holdsFactory : b.lines = splitAt lf (X ++ [0x5D] ++ gap ++ (factoryMarker ++ tail)) := by
    rw [holdsGap]
    simp
  have stop := Buffer.scanList_of_missing holdsFactory (by decide) (by decide) (by decide) bare
  rw [locateFactory, scan]
  simp only [bind, Except.bind, found, read, stop]
  cases onlySeparators (b.withEnding gap) with
  | false => rfl
  | true => rfl

end Listed

section Rendered

variable (b : Buffer) {word t : Text} (word_ne : word ≠ [] ∧ lf ∉ word ∧ cr ∉ word)
include word_ne

theorem Buffer.demand_of_none (cut : cut? word t = none) :
    demand word (b.withEnding t) = .error .notFound := by
  rw [demand, b.cut?_withEnding word_ne, cut]
  rfl

theorem Buffer.demand_of_some {front back : Text} (cut : cut? word t = some (front, back)) :
    demand word (b.withEnding t) = .ok (b.withEnding front, b.withEnding back) := by
  rw [demand, b.cut?_withEnding word_ne, cut]
  rfl

end Rendered

/-! ## How far a block is delimited -/

/-- How far the delimiters of a factory block are found in a text with the
marker: the list of paths, the factory or its list may be missing, and otherwise
the text is that of a frame. -/
inductive Delimiting : Text → Prop
  | unlisted {front rest : Text} : Leads defineMarker front →
      ((cut? [0x5B] rest).bind fun parts => cut? [0x5D] parts.2) = none →
      Delimiting (front ++ (defineMarker ++ rest))
  | unnamed {front head deps behind : Text} : Leads defineMarker front → 0x5B ∉ head →
      0x5D ∉ deps → cut? factoryMarker behind = none →
      Delimiting (front ++ ((defineMarker ++ head) ++ 0x5B :: (deps ++ 0x5D :: behind)))
  | bare {front head deps gap tail : Text} : Leads defineMarker front → 0x5B ∉ head →
      0x5D ∉ deps →
      Leads factoryMarker gap → ((cut? [0x28] tail).bind fun parts => cut? [0x29] parts.2) =
        none →
      Delimiting (front ++ ((defineMarker ++ head) ++ 0x5B ::
        (deps ++ 0x5D :: (gap ++ (factoryMarker ++ tail)))))
  | framed (f : Frame) : Delimiting f.text

theorem delimiting_of_marked {t : Text} (marked : defineMarker <:+: t) : Delimiting t := by
  cases marker : cut? defineMarker t with
  | none => exact absurd marked ((cut?_eq_none_iff marker_ne_nil.1).mp marker)
  | some parts =>
  obtain ⟨front, rest⟩ := parts
  obtain ⟨rfl, markerLeads⟩ := exists_of_cut? marker_ne_nil.1 marker
  cases paths : (cut? [0x5B] rest).bind fun parts => cut? [0x5D] parts.2 with
  | none => exact .unlisted markerLeads paths
  | some parts =>
  obtain ⟨deps, behind⟩ := parts
  obtain ⟨⟨head, inner⟩, openBracket, closeBracket⟩ := Option.bind_eq_some_iff.mp paths
  obtain ⟨rfl, headLeads⟩ := exists_of_cut? (by decide) openBracket
  obtain ⟨rfl, depsLeads⟩ := exists_of_cut? (by decide) closeBracket
  have headOpen := leads_singleton_iff.mp headLeads
  have depsClose := leads_singleton_iff.mp depsLeads
  rw [← List.append_assoc defineMarker]
  cases factory : cut? factoryMarker behind with
  | none => exact .unnamed markerLeads headOpen depsClose factory
  | some parts =>
  obtain ⟨gap, tail⟩ := parts
  obtain ⟨rfl, factoryLeads⟩ := exists_of_cut? factory_ne_nil.1 factory
  cases names : (cut? [0x28] tail).bind fun parts => cut? [0x29] parts.2 with
  | none => exact .bare markerLeads headOpen depsClose factoryLeads names
  | some parts =>
  obtain ⟨params, last⟩ := parts
  obtain ⟨⟨neck, inside⟩, openParen, closeParen⟩ := Option.bind_eq_some_iff.mp names
  obtain ⟨rfl, neckLeads⟩ := exists_of_cut? (by decide) openParen
  obtain ⟨rfl, paramsLeads⟩ := exists_of_cut? (by decide) closeParen
  let f : Frame := ⟨front, head, deps, gap, neck, params, last, markerLeads, headOpen, depsClose,
    leads_factory_iff.mpr factoryLeads, leads_singleton_iff.mp neckLeads,
    leads_singleton_iff.mp paramsLeads⟩
  have cut := f.text_eq_deps ▸ Delimiting.framed f
  exact cut

theorem locate_of_marker {b : Buffer} {front rest : Text}
    (holds : b.lines = splitAt lf (front ++ (defineMarker ++ rest)))
    (leads : Leads defineMarker front) (stamp : UInt64) :
    locate b stamp = locateFactory b stamp (Position.after front) := by
  have start : b.lines = splitAt lf ([] ++ (front ++ (defineMarker ++ rest))) := holds
  rw [locate, ← Position.after_nil,
    Buffer.search_leads start marker_ne_nil.1 marker_ne_nil.2.1 leads]
  rfl

section Flat

variable (b : Buffer) {front : Text} (markerLeads : Leads defineMarker front)
include markerLeads

theorem readFlat_of_unlisted {rest : Text}
    (missing : ((cut? [0x5B] rest).bind fun parts => cut? [0x5D] parts.2) = none) :
    readFlat (b.withEnding (front ++ (defineMarker ++ rest))) = .error .notFound := by
  have flatMarker := b.demand_of_some marker_ne_nil (cut?_of_leads marker_ne_nil.1 markerLeads rest)
  cases openBracket : cut? [0x5B] rest with
  | none =>
      have flatOpen := b.demand_of_none (by decide) openBracket
      simp only [readFlat, bind, Except.bind, flatMarker, flatOpen]
  | some parts =>
      rw [openBracket] at missing
      have flatOpen := b.demand_of_some (by decide) openBracket
      have flatClose := b.demand_of_none (by decide) missing
      simp only [readFlat, bind, Except.bind, flatMarker, flatOpen, flatClose]

variable {head deps : Text} (headOpen : 0x5B ∉ head) (depsClose : 0x5D ∉ deps)
include headOpen depsClose

theorem readFlat_of_listed (behind : Text) :
    readFlat (b.withEnding (front ++
      ((defineMarker ++ head) ++ 0x5B :: (deps ++ 0x5D :: behind)))) = (do
      let (gap, t) ← demand factoryMarker (b.withEnding behind)
      if !(withoutBlocks gap).all isBetween then throw .malformed
      let (_, t) ← demand [0x28] t
      let (params, _) ← demand [0x29] t
      checkLists (pieces (b.withEnding deps)) (pieces params)) := by
  have flatMarker := b.demand_of_some marker_ne_nil
    (cut?_of_leads marker_ne_nil.1 markerLeads (head ++ 0x5B :: (deps ++ 0x5D :: behind)))
  have flatOpen := b.demand_of_some (by decide)
    (cut?_of_leads (by decide) (leads_singleton_iff.mpr headOpen) (deps ++ 0x5D :: behind))
  have flatClose := b.demand_of_some (by decide)
    (cut?_of_leads (by decide) (leads_singleton_iff.mpr depsClose) behind)
  simp only [List.cons_append, List.nil_append] at flatOpen flatClose
  rw [List.append_assoc defineMarker]
  simp only [readFlat, bind, Except.bind, flatMarker, flatOpen, flatClose]

variable {gap : Text} (factoryLeads : Leads factoryMarker gap)
include factoryLeads

theorem readFlat_of_bare {tail : Text}
    (missing : ((cut? [0x28] tail).bind fun parts => cut? [0x29] parts.2) = none) :
    readFlat (b.withEnding (front ++ ((defineMarker ++ head) ++ 0x5B :: (deps ++ 0x5D ::
        (gap ++ (factoryMarker ++ tail)))))) =
      if (withoutBlocks (b.withEnding gap)).all isBetween then .error .notFound else .error
        .malformed := by
  have flatFactory :=
    b.demand_of_some factory_ne_nil (cut?_of_leads factory_ne_nil.1 factoryLeads tail)
  rw [readFlat_of_listed b markerLeads headOpen depsClose]
  simp only [bind, Except.bind, flatFactory]
  cases openParen : cut? [0x28] tail with
  | none =>
      simp only [b.demand_of_none (by decide) openParen]
      cases (withoutBlocks (b.withEnding gap)).all isBetween <;> rfl
  | some parts =>
      rw [openParen] at missing
      simp only [b.demand_of_some (by decide) openParen, b.demand_of_none (by decide) missing]
      cases (withoutBlocks (b.withEnding gap)).all isBetween <;> rfl

end Flat

theorem readFlat_of_frame (b : Buffer) (f : Frame) :
    readFlat (b.withEnding f.text) =
      if (withoutBlocks (b.withEnding f.gap)).all isBetween
      then checkLists (pieces (b.withEnding f.deps)) (pieces (b.withEnding f.params))
      else .error .malformed := by
  have flatFactory := b.demand_of_some factory_ne_nil (cut?_of_leads factory_ne_nil.1
    (leads_factory_iff.mp f.factory_first) (f.neck ++ ([0x28] ++ (f.params ++ ([0x29] ++ f.tail)))))
  have flatParen := b.demand_of_some (by decide) (cut?_of_leads (by decide)
    (leads_singleton_iff.mpr f.neck_open) (f.params ++ ([0x29] ++ f.tail)))
  have flatEnd := b.demand_of_some (by decide) (cut?_of_leads (by decide)
    (leads_singleton_iff.mpr f.params_close) f.tail)
  simp only [List.cons_append, List.nil_append] at flatFactory flatParen flatEnd
  rw [f.text_eq_deps, readFlat_of_listed b f.marker_first f.head_open f.deps_close]
  simp only [bind, Except.bind, flatFactory, flatParen, flatEnd]
  cases (withoutBlocks (b.withEnding f.gap)).all isBetween <;> rfl

/-- In a text without `//` the separators are what is left without the block
comments. -/
theorem Buffer.CommentFree.onlySeparators_eq {b : Buffer} (free : b.CommentFree) {t gap : Text}
    (holds : b.lines = splitAt lf t) (inside : gap <:+: t) :
    onlySeparators (b.withEnding gap) = (withoutBlocks (b.withEnding gap)).all isBetween := by
  apply onlySeparators_of_free
  rw [(b.alikeFront_withEnding gap).alike.infix_iff (by decide) (by decide) (by decide)]
  exact fun occurs => (Buffer.commentFree_iff holds).mp free (occurs.trans inside)

theorem locate_flat {b : Buffer} {t : Text} (holds : b.lines = splitAt lf t) (stamp : UInt64)
    (marked : defineMarker <:+: t) (free : b.CommentFree) :
    (locate b stamp).map Descriptor.lists =
      (readFlat (b.withEnding t)).map fun lists => (.bracketedFactory, lists) := by
  cases delimiting_of_marked marked with
  | unlisted markerLeads missing =>
      rw [locate_of_marker holds markerLeads, locateFactory_of_unlisted holds stamp missing,
        readFlat_of_unlisted b markerLeads missing]
      rfl
  | unnamed markerLeads headOpen depsClose missing =>
      rw [locate_of_marker (List.append_assoc defineMarker .. ▸ holds) markerLeads,
        locateFactory_of_unnamed headOpen depsClose holds stamp missing,
        readFlat_of_listed b markerLeads headOpen depsClose]
      simp only [bind, Except.bind, b.demand_of_none factory_ne_nil missing]
      rfl
  | @bare front head deps gap tail markerLeads headOpen depsClose factoryLeads missing =>
      have inside : gap <:+: front ++ ((defineMarker ++ head) ++ 0x5B :: (deps ++ 0x5D ::
          (gap ++ (factoryMarker ++ tail)))) :=
        ⟨front ++ (defineMarker ++ head) ++ 0x5B :: deps ++ [0x5D],
          factoryMarker ++ tail, by simp⟩
      rw [locate_of_marker (List.append_assoc defineMarker .. ▸ holds) markerLeads,
        locateFactory_of_bare headOpen depsClose holds rfl factoryLeads stamp missing,
        readFlat_of_bare b markerLeads headOpen depsClose factoryLeads missing,
        free.onlySeparators_eq holds inside]
      cases (withoutBlocks (b.withEnding gap)).all isBetween <;> rfl
  | framed f =>
      have inside : f.gap <:+: f.text := ⟨f.depsLead ++ 0x5B :: f.deps ++ [0x5D],
        factoryMarker ++ (f.neck ++ 0x28 :: (f.params ++ 0x29 :: f.tail)),
        by simp [f.text_eq_depsTail, Frame.depsTail]⟩
      obtain ⟨L, M, depsScanned, paramsScanned, read⟩ := locate_frame f holds stamp
      have depsPieces :=
        entries_eq_pieces free depsScanned (f.text_eq_depsTail ▸ holds) (by decide) (by decide)
        (by decide) (by decide)
      have paramsPieces :=
        entries_eq_pieces free paramsScanned (f.text_eq_paramsTail ▸ holds) (by decide)
        (by decide) (by decide) (by decide)
      rw [read, report_lists, depsPieces, paramsPieces, readFlat_of_frame,
        free.onlySeparators_eq holds inside]
      cases (withoutBlocks (b.withEnding f.gap)).all isBetween <;> rfl

/-- Locating the block of a buffer without `//` is reading the block of its text. -/
theorem locate_eq_readFlat (t : Text) (past : List Batch) (stamp : UInt64)
    (marked : defineMarker <:+: (reached t past).text)
    (free : ¬ lineComment <:+: (reached t past).text) :
    (locate (reached t past) stamp).map Descriptor.lists =
      (readFlat (reached t past).text).map fun lists => (.bracketedFactory, lists) := by
  have whole : (reached t past).Whole := (Buffer.whole_ofText t).attemptAll past
  obtain ⟨u, holds⟩ := whole.exists_text
  have alike := ((reached t past).alikeFront_withEnding u).alike
  rw [Buffer.text_eq holds] at marked free ⊢
  rw [alike.infix_iff marker_ne_nil.1 marker_ne_nil.2.1 marker_ne_nil.2.2] at marked
  rw [alike.infix_iff (by decide) (by decide) (by decide)] at free
  exact locate_flat holds stamp marked ((Buffer.commentFree_iff holds).mpr free)

/-- Line ends of two bytes, a hole in a list and a block comment between the
lists. -/
theorem locate_eq_readFlat_crlf :
    (readFlat
      (reached (utf8 "sap.ui.define([ 'x/a' , ,\r\n\t\"y\"\r\n], /* f */ function (A,\r\nB) \x7b")
      []).text).map
        (fun lists => (BlockKind.bracketedFactory, lists)) =
      .ok (.bracketedFactory, [utf8 "'x/a'", utf8 "\"y\""], [utf8 "A", utf8 "B"]) := by
  rw [← locate_eq_readFlat _ [] 0
    ((contains_iff_isInfix marker_ne_nil.1 _).mp (by decide +kernel))
    (mt (contains_iff_isInfix (by decide) _).mpr (by decide +kernel))]
  decide +kernel

end ModuleDeps
