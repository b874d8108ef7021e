import ModuleDeps.Proofs.Block.Frame
import ModuleDeps.Proofs.Block.Grammar

/-!
# The pieces of a block in flat text

What the reading of a block does line by line can be said of the bytes alone: a
text is cut at the first occurrence of a word (`cut?`), block comments are
taken out (`withoutBlocks`), and in text without `//` the entries are the
pieces between commas and line feeds (`trim_splitEntries`).
-/

set_option autoImplicit false

namespace ModuleDeps

open Text

/-! ## Cutting at the first occurrence -/

namespace Text

/-- What stands in front of the first occurrence of `needle` and what follows
it. -/
def cut? (needle : Text) : Text → Option (Text × Text)
  | [] => none
  | b :: rest =>
    if needle.isPrefixOf (b :: rest) then some ([], (b :: rest).drop needle.length)
    else (cut? needle rest).map fun parts => (b :: parts.1, parts.2)

section Cut

variable {needle : Text} (nonempty : needle ≠ [])
include nonempty

theorem cut?_eq (t : Text) :
    cut? needle t = (indexOf? needle t).map fun i => (t.take i, t.drop (i + needle.length)) := by
  induction t with
  | nil => simp [cut?, indexOf?, nonempty]
  | cons b rest ih =>
      rw [cut?, indexOf?]
      split
      · simp
      · rw [ih, Option.map_map, Option.map_map]
        congr 1
        funext i
        simp [Nat.add_right_comm]

theorem cut?_of_leads {lead : Text} (leads : Leads needle lead) (tail : Text) :
    cut? needle (lead ++ (needle ++ tail)) = some (lead, tail) := by
  rw [cut?_eq nonempty, leads.indexOf? nonempty]
  simp [← List.drop_drop]

theorem exists_of_cut? {t front back : Text} (cut : cut? needle t = some (front, back)) :
    t = front ++ (needle ++ back) ∧ Leads needle front := by
  rw [cut?_eq nonempty] at cut
  obtain ⟨i, found, parts⟩ := Option.map_eq_some_iff.mp cut
  obtain ⟨lead, tail, rfl, leads, leadTake⟩ := exists_leads nonempty found
  rw [leads.indexOf? nonempty] at found
  obtain rfl := Option.some.inj found
  obtain ⟨rfl, rfl⟩ := Prod.mk.inj parts
  rw [List.take_left, ← List.drop_drop, List.drop_left, List.drop_left]
  exact ⟨rfl, leads⟩

theorem cut?_eq_none_iff {t : Text} : cut? needle t = none ↔ ¬ needle <:+: t := by
  rw [cut?_eq nonempty, Option.map_eq_none_iff, indexOf?_eq_none_iff nonempty]

end Cut

theorem cut?_append_of_notMem {c : UInt8} {word : Text} (apart : c ∉ word) (t : Text) :
    cut? [c] (word ++ t) = (cut? [c] t).map fun parts => (word ++ parts.1, parts.2) := by
  induction word with
  | nil => simp
  | cons b word ih =>
      have notHere : ¬ [c].isPrefixOf (b :: (word ++ t)) = true := by
        simp only [List.isPrefixOf, Bool.and_true, beq_iff_eq]
        rintro rfl
        exact apart (by simp)
      rw [List.cons_append, cut?, if_neg notHere, ih fun member => apart (by simp [member]),
        Option.map_map]
      rfl

end Text

/-! ## Block comments -/

/-- The first block comment of a text cuts it in two. -/
def cutBlock? (t : Text) : Option (Text × Text) :=
  (cut? blockOpen t).bind fun opened =>
    (cut? blockClose opened.2).map fun closed => (opened.1, closed.2)

theorem exists_of_cutBlock? {t front rest : Text} (cut : cutBlock? t = some (front, rest)) :
    ∃ body, t = front ++ (blockOpen ++ (body ++ (blockClose ++ rest))) ∧
      cut? blockOpen t = some (front, body ++ (blockClose ++ rest)) ∧
      cut? blockClose (body ++ (blockClose ++ rest)) = some (body, rest) := by
  obtain ⟨⟨front', behind⟩, opened, cut⟩ := Option.bind_eq_some_iff.mp cut
  obtain ⟨⟨body, rest'⟩, closed, parts⟩ := Option.map_eq_some_iff.mp cut
  obtain ⟨rfl, rfl⟩ := Prod.mk.inj parts
  obtain ⟨rfl, -⟩ := exists_of_cut? (by decide) closed
  exact ⟨body, (exists_of_cut? (by decide) opened).1, opened, closed⟩

def withoutBlocks (t : Text) : Text :=
  match _cut : cutBlock? t with
  | none => t
  | some (front, rest) => front ++ withoutBlocks rest
termination_by t.length
decreasing_by
  obtain ⟨body, whole, -⟩ := exists_of_cutBlock? _cut
  simp only [whole, List.length_append, blockOpen, List.length_cons]
  omega

theorem withoutBlocks_of_none {t : Text} (none : cutBlock? t = none) : withoutBlocks t = t := by
  rw [withoutBlocks]
  split
  · rfl
  · rename_i some
    rw [none] at some
    cases some

theorem withoutBlocks_of_some {t front rest : Text} (cut : cutBlock? t = some (front, rest)) :
    withoutBlocks t = front ++ withoutBlocks rest := by
  rw [withoutBlocks]
  split
  · rename_i none
    rw [none] at cut
    cases cut
  · rename_i front' rest' some
    rw [some] at cut
    obtain ⟨rfl, rfl⟩ := Prod.mk.inj (Option.some.inj cut)
    rfl

theorem dropBlocks_of_cut? (t : Text) :
    (cut? blockOpen t = none → dropBlocksFrom 0 t = t) ∧
      ∀ front rest, cut? blockOpen t = some (front, rest) →
        dropBlocksFrom 0 t = front ++ dropBlocksFrom 0 (blockOpen ++ rest) := by
  induction t with
  | nil =>
      refine ⟨fun _ => rfl, ?_⟩
      intro front rest cut
      cases cut
  | cons b t ih =>
      rw [cut?]
      split
      · rename_i starts
        constructor
        · intro cut
          cases cut
        · intro front rest cut
          obtain ⟨tail, whole⟩ := List.isPrefixOf_iff_prefix.mp starts
          rw [← whole, List.drop_left] at cut
          cases cut
          rw [← whole, List.nil_append]
      · rename_i code
        have kept : dropBlocksFrom 0 (b :: t) = b :: dropBlocksFrom 0 t := by
          rw [dropBlocksFrom, if_neg code]
        constructor
        · intro none
          rw [kept, ih.1 (Option.map_eq_none_iff.mp none)]
        · intro front rest cut
          obtain ⟨⟨front', rest'⟩, found, parts⟩ := Option.map_eq_some_iff.mp cut
          obtain ⟨rfl, rfl⟩ := Prod.mk.inj parts
          rw [kept, ih.2 front' rest' found, List.cons_append]

theorem dropBlocks_of_unclosed {t : Text} (unclosed : ¬ blockClose <:+: t) :
    dropBlocksFrom 0 t = t := by
  induction t with
  | nil => rfl
  | cons b t ih =>
      have rest := ih fun occurs => unclosed (List.infix_cons occurs)
      rw [dropBlocksFrom]
      split
      · have none : indexOf? blockClose (t.drop 1) = none := by
          rw [indexOf?_eq_none_iff (by decide)]
          exact fun occurs =>
            unclosed (List.infix_cons (occurs.trans (List.drop_suffix 1 t).isInfix))
        rw [none]
        exact congrArg (b :: ·) rest
      · exact congrArg (b :: ·) rest

theorem dropBlockComments_eq (t : Text) : dropBlockComments t = withoutBlocks t := by
  rw [dropBlockComments]
  -- A step takes out the first block comment; the induction is on what follows it.
  induction size : t.length using Nat.strong_induction_on generalizing t with
  | _ n ih =>
      cases opened : cut? blockOpen t with
      | none =>
          have none : cutBlock? t = none := by
            rw [cutBlock?, opened]
            rfl
          rw [(dropBlocks_of_cut? t).1 opened, withoutBlocks_of_none none]
      | some parts =>
          obtain ⟨front, rest⟩ := parts
          have kept := (dropBlocks_of_cut? t).2 front rest opened
          have comment : dropBlocksFrom 0 (blockOpen ++ rest) = _ := dropBlocks_comment rest
          cases closed : cut? blockClose rest with
          | none =>
              have none : cutBlock? t = none := by
                rw [cutBlock?, opened, Option.bind_some, closed]
                rfl
              have unclosed := (cut?_eq_none_iff (by decide)).mp closed
              rw [(indexOf?_eq_none_iff (by decide)).mpr unclosed] at comment
              rw [kept, comment, dropBlocks_of_unclosed unclosed, withoutBlocks_of_none none]
              exact (exists_of_cut? (by decide) opened).1.symm
          | some parts =>
              obtain ⟨body, rest'⟩ := parts
              have some : cutBlock? t = some (front, rest') := by
                rw [cutBlock?, opened, Option.bind_some, closed]
                rfl
              obtain ⟨rfl, leads⟩ := exists_of_cut? (by decide) closed
              rw [leads.indexOf? (by decide)] at comment
              have passed : (body ++ (blockClose ++ rest')).drop (body.length + 2) = rest' := by
                rw [← List.drop_drop, List.drop_left]
                rfl
              simp only [passed] at comment
              have shorter : rest'.length < n := by
                rw [← size, (exists_of_cut? (by decide) opened).1]
                simp only [List.length_append, blockOpen, List.length_cons]
                omega
              rw [kept, comment, ih _ shorter rest' rfl, withoutBlocks_of_some some]

/-- Taking block comments out of a text without line comments makes none: no
slash stands in front of a block comment. -/
theorem withoutBlocks_free {t : Text} (free : ¬ lineComment <:+: t) :
    ¬ lineComment <:+: withoutBlocks t := by
  induction size : t.length using Nat.strong_induction_on generalizing t with
  | _ n ih =>
      cases cut : cutBlock? t with
      | none => rwa [withoutBlocks_of_none cut]
      | some parts =>
          obtain ⟨front, rest⟩ := parts
          obtain ⟨body, rfl, -⟩ := exists_of_cutBlock? cut
          rw [withoutBlocks_of_some cut]
          have restFree : ¬ lineComment <:+: withoutBlocks rest := by
            refine ih rest.length ?_ (fun occurs => free (occurs.trans ?_)) rfl
            · rw [← size]
              simp only [List.length_append, blockOpen, List.length_cons]
              omega
            · exact ⟨front ++ (blockOpen ++ (body ++ blockClose)), [], by simp⟩
          cases last : front.getLast? with
          | none =>
              rw [List.getLast?_eq_none_iff.mp last]
              exact restFree
          | some c =>
              obtain ⟨init, rfl⟩ := List.getLast?_eq_some_iff.mp last
              have notSlash : c ≠ slash := by
                rintro rfl
                exact free ⟨init, star :: (body ++ (blockClose ++ rest)),
                  by simp [lineComment, blockOpen]⟩
              have apart : c ∉ lineComment := by simp [lineComment, notSlash]
              rw [List.append_assoc, List.singleton_append,
                infix_append_sep_iff (by decide) apart, not_or]
              refine ⟨fun occurs => free (occurs.trans ?_), restFree⟩
              exact ⟨[], [c] ++ (blockOpen ++ (body ++ (blockClose ++ rest))), by simp⟩

/-! ## What may stand between the lists -/

/-- Commas, spaces, tabs and line ends. -/
def isBetween (b : UInt8) : Bool := b == comma || b == space || b == tab || b == cr || b == lf

theorem all_isBetween (t : Text) :
    t.all isBetween = (splitAt lf t).all fun line => line.all isSeparator := by
  have onLine {b : UInt8} (notLf : b ≠ lf) : isBetween b = isSeparator b := by
    simp [isBetween, isSeparator, notLf]
  have feed : isBetween lf = true := by decide
  obtain ⟨lines, v, whole, apart, rfl⟩ := exists_stacked t
  have lineSame {l : Text} (lineApart : lf ∉ l) : l.all isBetween = l.all isSeparator := by
    rw [Bool.eq_iff_iff, List.all_eq_true, List.all_eq_true]
    refine forall₂_congr fun b member => ?_
    rw [onLine fun isLf => lineApart (isLf ▸ member)]
  rw [splitAt_stacked whole, splitAt_of_notMem apart, List.all_append, List.all_append,
    lineSame apart]
  congr 1
  · induction lines with
    | nil => rfl
    | cons l lines ih =>
        rw [stacked_cons, List.all_append, List.all_cons, List.all_cons, feed, Bool.true_and,
          lineSame (whole l (by simp)), ih fun x member => whole x (by simp [member])]
  · simp

theorem onlySeparators_of_free {t : Text} (free : ¬ lineComment <:+: t) :
    onlySeparators t = (withoutBlocks t).all isBetween := by
  have code := withoutBlocks_free free
  rw [infix_iff_exists_line (by decide) (by decide)] at code
  rw [onlySeparators, dropBlockComments_eq, all_isBetween, Bool.eq_iff_iff, List.all_eq_true,
    List.all_eq_true]
  refine forall₂_congr fun line member => ?_
  rw [stripComment_of_notComment fun occurs => code ⟨line, member, occurs⟩]

/-! ## The entries -/

/-- The trimmed pieces between commas and line feeds, without the blank ones. -/
def pieces (t : Text) : List Text :=
  ((t.splitOnP fun b => b == comma || b == lf).map trim).filter fun piece => !piece.isEmpty

theorem splitOnP_eq_flatMap (t : Text) :
    (t.splitOnP fun b => b == comma || b == lf) = (splitAt lf t).flatMap (splitAt comma) := by
  induction t with
  | nil => rfl
  | cons b t ih =>
      obtain ⟨line, lines, cut⟩ := List.exists_cons_of_ne_nil (splitAt_ne_nil lf t)
      obtain ⟨piece, more, cutLine⟩ := List.exists_cons_of_ne_nil (splitAt_ne_nil comma line)
      rw [List.splitOnP_cons_eq_if_modifyHead, ih, splitAt, cut]
      by_cases isLf : b = lf
      · simp [isLf, splitAt]
      · by_cases isComma : b = comma
        · simp [isComma, splitAt, show comma ≠ lf by decide]
        · simp [isLf, isComma, splitAt, cutLine]

theorem isComment_of_free {t : Text} (free : ¬ lineComment <:+: t) : isComment t = false :=
  isComment_of_code (stripComment_of_notComment free)

theorem trim_splitEntries {t : Text} (free : ¬ lineComment <:+: t) :
    (splitEntries t [comma]).map trim = pieces t := by
  rw [splitEntries, pieces, splitOnP_eq_flatMap, List.map_flatMap, List.map_flatMap,
    List.filter_flatMap]
  apply List.flatMap_congr
  intro line member
  have lineFree : ¬ lineComment <:+: line :=
    fun occurs => free (occurs.trans (isInfix_of_mem_splitAt member))
  rw [lineEntries_comma, isComment_of_free lineFree, if_neg (by simp),
    stripComment_of_notComment lineFree, List.filter_map]
  congr 1
  apply List.filter_congr
  intro piece pieceMember
  have notComment : isComment piece = false :=
    isComment_of_free fun occurs => lineFree (occurs.trans (isInfix_of_mem_splitAt pieceMember))
  simp [isEntry, notComment, isBlank]

/-! ## Literals -/

/-- Between the quotes `q`: plain bytes and escapes of any byte but a line feed. -/
inductive Quoted (q : UInt8) : Text → Prop
  | nil : Quoted q []
  | byte {b : UInt8} {t : Text} : b ≠ q → b ≠ backslash → Quoted q t → Quoted q (b :: t)
  | escape {c : UInt8} {t : Text} : c ≠ lf → Quoted q t → Quoted q (backslash :: c :: t)

/-- One literal between two single or two double quotes. -/
def IsLiteral (t : Text) : Prop :=
  ∃ q body, (q = squote ∨ q = dquote) ∧ Quoted q body ∧ t = q :: (body ++ [q])

theorem closesLiteral_of_quoted {q : UInt8} (notEscape : q ≠ backslash) {body : Text}
    (quoted : Quoted q body) : closesLiteral q (body ++ [q]) = true := by
  induction quoted with
  | nil => simp [closesLiteral, notEscape]
  | byte notQuote notBackslash _ ih =>
      rw [List.cons_append, closesLiteral.eq_def]
      simp only [if_neg notBackslash, if_neg notQuote, ih]
  | escape notLf _ ih =>
      rw [List.cons_append, List.cons_append, closesLiteral, if_pos rfl, ih]
      simp [notLf]

theorem exists_of_closesLiteral {q : UInt8} : ∀ (n : Nat) {t : Text}, t.length = n →
    closesLiteral q t = true → ∃ body, Quoted q body ∧ t = body ++ [q] := by
  intro n
  induction n using Nat.strong_induction_on with
  | _ n ih =>
      intro t size closes
      cases t with
      | nil => cases closes
      | cons b rest =>
          rw [closesLiteral.eq_def] at closes
          simp only at closes
          rw [List.length_cons] at size
          split at closes
          · rename_i isBackslash
            cases rest with
            | nil => cases closes
            | cons c rest =>
                rw [List.length_cons] at size
                simp only [Bool.and_eq_true, bne_iff_ne] at closes
                obtain ⟨body, quoted, rfl⟩ := ih rest.length (by omega) rfl closes.2
                exact ⟨b :: c :: body, isBackslash ▸ Quoted.escape closes.1 quoted, rfl⟩
          · rename_i notBackslash
            split at closes
            · rename_i isQuote
              obtain rfl : rest = [] := by simpa using closes
              exact ⟨[], Quoted.nil, by simp [isQuote]⟩
            · rename_i notQuote
              obtain ⟨body, quoted, rfl⟩ := ih rest.length (by omega) rfl closes
              exact ⟨b :: body, Quoted.byte notQuote notBackslash quoted, rfl⟩

theorem isLiteral_iff {t : Text} : isLiteral t = true ↔ IsLiteral t := by
  constructor
  · intro literal
    cases t with
    | nil => cases literal
    | cons q rest =>
        have quote := isLiteral_cons literal
        rw [isLiteral, Bool.and_eq_true] at literal
        obtain ⟨body, quoted, rfl⟩ := exists_of_closesLiteral rest.length rfl literal.2
        exact ⟨q, body, quote, quoted, rfl⟩
  · rintro ⟨q, body, quote, quoted, rfl⟩
    have notEscape : q ≠ backslash := by rcases quote with rfl | rfl <;> decide
    rw [isLiteral, closesLiteral_of_quoted notEscape quoted]
    rcases quote with rfl | rfl <;> rfl

instance (t : Text) : Decidable (IsLiteral t) := decidable_of_iff (isLiteral t = true) isLiteral_iff

end ModuleDeps
