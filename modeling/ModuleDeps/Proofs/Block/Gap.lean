import ModuleDeps.Proofs.Block.Pieces

/-!
# What stands between the two lists

Read from the left, the text between the lists is a sequence of tokens:
separators, line ends, block comments up to the next closing and line comments
up to the end of their line (`Gap`).  The check takes the block comments out
first and the line comments afterwards.  That is the same reading, unless a line
comment starts a block comment with its second slash or opens one that is closed
below the line (`onlySeparators_iff`).  Then the check goes wrong in both
directions: code below the line is taken for a comment, or the first slash of
the line comment is left over.
-/

set_option autoImplicit false

namespace ModuleDeps

open Text

/-! ## Reading from the left -/

def EndsLine (t : Text) : Prop := ∀ b ∈ t.head?, b = lf

/-- The first token of a text leaves `rest`.  Block comments are tokens if
`blocks` holds. -/
inductive Token (blocks : Prop) : Text → Text → Prop
  | separator {b : UInt8} {rest : Text} : isBetween b = true → Token blocks (b :: rest) rest
  | block {body rest : Text} : blocks → Leads blockClose body →
      Token blocks (blockOpen ++ (body ++ (blockClose ++ rest))) rest
  | line {words rest : Text} : lf ∉ words → EndsLine rest →
      Token blocks (lineComment ++ (words ++ rest)) rest

inductive Gap (blocks : Prop) : Text → Prop
  | nil : Gap blocks []
  | token {t rest : Text} : Token blocks t rest → Gap blocks rest → Gap blocks t

/-- Reading from the left meets a line comment whose second slash begins a block
comment, or one with the opening of a block comment in it that is closed only
below the line. -/
inductive Clash : Text → Prop
  | doubled {t : Text} : blockClose <:+: t → Clash (lineComment ++ (star :: t))
  | beyond {u v rest : Text} : lf ∉ u ++ (blockOpen ++ v) → EndsLine rest →
      ¬ blockClose <:+: v →
      blockClose <:+: v ++ rest → Clash (lineComment ++ ((u ++ (blockOpen ++ v)) ++ rest))
  | later {t rest : Text} : Token True t rest → Clash rest → Clash t

theorem isBetween_ne_slash {b : UInt8} (between : isBetween b = true) : b ≠ slash := by
  rintro rfl
  cases between

theorem eq_of_endsLine {words words' rest rest' : Text} (apart : lf ∉ words)
    (apart' : lf ∉ words') (ends : EndsLine rest) (ends' : EndsLine rest')
    (same : words ++ rest = words' ++ rest') : rest = rest' := by
  have short {w more t : Text} (wApart : lf ∉ w ++ more) (tEnds : EndsLine (more ++ t)) :
      more = [] := by
    cases more with
    | nil => rfl
    | cons c more =>
        obtain rfl : c = lf := tEnds c (by simp)
        exact absurd (by simp) wApart
  rcases List.append_eq_append_iff.mp same with ⟨more, rfl, rfl⟩ | ⟨more, rfl, rfl⟩
  · rw [short apart' ends, List.nil_append]
  · rw [short apart ends', List.nil_append]

section Tokens

variable {blocks : Prop} {t rest : Text}

theorem Token.unique {rest' : Text} (first : Token blocks t rest) (second : Token blocks t rest') :
    rest = rest' := by
  generalize same : t = t' at second
  cases first with
  | separator between =>
      have notSlash := isBetween_ne_slash between
      cases second with
      | separator _ => exact (List.cons.inj same).2
      | block _ _ => exact absurd (List.cons.inj same).1 notSlash
      | line _ _ => exact absurd (List.cons.inj same).1 notSlash
  | @block body _ _ leads =>
      cases second with
      | separator between => exact absurd (List.cons.inj same).1.symm (isBetween_ne_slash between)
      | @block body' _ _ leads' =>
          have parts : body ++ (blockClose ++ rest) = body' ++ (blockClose ++ rest') := by
            simpa [blockOpen] using same
          have found := cut?_of_leads (by decide) leads rest
          rw [parts, cut?_of_leads (by decide) leads'] at found
          exact (Prod.mk.inj (Option.some.inj found)).2.symm
      | line _ _ => exact absurd (List.cons.inj (List.cons.inj same).2).1 (by decide)
  | line apart ends =>
      cases second with
      | separator between => exact absurd (List.cons.inj same).1.symm (isBetween_ne_slash between)
      | block _ _ => exact absurd (List.cons.inj (List.cons.inj same).2).1 (by decide)
      | line apart' ends' =>
          exact eq_of_endsLine apart apart' ends ends' (List.append_cancel_left same)

theorem Token.ne_nil (token : Token blocks t rest) : t ≠ [] := by
  cases token <;> simp [blockOpen, lineComment]

theorem Token.shorter (token : Token blocks t rest) : rest.length < t.length := by
  cases token with
  | separator _ => simp
  | block _ _ =>
      simp only [List.length_append, blockOpen, List.length_cons]
      omega
  | line _ _ =>
      simp only [List.length_append, lineComment, List.length_cons]
      omega

theorem Token.gap_iff (token : Token blocks t rest) : Gap blocks t ↔ Gap blocks rest := by
  constructor
  · intro gap
    cases gap with
    | nil => exact absurd rfl token.ne_nil
    | token first more => exact first.unique token ▸ more
  · exact Gap.token token

theorem not_gap_of_stuck (some : t ≠ []) (stuck : ∀ rest, ¬ Token blocks t rest) :
    ¬ Gap blocks t := by
  intro gap
  cases gap with
  | nil => exact some rfl
  | token first _ => exact stuck _ first

theorem exists_line (t : Text) :
    ∃ words rest, lf ∉ words ∧ EndsLine rest ∧ t = words ++ rest := by
  obtain ⟨words, lines, apart, -, cut⟩ := exists_hung t
  refine ⟨words, hung lines, apart, ?_, cut⟩
  cases lines with
  | nil => simp [EndsLine]
  | cons l lines => simp [EndsLine, hung_cons, eq_comm]

theorem stuck_iff {b : UInt8} : (∀ rest, ¬ Token blocks (b :: t) rest) ↔
    isBetween b = false ∧ ¬ lineComment <+: b :: t ∧
      (blocks → ∀ body rest, Leads blockClose body →
        b :: t ≠ blockOpen ++ (body ++ (blockClose ++ rest))) := by
  constructor
  · intro stuck
    refine ⟨?_, ?_, ?_⟩
    · by_contra between
      exact stuck t (Token.separator (by simpa using between))
    · rintro ⟨tail, cut⟩
      obtain ⟨words, rest, apart, ends, rfl⟩ := exists_line tail
      exact stuck rest (cut ▸ Token.line apart ends)
    · intro allowed body rest leads cut
      exact stuck rest (cut ▸ Token.block allowed leads)
  · rintro ⟨notBetween, notLine, notBlock⟩ rest token
    generalize same : b :: t = t' at token
    cases token with
    | separator between =>
        rw [(List.cons.inj same).1, between] at notBetween
        cases notBetween
    | block allowed leads => exact notBlock allowed _ _ leads same
    | line _ _ => exact notLine ⟨_, same.symm⟩

end Tokens

/-! ## Line by line -/

theorem isBetween_of_isSeparator {b : UInt8} (separator : isSeparator b = true) :
    isBetween b = true := by
  rw [isBetween, ← isSeparator, separator, Bool.true_or]

theorem isSeparator_plain {b : UInt8} (separator : isSeparator b = true) :
    isQuote b = false ∧ b ≠ slash := by
  simp only [isSeparator, Bool.or_eq_true, beq_iff_eq] at separator
  rcases separator with ((rfl | rfl) | rfl) | rfl <;> decide

/-- A line without block comments is read by its code. -/
theorem gap_line_iff {line rest : Text} (apart : lf ∉ line) (ends : EndsLine rest) :
    Gap False (line ++ rest) ↔ (stripComment line).all isSeparator = true ∧ Gap False rest := by
  induction line with
  | nil => simp [stripComment, codeFrom]
  | cons b line ih =>
      have lineApart : lf ∉ line := fun member => apart (by simp [member])
      by_cases separator : isSeparator b = true
      · have token : Token False (b :: (line ++ rest)) (line ++ rest) :=
          Token.separator (isBetween_of_isSeparator separator)
        have strip : stripComment (b :: line) = b :: stripComment line :=
          stripComment_append_plain (t := [b]) (by simpa using isSeparator_plain separator) line
        rw [List.cons_append, token.gap_iff, ih lineApart, strip, List.all_cons, separator,
          Bool.true_and]
      · by_cases comment : lineComment <+: b :: line
        · obtain ⟨words, cut⟩ := comment
          have wordsApart : lf ∉ words :=
            fun member => apart (cut ▸ List.mem_append_right _ member)
          have token : Token False (lineComment ++ (words ++ rest)) rest :=
            Token.line wordsApart ends
          have strip : stripComment (lineComment ++ words) = [] :=
            codeFrom_comment (by decide) (by simp [lineComment])
          rw [← cut, List.append_assoc, token.gap_iff, strip]
          simp
        · have kept : ∃ more, stripComment (b :: line) = b :: more := by
            by_cases quote : isQuote b = true
            · exact ⟨_, codeFrom_quote quote line⟩
            · exact ⟨_, codeFrom_code quote fun starts =>
                comment (List.isPrefixOf_iff_prefix.mp starts)⟩
          obtain ⟨more, strip⟩ := kept
          have stuck : ∀ rest', ¬ Token False (b :: (line ++ rest)) rest' := by
            refine stuck_iff.mpr ⟨?_, ?_, fun never => never.elim⟩
            · have notLf : b ≠ lf := by
                rintro rfl
                exact apart (by simp)
              rw [isBetween, ← isSeparator]
              simp [separator, notLf]
            · rw [← List.isPrefixOf_iff_prefix, lineComment_isPrefixOf_append ?_]
              · rwa [List.isPrefixOf_iff_prefix]
              · intro slashed
                exact absurd (ends slash slashed) (by decide)
          rw [strip, List.all_cons]
          simpa [separator] using not_gap_of_stuck (List.cons_ne_nil _ _) stuck

theorem gap_hung_iff (lines : List Text) (whole : ∀ l ∈ lines, lf ∉ l) :
    Gap False (hung lines) ↔ ∀ l ∈ lines, (stripComment l).all isSeparator = true := by
  induction lines with
  | nil => simpa using Gap.nil
  | cons l lines ih =>
      have token : Token False (lf :: (l ++ hung lines)) (l ++ hung lines) :=
        Token.separator (by decide)
      have ends : EndsLine (hung lines) := by cases lines <;> simp [EndsLine, eq_comm]
      rw [hung_cons, token.gap_iff, gap_line_iff (whole l (by simp)) ends,
        ih fun x member => whole x (by simp [member])]
      simp

theorem onlySeparators_iff_gap (t : Text) :
    onlySeparators t = true ↔ Gap False (dropBlockComments t) := by
  obtain ⟨line, lines, apart, whole, cut⟩ := exists_hung (dropBlockComments t)
  have ends : EndsLine (hung lines) := by cases lines <;> simp [EndsLine, eq_comm]
  rw [onlySeparators, cut, splitAt_hung apart whole, gap_line_iff apart ends,
    gap_hung_iff lines whole]
  simp

/-! ## Block comments first -/

theorem dropBlocks_block {body : Text} (leads : Leads blockClose body) (rest : Text) :
    dropBlocksFrom 0 (blockOpen ++ (body ++ (blockClose ++ rest))) = dropBlocksFrom 0 rest := by
  have dropped := dropBlocks_comment (body ++ (blockClose ++ rest))
  have passed : (body ++ (blockClose ++ rest)).drop (body.length + 2) = rest := by
    rw [← List.drop_drop, List.drop_left]
    rfl
  rw [leads.indexOf? (by decide)] at dropped
  simp only [passed] at dropped
  exact dropped

theorem dropBlocks_of_unopened {b : UInt8} {t : Text}
    (unopened : ∀ body rest, Leads blockClose body →
      b :: t ≠ blockOpen ++ (body ++ (blockClose ++ rest))) :
    dropBlocksFrom 0 (b :: t) = b :: dropBlocksFrom 0 t := by
  by_cases opens : b = slash ∧ t.head? = some star
  · obtain ⟨rfl, second⟩ := opens
    obtain ⟨t, rfl⟩ : ∃ tail, t = star :: tail := by
      cases t with
      | nil => cases second
      | cons c t => exact ⟨t, by simpa using second⟩
    have dropped := dropBlocks_comment t
    cases closed : indexOf? blockClose t with
    | some i =>
        obtain ⟨body, rest, rfl, leads, -⟩ := exists_leads (by decide) closed
        exact absurd (by simp [blockOpen]) (unopened body rest leads)
    | none =>
        rw [closed] at dropped
        rw [dropBlocks_plain (b := star) (by decide)]
        exact dropped
  · exact dropBlocks_code opens

theorem not_lineComment_dropBlocks {b : UInt8} {t : Text} (code : ¬ lineComment <+: b :: t) :
    ¬ lineComment <+: b :: dropBlocksFrom 0 t := by
  rintro ⟨tail, cut⟩
  obtain ⟨rfl, starts⟩ := List.cons.inj cut
  -- what follows the first slash kept its place, so it was one already
  cases t with
  | nil => cases starts
  | cons c t =>
      have notSlash : c ≠ slash := by
        rintro rfl
        exact code ⟨t, rfl⟩
      rw [dropBlocks_plain notSlash] at starts
      exact notSlash (List.cons.inj starts).1.symm

/-- A part of a line in which every opening is closed, or closed nowhere, is
left a part of that line. -/
theorem exists_dropBlocks_append {s rest : Text} (apart : lf ∉ s) (ends : EndsLine rest)
    (closed : ∀ u v, s = u ++ (blockOpen ++ v) → blockClose <:+: v ++ rest →
      blockClose <:+: v) :
    ∃ s', lf ∉ s' ∧ dropBlocksFrom 0 (s ++ rest) = s' ++ dropBlocksFrom 0 rest := by
  induction size : s.length using Nat.strong_induction_on generalizing s with
  | _ n ih =>
      cases s with
      | nil => exact ⟨[], by simp, rfl⟩
      | cons b s =>
          have plain (kept : dropBlocksFrom 0 (b :: (s ++ rest)) =
              b :: dropBlocksFrom 0 (s ++ rest)) :
              ∃ s', lf ∉ s' ∧ dropBlocksFrom 0 (b :: s ++ rest) =
                s' ++ dropBlocksFrom 0 rest := by
            obtain ⟨s', apart', dropped⟩ := ih s.length (by rw [← size]; simp)
              (fun member => apart (by simp [member]))
                (fun u v cut => closed (b :: u) v (by rw [cut]; rfl)) rfl
            refine ⟨b :: s', ?_, by rw [List.cons_append, kept, dropped]; rfl⟩
            simp only [List.mem_cons, not_or] at apart ⊢
            exact ⟨apart.1, apart'⟩
          by_cases opened : ∃ body tail, Leads blockClose body ∧
              b :: (s ++ rest) = blockOpen ++ (body ++ (blockClose ++ tail))
          · obtain ⟨body, tail, -, cut⟩ := opened
            obtain ⟨rfl, more⟩ : b = slash ∧
              s ++ rest = star :: (body ++ (blockClose ++ tail)) := List.cons.inj cut
            cases s with
            | nil =>
                have starry : rest.head? = Option.some star := congrArg List.head? more
                exact absurd (ends star starry) (by decide)
            | cons c s =>
                obtain ⟨rfl, behind⟩ : c = star ∧ s ++ rest = body ++ (blockClose ++ tail) :=
                  List.cons.inj more
                have within := closed [] s rfl ⟨body, tail, by rw [behind, List.append_assoc]⟩
                obtain ⟨i, found⟩ := Option.ne_none_iff_exists'.mp
                  fun none => (indexOf?_eq_none_iff (by decide)).mp none within
                obtain ⟨body', s', rfl, leads, -⟩ := exists_leads (by decide) found
                obtain ⟨s'', apart', dropped⟩ := ih s'.length (by rw [← size]; simp; omega)
                  (fun member => apart (by simp [member]))
                  (fun u v cut => closed (blockOpen ++ (body' ++ (blockClose ++ u))) v
                    (by simp [cut, blockOpen])) rfl
                refine ⟨s'', apart', ?_⟩
                rw [← dropped, ← dropBlocks_block leads (s' ++ rest)]
                simp [blockOpen]
          · push Not at opened
            exact plain (dropBlocks_of_unopened fun body tail leads => opened body tail leads)

/-- The two orders of taking comments out read the same, as long as the comments
do not clash. -/
theorem gap_dropBlocks_iff {t : Text} (clear : ¬ Clash t) :
    Gap False (dropBlocksFrom 0 t) ↔ Gap True t := by
  -- Both readings take the same token from the front; the induction is on the rest.
  induction size : t.length using Nat.strong_induction_on generalizing t with
  | _ n ih =>
      by_cases some : ∃ rest, Token True t rest
      · obtain ⟨rest, token⟩ := some
        have more :=
          ih rest.length (size ▸ token.shorter) (fun clash => clear (Clash.later token clash)) rfl
        rw [token.gap_iff, ← more]
        cases token with
        | separator between =>
            rw [dropBlocks_plain (isBetween_ne_slash between)]
            exact (Token.separator between).gap_iff
        | block _ leads => rw [dropBlocks_block leads]
        | @line words _ apart ends =>
            obtain ⟨words', apart', dropped⟩ := exists_dropBlocks_append apart ends
              fun u v cut below => by
                by_contra within
                subst cut
                exact clear (Clash.beyond apart ends within below)
            have second : dropBlocksFrom 0 (slash :: (words ++ rest)) =
                slash :: dropBlocksFrom 0 (words ++ rest) := by
              refine dropBlocks_of_unopened fun body tail _ cut => clear ?_
              rw [(List.cons.inj cut).2]
              exact Clash.doubled ⟨body, tail, by simp⟩
            have first : dropBlocksFrom 0 (lineComment ++ (words ++ rest)) =
                lineComment ++ (words' ++ dropBlocksFrom 0 rest) := by
              have single :
                  ¬ (slash = slash ∧ (slash :: (words ++ rest)).head? =
                    Option.some Text.star) := by
                simp [slash, Text.star]
              rw [← dropped]
              exact (dropBlocks_code single).trans (congrArg (slash :: ·) second)
            have endsToo : EndsLine (dropBlocksFrom 0 rest) := by
              cases rest with
              | nil => exact ends
              | cons c rest =>
                  obtain rfl : c = lf := ends c (by simp)
                  rw [dropBlocks_plain (by decide)]
                  simp [EndsLine]
            rw [first]
            exact (Token.line apart' endsToo).gap_iff
      · have stuck : ∀ rest, ¬ Token True t rest := fun rest token => some ⟨rest, token⟩
        cases t with
        | nil => exact iff_of_true Gap.nil Gap.nil
        | cons b t =>
            obtain ⟨notBetween, notLine, notBlock⟩ := stuck_iff.mp stuck
            have unopened := notBlock trivial
            have stuckToo : ∀ rest, ¬ Token False (b :: dropBlocksFrom 0 t) rest :=
              stuck_iff.mpr ⟨notBetween, not_lineComment_dropBlocks notLine,
                fun never => never.elim⟩
            rw [dropBlocks_of_unopened unopened]
            exact iff_of_false (not_gap_of_stuck (List.cons_ne_nil _ _) stuckToo)
              (not_gap_of_stuck (List.cons_ne_nil _ _) stuck)

theorem not_clash_of_unopened {t : Text} (unopened : ¬ blockOpen <:+: t) : ¬ Clash t := by
  intro clash
  induction clash with
  | @doubled t _ => exact unopened ⟨[slash], t, rfl⟩
  | @beyond u v rest _ _ _ _ => exact unopened ⟨lineComment ++ u, v ++ rest, by simp⟩
  | later token _ ih =>
      refine ih fun more => unopened ?_
      cases token with
      | separator _ => exact List.infix_cons more
      | block _ _ => exact absurd (List.prefix_append _ _).isInfix unopened
      | @line words _ _ _ => exact more.trans ⟨lineComment ++ words, [], by simp⟩

theorem onlySeparators_iff (t : Text) :
    (onlySeparators t = true ↔ Gap False (dropBlockComments t)) ∧
      (¬ Clash t → (onlySeparators t = true ↔ Gap True t)) := by
  refine ⟨onlySeparators_iff_gap t, fun clear => ?_⟩
  rw [onlySeparators_iff_gap, dropBlockComments, gap_dropBlocks_iff clear]

def calmGap : Text := utf8 "/* a, */, // b\r\n\t"

theorem onlySeparators_calm :
    ¬ Clash calmGap ∧ onlySeparators calmGap = true ∧ Gap True calmGap := by
  have spelled : calmGap = blockOpen ++ (utf8 " a, " ++ (blockClose ++ utf8 ", // b\r\n\t")) := by
    decide +kernel
  have opening : Token True calmGap (utf8 ", // b\r\n\t") := by
    have leads : Leads blockClose (utf8 " a, ") := by
      rw [Leads]
      decide +kernel
    rw [spelled]
    exact Token.block trivial leads
  have clear : ¬ Clash calmGap := by
    intro clash
    generalize same : calmGap = t at clash
    cases clash with
    | doubled _ =>
        rw [spelled] at same
        exact absurd (List.cons.inj (List.cons.inj same).2).1 (by decide)
    | beyond _ _ _ _ =>
        rw [spelled] at same
        exact absurd (List.cons.inj (List.cons.inj same).2).1 (by decide)
    | later token more =>
        subst same
        obtain rfl := token.unique opening
        exact not_clash_of_unopened (by decide +kernel) more
  have accepted : onlySeparators calmGap = true := by decide +kernel
  exact ⟨clear, accepted, ((onlySeparators_iff calmGap).2 clear).mp accepted⟩

theorem onlySeparators_clash :
    (onlySeparators (utf8 "// /*\nfoo */") = true ∧ ¬ Gap True (utf8 "// /*\nfoo */")) ∧
      (onlySeparators (utf8 "//* x */\n") = false ∧ Gap True (utf8 "//* x */\n")) := by
  refine ⟨⟨by decide +kernel, ?_⟩, by decide +kernel, ?_⟩
  · have spelled : utf8 "// /*\nfoo */" =
        lineComment ++ (utf8 " /*" ++ (lf :: 0x66 :: utf8 "oo */")) := by
      decide +kernel
    have comment :=
      @Token.line True (utf8 " /*") (lf :: 0x66 :: utf8 "oo */") (by decide +kernel)
        (by simp [EndsLine])
    have lineEnd := @Token.separator True lf (0x66 :: utf8 "oo */") (by decide)
    rw [spelled, comment.gap_iff, lineEnd.gap_iff]
    refine not_gap_of_stuck (List.cons_ne_nil _ _)
      (stuck_iff.mpr ⟨by decide, by decide +kernel, ?_⟩)
    intro _ body rest _ cut
    exact absurd (List.cons.inj cut).1 (by decide)
  · have spelled : utf8 "//* x */\n" = lineComment ++ (utf8 "* x */" ++ [lf]) := by decide +kernel
    have comment := @Token.line True (utf8 "* x */") [lf] (by decide +kernel) (by simp [EndsLine])
    rw [spelled]
    exact Gap.token comment (Gap.token (Token.separator (by decide)) Gap.nil)

end ModuleDeps
