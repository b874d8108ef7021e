import Mathlib.Data.List.Basic
import ModuleDeps.Block.Comment
import ModuleDeps.Proofs.Text.Blank

/-!
# Code in front of a line comment

`codeFrom` reads a line byte by byte and stops in front of a comment.  A text
that it passes over leaves it inside of some quotes or outside of any (`Passes`),
and the reading of a line ends with the line or at a comment (`exists_ends`).  So
what is returned is a beginning of the line, the whole line when no `//` occurs in
it, and it does not depend on what follows the comment.  Text put between the code
and a comment extends the code by itself, as long as it neither holds a `//` nor
leaves a quote open.
-/

set_option autoImplicit false

namespace ModuleDeps

open Text

theorem lineComment_isPrefixOf {b : UInt8} {t : Text} :
    lineComment.isPrefixOf (b :: t) = true ↔ b = slash ∧ t.head? = some slash := by
  cases t with
  | nil => simp [lineComment, List.isPrefixOf]
  | cons c t =>
      simp only [lineComment, List.isPrefixOf, Bool.and_true, Bool.and_eq_true, beq_iff_eq,
        List.head?_cons, Option.some.injEq]
      exact and_congr eq_comm eq_comm

theorem lineComment_isPrefixOf_append {b : UInt8} {t more : Text}
    (start : more.head? ≠ some slash) :
    lineComment.isPrefixOf (b :: (t ++ more)) = lineComment.isPrefixOf (b :: t) := by
  rw [Bool.eq_iff_iff, lineComment_isPrefixOf, lineComment_isPrefixOf]
  cases t with
  | nil => simp [start]
  | cons c t => simp

/-! ## One step of the reading -/

theorem codeFrom_escape (q c : UInt8) (t : Text) :
    codeFrom (some q) (backslash :: c :: t) = backslash :: c :: codeFrom (some q) t := by
  rw [codeFrom.eq_def]
  rfl

theorem codeFrom_inside {b q : UInt8} (notEscape : b ≠ backslash) (t : Text) :
    codeFrom (some q) (b :: t) = b :: codeFrom (if b = q then none else some q) t := by
  rw [codeFrom.eq_def]
  simp only [if_neg notEscape]

theorem codeFrom_quote {b : UInt8} (quote : isQuote b = true) (t : Text) :
    codeFrom none (b :: t) = b :: codeFrom (some b) t := by
  rw [codeFrom, if_pos quote]

theorem codeFrom_comment {b : UInt8} {t : Text} (notQuote : ¬ isQuote b = true)
    (starts : lineComment.isPrefixOf (b :: t) = true) : codeFrom none (b :: t) = [] := by
  rw [codeFrom, if_neg notQuote, if_pos starts]

theorem codeFrom_code {b : UInt8} {t : Text} (notQuote : ¬ isQuote b = true)
    (noComment : ¬ lineComment.isPrefixOf (b :: t) = true) :
    codeFrom none (b :: t) = b :: codeFrom none t := by
  rw [codeFrom, if_neg notQuote, if_neg noComment]

theorem codeFrom_nil (q : Option UInt8) : codeFrom q [] = [] := by
  cases q with
  | none => rfl
  | some q => rfl

theorem codeFrom_lineComment (c : Text) : codeFrom none (lineComment ++ c) = [] :=
  codeFrom_comment (by decide) (by simp [lineComment])

theorem codeFrom_slash {t : Text} (start : t.head? ≠ some slash) :
    codeFrom none (slash :: t) = slash :: codeFrom none t :=
  codeFrom_code (by decide) fun starts => start (lineComment_isPrefixOf.mp starts).2

/-! ## The state of quoting -/

/-- Quotes that a reader can be inside of. -/
def QuoteState (state : Option UInt8) : Prop := ∀ q, state = some q → isQuote q = true

theorem quoteState_none : QuoteState none := by
  rintro q ⟨⟩

theorem isQuote_ne_backslash {q : UInt8} (quote : isQuote q = true) : q ≠ backslash := by
  rintro rfl
  exact absurd quote (by decide)

/-- Read inside of `state`, the text is code and leaves the reader inside of
`state'`, whatever follows.  For that it must not end within an escape, nor
outside of quotes with a slash. -/
inductive Passes : Option UInt8 → Text → Option UInt8 → Prop
  | nil (state : Option UInt8) : Passes state [] state
  | escape {q : UInt8} (c : UInt8) {t : Text} {state' : Option UInt8} :
      Passes (some q) t state' → Passes (some q) (backslash :: c :: t) state'
  | inside {q b : UInt8} {t : Text} {state' : Option UInt8} :
      b ≠ backslash → Passes (if b = q then none else some q) t state' →
        Passes (some q) (b :: t) state'
  | quote {b : UInt8} {t : Text} {state' : Option UInt8} :
      isQuote b = true → Passes (some b) t state' → Passes none (b :: t) state'
  | code {b : UInt8} {t : Text} {state' : Option UInt8} :
      ¬ isQuote b = true → b ≠ slash → Passes none t state' → Passes none (b :: t) state'
  | slash {c : UInt8} {t : Text} {state' : Option UInt8} :
      c ≠ slash → Passes none (c :: t) state' → Passes none (slash :: c :: t) state'

namespace Passes

variable {state state' : Option UInt8} {t : Text}

theorem reads (passes : Passes state t state') (more : Text) :
    codeFrom state (t ++ more) = t ++ codeFrom state' more := by
  induction passes with
  | nil state => rfl
  | escape c _ ih =>
      rw [List.cons_append, List.cons_append, codeFrom_escape, ih]
      rfl
  | inside notEscape _ ih =>
      rw [List.cons_append, codeFrom_inside notEscape, ih]
      rfl
  | quote quote _ ih =>
      rw [List.cons_append, codeFrom_quote quote, ih]
      rfl
  | code notQuote notSlash _ ih =>
      rw [List.cons_append, codeFrom_code notQuote fun starts =>
        notSlash (lineComment_isPrefixOf.mp starts).1, ih]
      rfl
  | @slash c t state' notSlash _ ih =>
      have noComment : ¬ lineComment.isPrefixOf (Text.slash :: (c :: t ++ more)) = true :=
        fun starts => notSlash (Option.some.inj (lineComment_isPrefixOf.mp starts).2)
      rw [List.cons_append, codeFrom_code (by decide) noComment, ih]
      rfl

theorem code_eq (passes : Passes state t state') : codeFrom state t = t := by
  simpa [codeFrom_nil] using passes.reads []

theorem quoteState (passes : Passes state t state') (quotes : QuoteState state) :
    QuoteState state' := by
  induction passes with
  | nil state => exact quotes
  | escape c _ ih => exact ih quotes
  | inside notEscape _ ih =>
      apply ih
      split
      · rintro c ⟨⟩
      · exact quotes
  | quote quote _ ih =>
      apply ih
      rintro c ⟨⟩
      exact quote
  | code notQuote notSlash _ ih => exact ih quotes
  | slash notSlash _ ih => exact ih quotes

theorem mem_of_closed {q : UInt8} (passes : Passes (some q) t none) : q ∈ t := by
  generalize before : some q = state at passes
  generalize behind : none = state' at passes
  induction passes with
  | nil state =>
      rw [← before] at behind
      cases behind
  | escape c _ ih => simp [ih before behind]
  | @inside q' b t state' notEscape _ ih =>
      cases before
      by_cases closing : b = q
      · simp [closing]
      · simp [ih (by rw [if_neg closing]) behind]
  | quote => cases before
  | code => cases before
  | slash => cases before

end Passes

/-- How the reading of a line ends: with the line, and there in some state of
quoting, within an escape or behind one slash; or at a comment, outside of
quotes. -/
inductive Ends (state : Option UInt8) : Text → Prop
  | through {t : Text} {state' : Option UInt8} : Passes state t state' → Ends state t
  | escaping {t : Text} {q : UInt8} : Passes state t (some q) → Ends state (t ++ [backslash])
  | slash {t : Text} : Passes state t none → Ends state (t ++ [slash])
  | comment {t : Text} (c : Text) : Passes state t none → Ends state (t ++ (lineComment ++ c))

/-- Text in front that is passed over does not change how the reading ends. -/
theorem Ends.extend {state state' : Option UInt8} {t : Text} (ends : Ends state' t) (front : Text)
    (step : ∀ {u : Text} {state'' : Option UInt8}, Passes state' u state'' →
      Passes state (front ++ u) state'') :
    Ends state (front ++ t) := by
  cases ends with
  | through passes => exact through (step passes)
  | escaping passes =>
      rw [← List.append_assoc]
      exact escaping (step passes)
  | slash passes =>
      rw [← List.append_assoc]
      exact slash (step passes)
  | comment c passes =>
      rw [← List.append_assoc]
      exact comment c (step passes)

theorem Ends.extend_slash {c : UInt8} {t : Text} (notSlash : c ≠ Text.slash)
    (ends : Ends none (c :: t)) :
    Ends none (Text.slash :: c :: t) := by
  generalize same : c :: t = line at ends
  cases ends with
  | through passes =>
      subst same
      exact through (.slash notSlash passes)
  | @escaping u q passes =>
      cases u with
      | nil => cases passes
      | cons a u =>
          obtain ⟨rfl, rfl⟩ : c = a ∧ t = u ++ [backslash] := by simpa using same
          exact escaping (.slash notSlash passes)
  | @slash u passes =>
      cases u with
      | nil => exact absurd (List.cons.inj same).1 notSlash
      | cons a u =>
          obtain ⟨rfl, rfl⟩ : c = a ∧ t = u ++ [Text.slash] := by simpa using same
          exact slash (.slash notSlash passes)
  | @comment u d passes =>
      cases u with
      | nil => exact absurd (List.cons.inj same).1 notSlash
      | cons a u =>
          obtain ⟨rfl, rfl⟩ : c = a ∧ t = u ++ (lineComment ++ d) := by simpa using same
          exact comment d (.slash notSlash passes)

theorem exists_ends (state : Option UInt8) (t : Text) : Ends state t := by
  fun_induction codeFrom state t with
  | case1 state => exact .through (.nil state)
  | case2 q => exact .escaping (.nil (some q))
  | case3 q c rest ih => exact ih.extend [backslash, c] (.escape c)
  | case4 q b rest notEscape ih => exact ih.extend [b] (.inside notEscape)
  | case5 b rest quote ih => exact ih.extend [b] (.quote quote)
  | case6 b rest notQuote starts =>
      obtain ⟨c, cut⟩ := List.isPrefixOf_iff_prefix.mp starts
      rw [← cut]
      exact .comment c (.nil none)
  | case7 b rest notQuote noComment ih =>
      by_cases isSlash : b = slash
      · subst isSlash
        cases rest with
        | nil => exact .slash (.nil none)
        | cons c rest =>
            have notSlash : c ≠ slash := fun same => noComment (by rw [same]; rfl)
            exact ih.extend_slash notSlash
      · exact ih.extend [b] (.code notQuote isSlash)

/-- Where the code of a line stops a comment starts, outside of quotes. -/
theorem exists_passes {q : Option UInt8} {t : Text} (comment : codeFrom q t ≠ t) :
    ∃ c, Passes q (codeFrom q t) none ∧ t = codeFrom q t ++ (lineComment ++ c) := by
  cases exists_ends q t with
  | through passes => exact absurd passes.code_eq comment
  | escaping passes => exact absurd (passes.reads [backslash]) comment
  | slash passes => exact absurd (passes.reads [slash]) comment
  | @comment u c passes =>
      have code : codeFrom q (u ++ (lineComment ++ c)) = u := by
        rw [passes.reads, codeFrom_lineComment, List.append_nil]
      rw [code]
      exact ⟨c, passes, rfl⟩

theorem exists_comment (q : Option UInt8) (t : Text) (comment : codeFrom q t ≠ t) :
    ∃ c, t = codeFrom q t ++ (lineComment ++ c) := by
  obtain ⟨c, -, cut⟩ := exists_passes comment
  exact ⟨c, cut⟩

theorem codeFrom_of_notComment (q : Option UInt8) (t : Text) (free : ¬ lineComment <:+: t) :
    codeFrom q t = t := by
  by_contra comment
  obtain ⟨c, cut⟩ := exists_comment q t comment
  exact free ⟨codeFrom q t, c, by rw [List.append_assoc, ← cut]⟩

theorem stripComment_of_notComment {t : Text} (free : ¬ lineComment <:+: t) : stripComment t = t :=
  codeFrom_of_notComment none t free

/-! ## Text behind the line -/

/-- A comment reaches to the end of the line, whatever is put there. -/
theorem codeFrom_append_of_comment (q : Option UInt8) (t more : Text)
    (comment : codeFrom q t ≠ t) :
    codeFrom q (t ++ more) = codeFrom q t := by
  obtain ⟨c, passes, cut⟩ := exists_passes comment
  calc codeFrom q (t ++ more) = codeFrom q (codeFrom q t ++ (lineComment ++ (c ++ more))) := by
        rw [← List.append_assoc lineComment, ← List.append_assoc, ← cut]
    _ = codeFrom q t := by rw [passes.reads, codeFrom_lineComment, List.append_nil]

/-- The code of a line, cut anywhere, is code to its end: a comment in it would
be one of the line. -/
theorem codeFrom_of_isPrefix {q : Option UInt8} {t v : Text} (front : v <+: codeFrom q t) :
    codeFrom q v = v := by
  by_contra comment
  obtain ⟨u, cut⟩ := front.trans (codeFrom_isPrefix q t)
  have same : codeFrom q t = codeFrom q v := by
    rw [← cut, codeFrom_append_of_comment q v u comment]
  rw [same] at front
  exact comment ((codeFrom_isPrefix q v).eq_of_length_le front.length_le)

theorem stripComment_of_isPrefix {line v : Text} (front : v <+: stripComment line) :
    stripComment v = v :=
  codeFrom_of_isPrefix front

theorem stripComment_idem (line : Text) : stripComment (stripComment line) = stripComment line :=
  stripComment_of_isPrefix (List.prefix_refl _)

theorem stripComment_of_append {t more : Text} (code : stripComment (t ++ more) = t ++ more) :
    stripComment t = t :=
  stripComment_of_isPrefix (code ▸ List.prefix_append t more)

theorem codeFrom_append_of_code (q : Option UInt8) (t more : Text) (code : codeFrom q t = t)
    (start : more.head? ≠ some slash) (free : ¬ lineComment <:+: more) :
    codeFrom q (t ++ more) = t ++ more := by
  cases exists_ends q t with
  | @through _ state passes => rw [passes.reads, codeFrom_of_notComment state more free]
  | @escaping u state passes =>
      cases more with
      | nil => rwa [List.append_nil]
      | cons c more =>
          have restFree : ¬ lineComment <:+: more := fun occurs => free (List.infix_cons occurs)
          rw [List.append_assoc, passes.reads, List.cons_append, List.nil_append, codeFrom_escape,
            codeFrom_of_notComment (some state) more restFree]
  | @slash u passes =>
      rw [List.append_assoc, passes.reads, List.cons_append, List.nil_append, codeFrom_slash start,
        codeFrom_of_notComment none more free]
  | @comment u c passes =>
      rw [passes.reads, codeFrom_lineComment, List.append_nil] at code
      simp [lineComment] at code

/-! ## Text between code and a comment -/

/-- A byte that leaves the state of quoting as it is. -/
def isNeutral (b : UInt8) : Bool := !isQuote b && b != backslash

theorem codeFrom_quoted (q : UInt8) (t : Text) (apart : q ∉ codeFrom (some q) t) :
    codeFrom (some q) t = t := by
  by_contra comment
  obtain ⟨c, passes, -⟩ := exists_passes comment
  exact apart passes.mem_of_closed

/-- Where a line of code is followed by neutral bytes and a comment, the code
ends outside of quotes: other text put there is read on its own. -/
theorem codeFrom_insert (q : Option UInt8) (v rest w more : Text) (quotes : QuoteState q)
    (code : codeFrom q (v ++ rest) = v ++ w) (comment : w ≠ rest)
    (neutral : ∀ b ∈ w, isNeutral b = true) (start : more.head? ≠ some slash) :
    codeFrom q (v ++ more) = v ++ codeFrom none more := by
  have outside {c : UInt8} {t u : Text} (isQuoted : isQuote c = true)
      (same : codeFrom (some c) t = u)
      (uNeutral : ∀ b ∈ u, isNeutral b = true) : u = t := by
    rw [← same]
    apply codeFrom_quoted
    rw [same]
    intro member
    have := uNeutral c member
    simp [isNeutral, isQuoted] at this
  -- Only a beginning that ends outside of quotes is followed by a comment.
  cases exists_ends q v with
  | @through _ state passes =>
      rw [passes.reads] at code ⊢
      cases state with
      | none => rfl
      | some c =>
          have quote := passes.quoteState quotes c rfl
          exact absurd (outside quote (List.append_cancel_left code) neutral) comment
  | @escaping u c passes =>
      have quote := passes.quoteState quotes c rfl
      rw [List.append_assoc, List.append_assoc, passes.reads] at code
      have behind := List.append_cancel_left code
      cases rest with
      | nil => exact absurd (List.cons.inj behind).2.symm comment
      | cons d rest =>
          rw [List.cons_append, List.nil_append, codeFrom_escape] at behind
          have same : d :: codeFrom (some c) rest = w := (List.cons.inj behind).2
          have all : codeFrom (some c) rest = rest :=
            outside quote rfl fun b member => neutral b (by rw [← same]; simp [member])
          rw [all] at same
          exact absurd same.symm comment
  | @slash u passes =>
      rw [List.append_assoc, passes.reads, List.cons_append, List.nil_append, codeFrom_slash start]
      simp
  | @comment u d passes =>
      rw [List.append_assoc, List.append_assoc, passes.reads, codeFrom_lineComment] at code
      simp [lineComment] at code

/-! ## Plain text and literals -/

theorem codeFrom_plain_append {t : Text} (plain : ∀ b ∈ t, isQuote b = false ∧ b ≠ slash)
    (more : Text) :
    codeFrom none (t ++ more) = t ++ codeFrom none more := by
  induction t with
  | nil => rfl
  | cons b t ih =>
      obtain ⟨notQuote, notSlash⟩ := plain b (by simp)
      have noComment : ¬ lineComment.isPrefixOf (b :: (t ++ more)) = true := by
        rw [lineComment_isPrefixOf]
        exact fun starts => notSlash starts.1
      rw [List.cons_append, codeFrom_code (by simp [notQuote]) noComment,
        ih fun c member => plain c (by simp [member])]
      rfl

theorem stripComment_append_plain {t : Text}
    (plain : ∀ b ∈ t, isQuote b = false ∧ b ≠ slash) (more : Text) :
    stripComment (t ++ more) = t ++ stripComment more :=
  codeFrom_plain_append plain more

theorem stripComment_of_plain {t : Text} (plain : ∀ b ∈ t, isQuote b = false ∧ b ≠ slash) :
    stripComment t = t := by
  simpa [stripComment, codeFrom] using stripComment_append_plain plain []

theorem plain_of_blanks {t : Text} (blank : Blanks t) :
    ∀ b ∈ t, isQuote b = false ∧ b ≠ slash := by
  intro b member
  constructor
  · by_contra quote
    rw [Bool.not_eq_false, isQuote, Bool.or_eq_true, Bool.or_eq_true, beq_iff_eq, beq_iff_eq,
      beq_iff_eq] at quote
    rcases quote with (rfl | rfl) | rfl
    · exact blank.notMem_of_visible (by decide) member
    · exact blank.notMem_of_visible (by decide) member
    · exact blank.notMem_of_visible (by decide) member
  · rintro rfl
    exact blank.notMem_of_visible (by decide) member

theorem stripComment_of_blanks {t : Text} (blank : Blanks t) : stripComment t = t :=
  stripComment_of_plain (plain_of_blanks blank)

theorem passes_quoted {q : UInt8} {t : Text} (closed : q ∉ t) (unescaped : backslash ∉ t) :
    Passes (some q) t (some q) := by
  induction t with
  | nil => exact .nil (some q)
  | cons b t ih =>
      have notEscape : b ≠ backslash := by
        rintro rfl
        exact unescaped (by simp)
      have notClosing : b ≠ q := by
        rintro rfl
        exact closed (by simp)
      refine .inside notEscape ?_
      rw [if_neg notClosing]
      exact ih (fun member => closed (by simp [member])) fun member => unescaped (by simp [member])

theorem codeFrom_literal_append {q : UInt8} (quote : isQuote q = true) {body : Text}
    (closed : q ∉ body) (unescaped : backslash ∉ body) (more : Text) :
    codeFrom none (q :: (body ++ q :: more)) = q :: (body ++ q :: codeFrom none more) := by
  rw [codeFrom_quote quote, (passes_quoted closed unescaped).reads,
    codeFrom_inside (isQuote_ne_backslash quote), if_pos rfl]

end ModuleDeps
