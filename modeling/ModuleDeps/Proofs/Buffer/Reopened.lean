import ModuleDeps.Proofs.Buffer.LineEnding

/-!
# Saving a document and opening it again

A buffer keeps at least one line, no line with a line feed, and the line end it
was opened with.  A text whose carriage returns all belong to CRLF line ends,
and whose line ends are all alike, stays one under edits without carriage
returns: its buffer is one with line ends of one byte, or the conversion of one
(`Unix.attemptAll_crlfEnded`), and either kind is read back from its text.
-/

set_option autoImplicit false

namespace ModuleDeps

open Text

namespace Text

/-- There are no carriage returns, or there is one in front of each line feed
and nowhere else. -/
def EvenEnds (t : Text) : Prop :=
  cr ∉ t ∨ t.head? ≠ some lf ∧ ∀ i, t[i]? = some cr ↔ t[i + 1]? = some lf

/-- A text with even line ends of two bytes is converted from one without
carriage returns. -/
theorem exists_crlf : ∀ {t : Text}, t.head? ≠ some lf →
    (∀ i, t[i]? = some cr ↔ t[i + 1]? = some lf) → ∃ u, cr ∉ u ∧ t = crlf u
  | [], _, _ => ⟨[], by simp, rfl⟩
  | [b], notLf, paired => by
      have notCr : b ≠ cr := by simpa using paired 0
      have plain : b ≠ lf := by simpa using notLf
      exact ⟨[b], by simp [Ne.symm notCr], by rw [crlf_cons plain, crlf_nil]⟩
  | b :: c :: rest, notLf, paired => by
      have plain : b ≠ lf := by simpa using notLf
      have first : b = cr ↔ c = lf := by simpa using paired 0
      have shifted : ∀ i, (c :: rest)[i]? = some cr ↔ (c :: rest)[i + 1]? = some lf :=
        fun i => by simpa using paired (i + 1)
      by_cases isCr : b = cr
      · obtain rfl : c = lf := first.mp isCr
        have restNotLf : rest.head? ≠ some lf := by
          have distinct : lf ≠ cr := by decide
          have next := shifted 0
          rw [List.head?_eq_getElem?]
          simpa [distinct] using next
        obtain ⟨u, free, rfl⟩ := exists_crlf restNotLf fun i => by simpa using shifted (i + 1)
        have distinct : cr ≠ lf := by decide
        exact ⟨lf :: u, by simp [distinct, free], by rw [isCr, crlf_lf]⟩
      · have nextNotLf : (c :: rest).head? ≠ some lf := by
          simpa using fun isLf => isCr (first.mpr isLf)
        obtain ⟨u, free, cut⟩ := exists_crlf nextNotLf shifted
        exact ⟨b :: u, by simp [Ne.symm isCr, free], by rw [crlf_cons plain, ← cut]⟩

theorem crlf_of_notMem {t : Text} (apart : lf ∉ t) : crlf t = t := by
  induction t with
  | nil => rfl
  | cons b t ih =>
      have notLf : b ≠ lf := by
        rintro rfl
        exact apart (by simp)
      rw [crlf_cons notLf, ih fun member => apart (by simp [member])]

theorem subset_weave (extra : Nat → Text) (k : Nat) (t : Text) : t ⊆ weave extra k t := by
  induction t generalizing k with
  | nil => simp
  | cons b rest ih =>
      intro a member
      rw [weave, List.mem_append, List.mem_cons]
      rcases List.mem_cons.mp member with rfl | member
      · exact Or.inr (Or.inl rfl)
      · exact Or.inr (Or.inr (ih (k + 1) member))

end Text

namespace Buffer

/-! ## Sessions -/

theorem attempt_ending (b : Buffer) (batch : Batch) : (b.attempt batch).ending = b.ending := by
  rw [attempt]
  cases tried : b.apply batch with
  | error e => rfl
  | ok after =>
      obtain ⟨-, ⟨-, rfl⟩ | ⟨-, splices, -, rfl⟩⟩ := apply_eq_ok tried <;> rfl

theorem attemptAll_ending (b : Buffer) (batches : List Batch) :
    (b.attemptAll batches).ending = b.ending := by
  induction batches generalizing b with
  | nil => rfl
  | cons batch rest ih => exact (ih (b.attempt batch)).trans (attempt_ending b batch)

theorem Whole.refuses {b : Buffer} (whole : b.Whole) {batch : Batch} {e : ApplyError}
    (refused : b.apply batch = .error e) : b.Refuses batch := by
  by_contra taken
  by_cases empty : batch.inserts = []
  · rw [Buffer.apply, if_neg (not_or.mp taken).1, if_pos (by simp [empty])] at refused
    cases refused
  · rw [whole.apply_combined taken empty] at refused
    cases refused

section Unix

variable {b : Buffer} (unix : b.Unix)
include unix

theorem Unix.refused_crlfEnded_iff {batch : Batch} :
    (∃ e, b.crlfEnded.apply batch = .error e) ↔ ∃ e, b.apply batch = .error e := by
  constructor
  · rintro ⟨e, refused⟩
    exact apply_of_refuses (b := b) (unix.whole.crlfEnded.refuses refused)
  · rintro ⟨e, refused⟩
    exact apply_of_refuses (b := b.crlfEnded) (unix.whole.refuses refused)

theorem Unix.text_subset {batch : Batch} (free : ∀ i ∈ batch.inserts, cr ∉ i.text)
    {after : Buffer} (applied : b.apply batch = .ok after) : b.text ⊆ after.text := by
  obtain ⟨afterUnix, -⟩ := unix.apply_crlfEnded free applied
  have taken : ¬ b.Refuses batch := by
    intro refused
    obtain ⟨e, stop⟩ := apply_of_refuses refused
    rw [stop] at applied
    cases applied
  by_cases empty : batch.inserts = []
  · rw [apply, if_neg (not_or.mp taken).1, if_pos (by simp [empty])] at applied
    obtain rfl := Except.ok.inj applied
    exact List.Subset.refl _
  · rw [unix.whole.apply_combined taken empty] at applied
    obtain rfl := Except.ok.inj applied
    have combinedFree := unix.notMem_combined free
    have closed : (b.combined batch).getLast? ≠ some cr :=
      fun ends => combinedFree (List.mem_of_getLast? ends)
    have plain : ¬ [cr, lf] <:+: b.combined batch :=
      fun occurs => combinedFree (occurs.subset (by simp))
    have rendered := unix.whole.joinWith_combined taken closed fun _ => plain
    rw [show Buffer.text { b with lines := (b.combined batch).cutLines, version := b.version + 1 } =
      _ from rendered]
    exact subset_weave _ 0 _

end Unix

/-- A session without carriage returns does the same with line ends of two bytes,
and keeps every byte of the text. -/
theorem Unix.attemptAll_crlfEnded {b : Buffer} (unix : b.Unix) {batches : List Batch}
    (free : ∀ batch ∈ b.accepted batches, ∀ i ∈ batch.inserts, cr ∉ i.text) :
    (b.attemptAll batches).Unix ∧ b.text ⊆ (b.attemptAll batches).text ∧
      b.crlfEnded.attemptAll batches = (b.attemptAll batches).crlfEnded := by
  induction batches generalizing b with
  | nil => exact ⟨unix, List.Subset.refl _, rfl⟩
  | cons batch rest ih =>
      have first : b.attemptAll (batch :: rest) = (b.attempt batch).attemptAll rest := rfl
      have first' : b.crlfEnded.attemptAll (batch :: rest) =
          (b.crlfEnded.attempt batch).attemptAll rest := rfl
      rw [first, first']
      cases tried : b.apply batch with
      | error e =>
          obtain ⟨e', tried'⟩ := unix.refused_crlfEnded_iff.mpr ⟨e, tried⟩
          rw [accepted, tried] at free
          rw [attempt, tried, attempt, tried']
          exact ih unix free
      | ok after =>
          rw [accepted, tried] at free
          have batchFree := free batch (by simp)
          obtain ⟨afterUnix, tried'⟩ := unix.apply_crlfEnded batchFree tried
          rw [attempt, tried, attempt, tried']
          obtain ⟨lastUnix, kept, same⟩ :=
            ih afterUnix fun other member => free other (by simp [member])
          exact ⟨lastUnix, List.Subset.trans (unix.text_subset batchFree tried) kept, same⟩

theorem Unix.accepted_crlfEnded {b : Buffer} (unix : b.Unix) {batches : List Batch}
    (free : ∀ batch ∈ b.crlfEnded.accepted batches, ∀ i ∈ batch.inserts, cr ∉ i.text) :
    b.crlfEnded.accepted batches = b.accepted batches := by
  induction batches generalizing b with
  | nil => rfl
  | cons batch rest ih =>
      cases tried : b.apply batch with
      | error e =>
          obtain ⟨e', tried'⟩ := unix.refused_crlfEnded_iff.mpr ⟨e, tried⟩
          rw [accepted, tried'] at free
          rw [accepted, tried', accepted, tried]
          exact ih unix free
      | ok after =>
          cases tried' : b.crlfEnded.apply batch with
          | error e =>
              obtain ⟨e', refused⟩ := unix.refused_crlfEnded_iff.mp ⟨e, tried'⟩
              rw [refused] at tried
              cases tried
          | ok after' =>
              rw [accepted, tried'] at free
              obtain ⟨afterUnix, converted⟩ := unix.apply_crlfEnded (free batch (by simp)) tried
              obtain rfl := Except.ok.inj (tried'.symm.trans converted)
              rw [accepted, tried', accepted, tried]
              exact congrArg (batch :: ·)
                (ih afterUnix fun other member => free other (by simp [member]))

/-! ## Opening again -/

theorem Unix.ofText_text {b : Buffer} (unix : b.Unix) :
    ofText b.text = { b with version := 1 } := by
  obtain ⟨t, holds⟩ := unix.whole.exists_text
  have same : b.text = t := by rw [text_eq holds, unix.withEnding]
  have free := unix.notMem_text
  rw [ofText_of_free free, (cutLines_of_free free).1, same, ← holds, unix.ending]

/-- Line ends of two bytes are found again if there is a line end. -/
theorem Unix.ofText_text_crlfEnded {b : Buffer} (unix : b.Unix) (lined : lf ∈ b.text) :
    ofText b.crlfEnded.text = { b.crlfEnded with version := 1 } := by
  rw [unix.text_crlfEnded, ofText_crlf unix.notMem_text lined, unix.ofText_text]
  rfl

theorem text_ofText_of_free {t : Text} (free : cr ∉ t) : (ofText t).text = t := by
  rw [ofText_of_free free, text, (cutLines_of_free free).1]
  exact joinWith_splitAt_self lf t

end Buffer

/-- At every moment of a session there is a line, no line holds a line feed and
the line end is the one that was chosen first.  When the text had even line ends
and no carriage return was inserted, no line holds one, and the text of the
buffer is opened with the same lines and the same line end. -/
theorem reached_reopened (t : Text) (batches : List Batch) :
    (reached t batches).lines ≠ [] ∧ (∀ l ∈ (reached t batches).lines, lf ∉ l) ∧
      (reached t batches).ending = (Buffer.ofText t).ending ∧
      (EvenEnds t → (∀ batch ∈ (Buffer.ofText t).accepted batches, ∀ i ∈ batch.inserts,
        cr ∉ i.text) →
        (∀ l ∈ (reached t batches).lines, cr ∉ l) ∧
        (Buffer.ofText (reached t batches).text).lines = (reached t batches).lines ∧
        (Buffer.ofText (reached t batches).text).ending = (reached t batches).ending) := by
  have whole : (reached t batches).Whole := (Buffer.whole_ofText t).attemptAll batches
  refine ⟨whole.nonempty, whole.apart, Buffer.attemptAll_ending _ batches, ?_⟩
  intro even free
  have unixOf {u : Text} (uFree : cr ∉ u) : (Buffer.ofText u).Unix := by
    rw [Buffer.ofText_of_free uFree]
    exact Buffer.unix_of_free uFree 1
  -- A text without a line feed counts as one without carriage returns.
  have cases : cr ∉ t ∨ ∃ u, cr ∉ u ∧ lf ∈ u ∧ t = crlf u := by
    rcases even with none | ⟨notLf, paired⟩
    · exact Or.inl none
    · obtain ⟨u, uFree, rfl⟩ := exists_crlf notLf paired
      by_cases lined : lf ∈ u
      · exact Or.inr ⟨u, uFree, lined, rfl⟩
      · exact Or.inl (by rwa [crlf_of_notMem lined])
  rcases cases with tFree | ⟨u, uFree, lined, rfl⟩
  · obtain ⟨unix, -, -⟩ := (unixOf tFree).attemptAll_crlfEnded free
    rw [← reached] at unix
    rw [unix.ofText_text]
    exact ⟨unix.free, rfl, rfl⟩
  · have start := Buffer.ofText_crlf uFree lined
    rw [start] at free
    rw [(unixOf uFree).accepted_crlfEnded free] at free
    obtain ⟨unix, kept, converted⟩ := (unixOf uFree).attemptAll_crlfEnded free
    rw [Buffer.text_ofText_of_free uFree] at kept
    rw [reached, start, converted, unix.ofText_text_crlfEnded (kept lined)]
    exact ⟨unix.free, rfl, rfl⟩

/-- A line put behind the last one of a CRLF text, and an edit that comes too
late. -/
theorem reached_reopened_crlf :
    (reached (utf8 "a\r\nb") [⟨1, [⟨⟨2, 0⟩, utf8 "\nc"⟩]⟩,
      ⟨1, [⟨⟨0, 0⟩, utf8 "\r"⟩]⟩]).text = utf8 "a\r\nb\r\nc" ∧
      (Buffer.ofText (utf8 "a\r\nb\r\nc")).ending = .crlf := by
  have rendered : (reached (utf8 "a\r\nb")
      [⟨1, [⟨⟨2, 0⟩, utf8 "\nc"⟩]⟩, ⟨1, [⟨⟨0, 0⟩, utf8 "\r"⟩]⟩]).text =
        utf8 "a\r\nb\r\nc" := by
    decide +kernel
  have even : EvenEnds (utf8 "a\r\nb") := by
    refine Or.inr ⟨by decide, fun i => ?_⟩
    match i with
    | 0 => decide
    | 1 => decide
    | 2 => decide
    | 3 => decide
    | i + 4 => exact iff_of_false (fun found => nomatch found) (fun found => nomatch found)
  obtain ⟨-, -, ending, reopened⟩ := reached_reopened (utf8 "a\r\nb")
    [⟨1, [⟨⟨2, 0⟩, utf8 "\nc"⟩]⟩, ⟨1, [⟨⟨0, 0⟩, utf8 "\r"⟩]⟩]
  have same := (reopened even (by decide +kernel)).2.2
  rw [rendered, ending] at same
  exact ⟨rendered, same⟩

end ModuleDeps
