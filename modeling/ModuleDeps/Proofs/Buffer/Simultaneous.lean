import Mathlib.Data.List.GetD
import ModuleDeps.Proofs.Staleness

/-!
# Insertions made at once

All places of a batch are places of the text before the batch.  The buffer
carries the insertions out one after the other, from the last offset to the
first; what comes out is the text with each insertion put at its own offset,
`combined`, which knows no order but that of insertions at one offset.

Cutting the result into lines and putting these together again gives it back,
unless a carriage return stands where a line end would take it.
-/

set_option autoImplicit false

namespace ModuleDeps

open Text

/-! ## Weaving texts into a text -/

namespace Text

/-- The bytes of a text from byte `k` on, with `extra i` put in front of byte
`i` and at the end. -/
def weave (extra : Nat → Text) : Nat → Text → Text
  | k, [] => extra k
  | k, b :: rest => extra k ++ b :: weave extra (k + 1) rest

/-- Takes the `size i` bytes in front of byte `i` out again, for a text of `n`
bytes from byte `k` on. -/
def unweave (size : Nat → Nat) : Nat → Nat → Text → Text
  | k, 0, t => t.drop (size k)
  | k, n + 1, t => (t.drop (size k)).take 1 ++ unweave size (k + 1) n (t.drop (size k + 1))

theorem unweave_weave (extra : Nat → Text) (k : Nat) (t : Text) :
    unweave (fun i => (extra i).length) k t.length (weave extra k t) = t := by
  induction t generalizing k with
  | nil => simp [weave, unweave]
  | cons b rest ih =>
      have lead : (weave extra k (b :: rest)).drop (extra k).length =
          b :: weave extra (k + 1) rest := by
        rw [weave, List.drop_left]
      rw [List.length_cons, unweave, ← List.drop_drop, lead]
      simp [ih]

theorem weave_congr {extra other : Nat → Text} {k : Nat}
    (same : ∀ i, k ≤ i → extra i = other i) (t : Text) :
    weave extra k t = weave other k t := by
  induction t generalizing k with
  | nil => exact same k (Nat.le_refl k)
  | cons b rest ih =>
      rw [weave, weave, same k (Nat.le_refl k), ih fun i later => same i (by omega)]

theorem weave_nothing (k : Nat) (t : Text) : weave (fun _ => []) k t = t := by
  induction t generalizing k with
  | nil => rfl
  | cons b rest ih => rw [weave, ih, List.nil_append]

theorem weave_skip {extra : Nat → Text} {n : Nat} :
    ∀ {k : Nat} {t : Text}, n ≤ t.length → (∀ i, k ≤ i → i < k + n → extra i = []) →
      weave extra k t = t.take n ++ weave extra (k + n) (t.drop n) := by
  induction n with
  | zero => simp
  | succ n ih =>
      intro k t bound nothing
      obtain ⟨b, rest, rfl⟩ :=
        List.exists_cons_of_length_pos (Nat.lt_of_lt_of_le n.succ_pos bound)
      have further := ih (k := k + 1) (t := rest) (by simpa using bound)
        fun i later early => nothing i (by omega) (by omega)
      rw [weave, nothing k (Nat.le_refl k) (by omega), further]
      simp [Nat.add_comm 1 n, Nat.add_assoc]

theorem weave_lead {extra other : Nat → Text} {k : Nat} {s : Text}
    (first : other k = s ++ extra k) (same : ∀ i, k < i → other i = extra i) (t : Text) :
    weave other k t = s ++ weave extra k t := by
  cases t with
  | nil => exact first
  | cons b rest =>
      rw [weave, weave, first, weave_congr (fun i later => same i later), List.append_assoc]

end Text

/-! ## The order of the splices -/

namespace Splice

def joined (splices : List Splice) (k : Nat) : Text :=
  (splices.filter fun s => s.offset == k).flatMap (·.text)

/-- No offset is larger than one in front of it. -/
def Descending (splices : List Splice) : Prop :=
  splices.Pairwise fun s later => later.offset ≤ s.offset

theorem mem_place {s x : Splice} {splices : List Splice} :
    x ∈ s.place splices ↔ x = s ∨ x ∈ splices := by
  induction splices with
  | nil => simp [place]
  | cons first rest ih =>
      rw [place]
      split
      · simp
      · rw [List.mem_cons, ih, List.mem_cons]
        tauto

theorem Descending.place {splices : List Splice} (sorted : Descending splices) (s : Splice) :
    Descending (s.place splices) := by
  induction splices with
  | nil => simp [Splice.place, Descending]
  | cons first rest ih =>
      obtain ⟨firstLargest, restSorted⟩ := List.pairwise_cons.mp sorted
      rw [Splice.place]
      split
      · rename_i reached
        refine List.pairwise_cons.mpr ⟨?_, sorted⟩
        intro x member
        rcases List.mem_cons.mp member with rfl | member
        · exact reached
        · exact Nat.le_trans (firstLargest x member) reached
      · rename_i notReached
        refine List.pairwise_cons.mpr ⟨?_, ih restSorted⟩
        intro x member
        rcases mem_place.mp member with rfl | member
        · omega
        · exact firstLargest x member

theorem filter_place (s : Splice) (k : Nat) (splices : List Splice) :
    (s.place splices).filter (·.offset == k) = (s :: splices).filter (·.offset == k) := by
  induction splices with
  | nil => rfl
  | cons first rest ih =>
      rw [place]
      split
      · rfl
      · -- The two splices change places only when their offsets differ.
        rename_i notReached
        rw [List.filter_cons, ih]
        by_cases here : first.offset = k
        · have elsewhere : s.offset ≠ k := by omega
          simp [here, elsewhere]
        · simp [List.filter_cons, here]

theorem arrange_concat (splices : List Splice) (s : Splice) :
    arrange (splices ++ [s]) = s.place (arrange splices) := by
  simp [arrange]

theorem descending_arrange (splices : List Splice) : Descending (arrange splices) := by
  induction splices using List.reverseRecOn with
  | nil => exact List.Pairwise.nil
  | append_singleton splices s ih =>
      rw [arrange_concat]
      exact ih.place s

theorem mem_arrange {x : Splice} {splices : List Splice} :
    x ∈ arrange splices ↔ x ∈ splices := by
  induction splices using List.reverseRecOn with
  | nil => rfl
  | append_singleton splices s ih =>
      rw [arrange_concat, mem_place, ih, List.mem_append, List.mem_singleton]
      tauto

theorem filter_arrange (splices : List Splice) (k : Nat) :
    (arrange splices).filter (·.offset == k) = (splices.filter (·.offset == k)).reverse := by
  induction splices using List.reverseRecOn with
  | nil => rfl
  | append_singleton splices s ih =>
      rw [arrange_concat, filter_place, List.filter_cons, ih, List.filter_append]
      by_cases here : s.offset = k <;> simp [here]

theorem joined_eq_nil {splices : List Splice} {k : Nat} (none : ∀ s ∈ splices, s.offset ≠ k) :
    joined splices k = [] := by
  have empty : splices.filter (fun s => s.offset == k) = [] :=
    List.filter_eq_nil_iff.mpr fun s member => by simpa using none s member
  rw [joined, empty, List.flatMap_nil]

/-- The splices carried out one after the other.  Each of them meets the bytes
up to its offset as they were. -/
theorem foldl_run {t : Text} {splices : List Splice} (sorted : Descending splices)
    (inside : ∀ s ∈ splices, s.offset ≤ t.length) :
    splices.foldl run t = weave (joined splices.reverse) 0 t := by
  induction splices using List.reverseRecOn with
  | nil => exact (weave_nothing 0 t).symm
  | append_singleton splices s ih =>
      obtain ⟨earlierSorted, -, smallest⟩ := List.pairwise_append.mp sorted
      have sInside : s.offset ≤ t.length := inside s (by simp)
      have notBelow {i : Nat} (below : i < s.offset) {x : Splice} (member : x ∈ splices) :
          x.offset ≠ i := by
        have := smallest x member s (by simp)
        omega
      have earlier := ih earlierSorted fun x member => inside x (by simp [member])
      rw [weave_skip sInside fun i _ below => joined_eq_nil fun x member =>
        notBelow (by omega) (List.mem_reverse.mp member)] at earlier
      have all : weave (joined (splices ++ [s]).reverse) 0 t =
          t.take s.offset ++
            (s.text ++ weave (joined splices.reverse) (0 + s.offset) (t.drop s.offset)) := by
        rw [List.reverse_concat, weave_skip sInside]
        · congr 1
          apply weave_lead
          · simp [joined]
          · intro i later
            have : s.offset ≠ i := by omega
            simp [joined, this]
        · intro i _ below
          apply joined_eq_nil
          intro x member
          rcases List.mem_cons.mp member with rfl | member
          · omega
          · exact notBelow (by omega) (List.mem_reverse.mp member)
      have here : (t.take s.offset).length = s.offset := List.length_take_of_le sInside
      rw [List.foldl_append, List.foldl_cons, List.foldl_nil, earlier, all, ← run_at, here]

theorem foldl_run_arrange {t : Text} {splices : List Splice}
    (inside : ∀ s ∈ splices, s.offset ≤ t.length) :
    (arrange splices).foldl run t = weave (joined splices) 0 t := by
  rw [foldl_run (descending_arrange splices) fun s member => inside s (mem_arrange.mp member)]
  apply weave_congr
  intro i _
  rw [joined, List.filter_reverse, filter_arrange, List.reverse_reverse, joined]

end Splice

/-! ## Line ends of two bytes -/

namespace Text

/-- Every line feed follows a carriage return; `led` says whether one stands in
front of the text. -/
def paired : Bool → Text → Bool
  | _, [] => true
  | led, b :: rest => (b != lf || led) && paired (b == cr) rest

theorem paired_mono {t : Text} (led : Bool) (alone : paired false t = true) :
    paired led t = true := by
  cases t with
  | nil => rfl
  | cons b rest =>
      simp only [paired, Bool.or_false, Bool.and_eq_true] at alone ⊢
      simp [alone]

theorem paired_append {s : Text} {led : Bool} {c : UInt8} {t : Text} (front : paired led s = true)
    (notLf : c ≠ lf) (back : paired (c == cr) t = true) : paired led (s ++ c :: t) = true := by
  induction s generalizing led with
  | nil => simp [paired, notLf, back]
  | cons b rest ih =>
      simp only [paired, Bool.and_eq_true] at front
      rw [List.cons_append, paired, Bool.and_eq_true]
      exact ⟨front.1, ih front.2⟩

theorem paired_replaceByte (t : Text) : paired false (t.replaceByte lf [cr, lf]) = true := by
  have plain : (cr != lf) = true := by decide
  have led : (lf == cr) = false := by decide
  rw [replaceByte]
  induction t with
  | nil => rfl
  | cons b rest ih =>
      rw [List.flatMap_cons]
      by_cases isLf : b = lf
      · simp [isLf, paired, plain, led, ih]
      · simp [isLf, paired, paired_mono _ ih]

/-- Texts with paired line ends, woven in where no pair is torn apart. -/
theorem paired_weave {extra : Nat → Text} (each : ∀ i, paired false (extra i) = true) :
    ∀ {t : Text} {k : Nat} {led : Bool}, paired led t = true →
      (∀ i, extra (k + i) ≠ [] → t[i]? ≠ some lf) →
      paired led (weave extra k t) = true := by
  intro t
  induction t with
  | nil =>
      intro k led _ _
      exact paired_mono led (each k)
  | cons b rest ih =>
      intro k led pairs seams
      simp only [paired, Bool.and_eq_true] at pairs
      have further : paired (b == cr) (weave extra (k + 1) rest) = true := by
        apply ih pairs.2
        intro i inserted
        have seam := seams (i + 1) (by rwa [← Nat.add_assoc, Nat.add_right_comm])
        simpa using seam
      rw [weave]
      by_cases none : extra k = []
      · rw [none, List.nil_append, paired, Bool.and_eq_true]
        exact ⟨pairs.1, further⟩
      · have notLf : b ≠ lf := by
          intro isLf
          exact seams 0 none (by simp [isLf])
        exact paired_append (paired_mono led (each k)) notLf further

theorem getLast?_of_paired {l t : Text} {led : Bool} (apart : lf ∉ l)
    (pairs : paired led (l ++ lf :: t) = true) :
    ((l = [] ∧ led = true) ∨ l.getLast? = some cr) ∧ paired false t = true := by
  have led' : (lf == cr) = false := by decide
  induction l generalizing led with
  | nil =>
      simp only [List.nil_append, paired, led', Bool.and_eq_true] at pairs
      simpa using pairs
  | cons b rest ih =>
      have notLf : b ≠ lf := by
        rintro rfl
        exact apart (by simp)
      simp only [List.cons_append, paired, Bool.and_eq_true] at pairs
      obtain ⟨ends, further⟩ := ih (fun member => apart (by simp [member])) pairs.2
      refine ⟨Or.inr ?_, further⟩
      rcases ends with ⟨rfl, isCr⟩ | ends
      · simpa using isCr
      · rw [List.getLast?_cons, ends]
        rfl

theorem exists_paired {lines : List Text} {v : Text} (whole : ∀ l ∈ lines, lf ∉ l)
    (pairs : paired false (stacked lines ++ v) = true) :
    ∃ plain : List Text, lines = plain.map (· ++ [cr]) := by
  induction lines with
  | nil => exact ⟨[], rfl⟩
  | cons l lines ih =>
      rw [stacked_cons, List.append_assoc, List.cons_append] at pairs
      obtain ⟨ends, further⟩ := getLast?_of_paired (whole l (by simp)) pairs
      obtain ⟨plain, rfl⟩ := ih (fun x member => whole x (by simp [member])) further
      have endsInCr : l.getLast? = some cr := by simpa using ends
      refine ⟨l.dropLast :: plain, ?_⟩
      rw [List.map_cons, List.dropLast_append_getLast? cr endsInCr]

theorem getLast?_of_stacked {lines : List Text} {v : Text}
    (closed : (stacked lines ++ v).getLast? ≠ some cr) : v.getLast? ≠ some cr := by
  intro ends
  apply closed
  rw [List.getLast?_append, ends]
  rfl

/-- Line ends of one byte: nothing is lost when no line ends in a carriage
return. -/
theorem joinWith_cutLines_lf {t : Text} (closed : t.getLast? ≠ some cr)
    (plain : ¬ [cr, lf] <:+: t) :
    joinWith [lf] t.cutLines = t := by
  obtain ⟨lines, v, whole, apart, rfl⟩ := exists_stacked t
  have kept : lines.map dropCr = lines := by
    conv_rhs => rw [← List.map_id lines]
    apply List.map_congr_left
    intro l member
    apply dropCr_of_getLast?
    intro ends
    obtain ⟨above, below, rfl⟩ := List.append_of_mem member
    apply plain
    refine ⟨stacked above ++ l.dropLast, stacked below ++ v, ?_⟩
    conv_rhs => rw [stacked_append, stacked_cons, ← List.dropLast_append_getLast? cr ends]
    simp
  rw [cutLines_stacked whole apart, kept, dropCr_of_getLast? (getLast?_of_stacked closed),
    ← stacked_concat_eq]

/-- Line ends of two bytes: nothing is lost when they are paired. -/
theorem joinWith_cutLines_crlf {t : Text} (closed : t.getLast? ≠ some cr)
    (pairs : paired false t = true) :
    joinWith [cr, lf] t.cutLines = t := by
  obtain ⟨lines, v, whole, apart, rfl⟩ := exists_stacked t
  obtain ⟨plain, rfl⟩ := exists_paired whole pairs
  have plainWhole : ∀ l ∈ plain, lf ∉ l := by
    intro l member inLine
    exact whole (l ++ [cr]) (List.mem_map_of_mem member) (by simp [inLine])
  have dropped : (plain.map (· ++ [cr])).map dropCr = plain := by
    rw [List.map_map]
    exact List.map_id'' dropCr_concat plain
  rw [cutLines_stacked whole apart, dropped, dropCr_of_getLast? (getLast?_of_stacked closed),
    ← replaceByte_stacked plainWhole apart, ← joinWith_splitAt, splitAt_stacked plainWhole,
    splitAt_of_notMem apart]

end Text

/-! ## Batches -/

namespace Buffer

/-- The text in front of a place.  The column is moved into its line, and a
line past the last one means the end of the text. -/
def front (b : Buffer) (p : Position) : Text :=
  if p.line < b.lineCount then
    joinWith b.ending.bytes
      (b.lines.take p.line.toNat ++ [(b.line p.line).take p.column.toNat])
  else b.text

/-- What a batch puts in front of byte `k`, in the order of the batch. -/
def insertedAt (b : Buffer) (batch : Batch) (k : Nat) : Text :=
  (batch.inserts.filter fun i => (b.front i.place).length == k).flatMap fun i => b.withEnding i.text

/-- The text with all insertions of a batch made at once. -/
def combined (b : Buffer) (batch : Batch) : Text := weave (b.insertedAt batch) 0 b.text

/-- A batch made for another version, or one with an insertion that lies
neither on a line nor right behind the last one. -/
def Refuses (b : Buffer) (batch : Batch) : Prop :=
  batch.version ≠ 0 ∧ batch.version ≠ b.version ∨
    ∃ i ∈ batch.inserts, i.place.line < 0 ∨ b.lineCount < i.place.line

theorem withEnding_stacked (b : Buffer) {above : List Text} {v : Text}
    (whole : ∀ l ∈ above, lf ∉ l) (apart : lf ∉ v) :
    b.withEnding (stacked above ++ v) = joinWith b.ending.bytes (above ++ [v]) := by
  rw [withEnding_eq, ← joinWith_splitAt, splitAt_stacked whole, splitAt_of_notMem apart]

theorem offsetIn_clamp (width : Nat) (above below : List Text) (l : Text) (column : Int) :
    offsetIn width (above ++ l :: below) above.length column =
      offsetIn width (above ++ l :: below) above.length (l.take column.toNat).length := by
  induction above with
  | nil =>
      have moved : min column.toNat l.length =
          min ((l.take column.toNat).length : Int).toNat l.length := by
        rw [List.length_take]
        omega
      cases below <;> exact moved
  | cons first above ih =>
      rw [List.cons_append, List.length_cons, offsetIn_cons _ _ (by simp),
        offsetIn_cons _ _ (by simp), ih]

theorem Whole.around {b : Buffer} (whole : b.Whole) {n : Nat} {v y : Text}
    (line : b.lines[n]? = some (v ++ y)) :
    b.lines = b.lines.take n ++ (v ++ y) :: b.lines.drop (n + 1) ∧ (b.lines.take n).length = n ∧
      (∀ l ∈ b.lines.take n, lf ∉ l) ∧ lf ∉ v ∧ lf ∉ y ∧
      ∀ l ∈ b.lines.drop (n + 1), lf ∉ l := by
  obtain ⟨bound, atLine⟩ := List.getElem?_eq_some_iff.mp line
  have apart : lf ∉ v ++ y := whole.apart _ (List.mem_of_getElem? line)
  rw [List.mem_append, not_or] at apart
  refine ⟨?_, List.length_take_of_le (Nat.le_of_lt bound),
    fun l member => whole.apart l (List.mem_of_mem_take member),
    apart.1, apart.2, fun l member => whole.apart l (List.mem_of_mem_drop member)⟩
  rw [← atLine, ← List.drop_eq_getElem_cons bound, List.take_append_drop]

/-- The text is cut in front of a place into two parts, neither of which has
half a line end. -/
theorem Whole.exists_front {b : Buffer} (whole : b.Whole) {p : Position} (nonneg : 0 ≤ p.line) :
    ∃ X Y, b.lines = splitAt lf (X ++ Y) ∧ b.front p = b.withEnding X ∧
      b.offset p = .ok (b.front p).length := by
  have notNeg : ¬ p.line < 0 := by omega
  unfold front
  split
  · rename_i inside
    obtain ⟨n, atLine⟩ : ∃ n : Nat, p.line = n := ⟨p.line.toNat, by omega⟩
    have bound : n < b.lines.length := by
      rw [lineCount] at inside
      omega
    have line :
        b.lines[n]? = some ((b.line n).take p.column.toNat ++ (b.line n).drop p.column.toNat) := by
      rw [List.take_append_drop, line_natCast, List.getD_eq_getElem _ _ bound,
        List.getElem?_eq_getElem bound]
    obtain ⟨cut, above, aboveWhole, vApart, yApart, belowWhole⟩ := whole.around line
    rw [atLine, Int.toNat_natCast, ← withEnding_stacked b aboveWhole vApart]
    refine ⟨_, (b.line n).drop p.column.toNat ++ hung (b.lines.drop (n + 1)), ?_, rfl, ?_⟩
    · rw [splitAt_around aboveWhole vApart yApart belowWhole]
      exact cut
    · rw [List.take_append_drop] at cut
      rw [offset, if_neg notNeg, ← offsetIn_around b _ ((b.line n).drop p.column.toNat)
        (b.lines.drop (n + 1)) vApart _ aboveWhole, List.take_append_drop,
          ← offsetIn_clamp, ← cut,
        above, atLine, Int.toNat_natCast]
  · rename_i past
    obtain ⟨t, holds⟩ := whole.exists_text
    refine ⟨t, [], by rw [holds, List.append_nil], text_eq holds, ?_⟩
    rw [offset, if_neg notNeg]
    refine congrArg Except.ok (offsetIn_past b.ending.bytes p.column b.lines ?_)
    rw [lineCount] at past
    omega

section Accepted

variable {b : Buffer} {batch : Batch}

theorem Whole.length_front (whole : b.Whole) {p : Position} (nonneg : 0 ≤ p.line) :
    (b.front p).length ≤ b.text.length := by
  obtain ⟨X, Y, holds, front, -⟩ := whole.exists_front nonneg
  rw [front, text_eq holds, withEnding_append, List.length_append]
  omega

theorem Whole.splice_eq (whole : b.Whole) {i : Insertion} (above : 0 ≤ i.place.line)
    (below : i.place.line ≤ b.lineCount) :
    b.splice i = .ok ⟨(b.front i.place).length, b.withEnding i.text⟩ := by
  have inRange : ¬ (i.place.line < 0 ∨ (b.lineCount : Int) < i.place.line) := by omega
  obtain ⟨-, -, -, -, place⟩ := whole.exists_front above
  rw [splice, if_neg inRange, place]

theorem Whole.mapM_splice (whole : b.Whole) : ∀ {inserts : List Insertion},
    (∀ i ∈ inserts, 0 ≤ i.place.line ∧ i.place.line ≤ b.lineCount) →
      inserts.mapM b.splice =
        .ok (inserts.map fun i => ⟨(b.front i.place).length, b.withEnding i.text⟩) := by
  intro inserts
  induction inserts with
  | nil => exact fun _ => rfl
  | cons i inserts ih =>
      intro inRange
      have first := whole.splice_eq (inRange i (by simp)).1 (inRange i (by simp)).2
      have rest := ih fun j member => inRange j (by simp [member])
      rw [List.mapM_cons, first, rest]
      rfl

theorem mapM_splice_eq_error {inserts : List Insertion}
    (bad : ∃ i ∈ inserts, i.place.line < 0 ∨ b.lineCount < i.place.line) :
    ∃ e, inserts.mapM b.splice = .error e := by
  induction inserts with
  | nil => simp at bad
  | cons i inserts ih =>
      rw [List.mapM_cons]
      cases first : b.splice i with
      | error e => exact ⟨e, rfl⟩
      | ok s =>
          obtain ⟨j, member, outside⟩ := bad
          rcases List.mem_cons.mp member with rfl | member
          · rw [splice, if_pos outside] at first
            cases first
          · obtain ⟨e, rest⟩ := ih ⟨j, member, outside⟩
            refine ⟨e, ?_⟩
            rw [rest]
            rfl

theorem apply_of_refuses (refused : b.Refuses batch) : ∃ e, b.apply batch = .error e := by
  rw [apply]
  split
  · exact ⟨_, rfl⟩
  · rename_i notStale
    have bad : ∃ i ∈ batch.inserts, i.place.line < 0 ∨ b.lineCount < i.place.line :=
      refused.resolve_left notStale
    have nonempty : ¬ batch.inserts.isEmpty = true := by
      obtain ⟨i, member, -⟩ := bad
      simpa using List.ne_nil_of_mem member
    obtain ⟨e, stopped⟩ := mapM_splice_eq_error bad
    rw [if_neg nonempty, stopped]
    exact ⟨e, rfl⟩

theorem fits_of_not_refuses (taken : ¬ b.Refuses batch) :
    (batch.version = 0 ∨ batch.version = b.version) ∧
      ∀ i ∈ batch.inserts, 0 ≤ i.place.line ∧ i.place.line ≤ b.lineCount := by
  rw [Refuses, not_or] at taken
  refine ⟨by tauto, ?_⟩
  intro i member
  have inRange : ¬ (i.place.line < 0 ∨ (b.lineCount : Int) < i.place.line) := fun outside =>
    taken.2 ⟨i, member, outside⟩
  omega

/-- All insertions of an accepted batch are made at once. -/
theorem Whole.apply_combined (whole : b.Whole) (taken : ¬ b.Refuses batch)
    (nonempty : batch.inserts ≠ []) :
    b.apply batch = .ok { b with
      lines := (b.combined batch).cutLines
      version := b.version + 1 } := by
  obtain ⟨fits, inRange⟩ := fits_of_not_refuses taken
  rw [apply_of_fit fits nonempty (whole.mapM_splice inRange), edited, Splice.foldl_run_arrange]
  · have same : Splice.joined (batch.inserts.map fun i =>
        ⟨(b.front i.place).length, b.withEnding i.text⟩) = b.insertedAt batch := by
      funext k
      rw [Splice.joined, List.filter_map, List.flatMap_map]
      rfl
    rw [same, combined]
  · intro s member
    obtain ⟨i, iMember, rfl⟩ := List.mem_map.mp member
    exact whole.length_front (inRange i iMember).1

/-! ## The text of the edited buffer -/

/-- With line ends of two bytes no insertion comes between the two. -/
theorem Whole.seam (whole : b.Whole) (ending : b.ending = .crlf) (taken : ¬ b.Refuses batch)
    {k : Nat} (inserted : b.insertedAt batch k ≠ []) : b.text[k]? ≠ some lf := by
  have some : batch.inserts.filter (fun i => (b.front i.place).length == k) ≠ [] := by
    intro empty
    rw [insertedAt, empty] at inserted
    exact inserted rfl
  obtain ⟨i, member⟩ := List.exists_mem_of_ne_nil _ some
  obtain ⟨iMember, offset⟩ := List.mem_filter.mp member
  obtain ⟨X, Y, holds, front, -⟩ :=
    whole.exists_front ((fits_of_not_refuses taken).2 i iMember).1
  have here : (b.withEnding X).length = k := by simpa [front] using offset
  rw [text_eq holds, withEnding_append, List.getElem?_append_right (by omega), here, Nat.sub_self,
    withEnding, ending]
  cases Y with
  | nil => simp [replaceByte]
  | cons c rest =>
      have distinct : cr ≠ lf := by decide
      by_cases isLf : c = lf <;> simp [replaceByte, isLf, distinct]

theorem paired_withEnding (ending : b.ending = .crlf) (t : Text) :
    paired false (b.withEnding t) = true := by
  rw [withEnding, ending]
  exact paired_replaceByte t

theorem Whole.paired_combined (whole : b.Whole) (ending : b.ending = .crlf)
    (taken : ¬ b.Refuses batch) :
    paired false (b.combined batch) = true := by
  obtain ⟨t, holds⟩ := whole.exists_text
  have each (k : Nat) : paired false (b.insertedAt batch k) = true := by
    have collected : b.insertedAt batch k = b.withEnding
        ((batch.inserts.filter fun i => (b.front i.place).length == k).flatMap (·.text)) := by
      rw [insertedAt, withEnding_eq, replaceByte, List.flatMap_assoc]
      simp only [withEnding_eq, replaceByte]
    rw [collected]
    exact paired_withEnding ending _
  have textPaired : paired false b.text = true := by
    rw [text_eq holds]
    exact paired_withEnding ending t
  refine paired_weave each textPaired ?_
  intro i inserted
  rw [Nat.zero_add] at inserted
  exact whole.seam ending taken inserted

/-- The lines of the combined text are the text again, unless a carriage return
is taken for half a line end. -/
theorem Whole.joinWith_combined (whole : b.Whole) (taken : ¬ b.Refuses batch)
    (closed : (b.combined batch).getLast? ≠ some cr)
    (plain : b.ending = .lf → ¬ [cr, lf] <:+: b.combined batch) :
    joinWith b.ending.bytes (b.combined batch).cutLines = b.combined batch := by
  cases ending : b.ending with
  | lf => exact joinWith_cutLines_lf closed (plain ending)
  | crlf => exact joinWith_cutLines_crlf closed (whole.paired_combined ending taken)

end Accepted

end Buffer

/-- A batch is carried out at once or not at all.  A refused one changes nothing
and so does one without insertions; any other raises the version and gives the
lines of the combined text.  Where these lines give the combined text back,
taking the inserted texts out of it leaves the text there was. -/
theorem apply_all_or_nothing (t : Text) (past : List Batch) (batch : Batch) :
    ((reached t past).Refuses batch →
      (∃ e, (reached t past).apply batch = .error e) ∧
        (reached t past).attempt batch = reached t past) ∧
    (¬ (reached t past).Refuses batch → batch.inserts = [] →
      (reached t past).apply batch = .ok (reached t past)) ∧
    (¬ (reached t past).Refuses batch → batch.inserts ≠ [] →
      ∃ after, (reached t past).apply batch = .ok after ∧
        after.version = (reached t past).version + 1 ∧ after.ending = (reached t past).ending ∧
        after.lines = ((reached t past).combined batch).cutLines ∧
        (((reached t past).combined batch).getLast? ≠ some cr →
          ((reached t past).ending = .lf → ¬ [cr, lf] <:+: (reached t past).combined batch) →
          after.text = (reached t past).combined batch ∧
            unweave (fun k => ((reached t past).insertedAt batch k).length) 0
              (reached t past).text.length after.text = (reached t past).text)) := by
  have whole : (reached t past).Whole := (Buffer.whole_ofText t).attemptAll past
  refine ⟨?_, ?_, ?_⟩
  · intro refused
    obtain ⟨e, stopped⟩ := Buffer.apply_of_refuses refused
    exact ⟨⟨e, stopped⟩, by rw [Buffer.attempt, stopped]⟩
  · intro taken empty
    have notStale := (not_or.mp taken).1
    rw [Buffer.apply, if_neg notStale, if_pos (by simp [empty])]
  · intro taken nonempty
    refine ⟨_, whole.apply_combined taken nonempty, rfl, rfl, rfl, ?_⟩
    intro closed plain
    have rendered := whole.joinWith_combined taken closed plain
    rw [Buffer.text, rendered]
    exact ⟨rfl, unweave_weave _ 0 _⟩

/-- Insertions out of order, two of them at one place, one with its column past
the end of a line and one behind the last line; and the same batch with a line
that does not exist. -/
theorem apply_all_or_nothing_ties :
    (∃ after, (reached (utf8 "ab\r\ncd") []).apply
        ⟨1, [⟨⟨1, 0⟩, utf8 "X\n"⟩, ⟨⟨2, 0⟩, utf8 "\nW"⟩,
          ⟨⟨0, 9⟩, utf8 "Y"⟩, ⟨⟨1, 0⟩, utf8 "Z"⟩]⟩ =
          .ok after ∧
      after.version = 2 ∧ after.text = utf8 "abY\r\nX\r\nZcd\r\nW") ∧
    ∃ e, (reached (utf8 "ab\r\ncd") []).apply
        ⟨1, [⟨⟨1, 0⟩, utf8 "X\n"⟩, ⟨⟨3, 0⟩, utf8 "\nW"⟩]⟩ = .error e := by
  constructor
  · obtain ⟨after, accepted, version, -, -, rendered⟩ :=
      (apply_all_or_nothing (utf8 "ab\r\ncd") []
        ⟨1, [⟨⟨1, 0⟩, utf8 "X\n"⟩, ⟨⟨2, 0⟩, utf8 "\nW"⟩,
          ⟨⟨0, 9⟩, utf8 "Y"⟩, ⟨⟨1, 0⟩, utf8 "Z"⟩]⟩).2.2
          (by rw [Buffer.Refuses]; decide +kernel) (by simp)
    refine ⟨after, accepted, version, ?_⟩
    rw [(rendered (by decide +kernel) (by decide +kernel)).1]
    decide +kernel
  · exact ((apply_all_or_nothing (utf8 "ab\r\ncd") [] ⟨1, [⟨⟨1, 0⟩, utf8 "X\n"⟩,
      ⟨⟨3, 0⟩, utf8 "\nW"⟩]⟩).1 (by rw [Buffer.Refuses]; decide +kernel)).1

end ModuleDeps
