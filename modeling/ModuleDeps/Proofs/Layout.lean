import ModuleDeps.Layout
import ModuleDeps.Proofs.Text.Characters

/-!
# The cut of a path

A marker divides the characters of a path at the first of its segments that
occurs in it, letter case aside (`Cut`).  The rest that is put behind the lead
is taken from the offset that the lower-cased path has for that place.  It is
what the marker keeps exactly if lower-casing leaves the characters in front as
long as they are, and where it makes them longer than the whole path, the cut is
out of range (`resolve_cuts`).
-/

set_option autoImplicit false

namespace ModuleDeps

open Text

/-! ## Dividing a path -/

/-- The first of the segments to occur in a path divides its characters into
those in front and those that are kept. -/
inductive Cut (path : Text) : Bool → List Text → List Scalar → List Scalar → Prop
  | onward {segment : Text} {more : List Text} {front found behind : List Scalar} :
      segment ≠ [] → OccursFirst (toSlash segment) path front found behind →
      Cut path false (segment :: more) front (found ++ behind)
  | behind {segment : Text} {more : List Text} {front found behind : List Scalar} :
      segment ≠ [] → OccursFirst (toSlash segment) path front found behind →
      Cut path true (segment :: more) (front ++ found) behind
  | next {strip : Bool} {segment : Text} {more : List Text} {front kept : List Scalar} :
      (segment ≠ [] → ∀ front found behind,
        ¬ Occurs (toSlash segment) path front found behind) →
      Cut path strip more front kept → Cut path strip (segment :: more) front kept

/-- Lower-casing leaves the characters as long as they are. -/
def SameWidth (characters : List Scalar) : Prop :=
  (lowered characters).length = (written characters).length

theorem sameWidth_of_forall {characters : List Scalar}
    (same : ∀ s ∈ characters, (encode (letter s)).length = s.bytes.length) :
    SameWidth characters := by
  induction characters with
  | nil => rfl
  | cons s characters ih =>
      have here := same s (by simp)
      have later := ih fun x member => same x (by simp [member])
      rw [SameWidth] at later
      simp only [SameWidth, lowered, spell, written, List.map_cons, List.flatMap_cons,
        List.length_append] at later ⊢
      omega

theorem toSlash_ne_nil {segment : Text} (some : segment ≠ []) : toSlash segment ≠ [] := by
  cases segment with
  | nil => exact absurd rfl some
  | cons b segment =>
      rw [toSlash, replaceByte, List.flatMap_cons]
      split <;> simp

section Cuts

variable {path : Text} {strip : Bool} {segments : List Text} {front kept : List Scalar}

theorem Cut.parts (cut : Cut path strip segments front kept) : scalars path = front ++ kept := by
  induction cut with
  | onward _ first => exact first.parts
  | behind _ first => rw [first.parts, List.append_assoc]
  | next _ _ ih => exact ih

theorem Cut.written_eq (cut : Cut path strip segments front kept) :
    path = written front ++ written kept := by
  rw [← written_scalars path, cut.parts, written, List.flatMap_append]
  rfl

theorem Cut.offset (cut : Cut path strip segments front kept) :
    Marker.cutOffset? strip path.lower segments = some (lowered front).length := by
  induction cut with
  | onward nonempty first =>
      have search := first.indexOf?_lower (toSlash_ne_nil nonempty)
      simp [Marker.cutOffset?, nonempty, search]
  | behind nonempty first =>
      have search := first.indexOf?_lower (toSlash_ne_nil nonempty)
      simp [Marker.cutOffset?, nonempty, search, lowered_append, first.lowered_found]
  | @next strip segment more front kept apart _ ih =>
      rw [Marker.cutOffset?]
      by_cases empty : segment = []
      · simp [empty, ih]
      · simp [empty, (indexOf?_lower_eq_none_iff (toSlash_ne_nil empty)).mpr (apart empty), ih]

theorem exists_cut {i : Nat} (offset : Marker.cutOffset? strip path.lower segments = some i) :
    ∃ front kept, Cut path strip segments front kept := by
  induction segments with
  | nil => cases offset
  | cons segment more ih =>
      rw [Marker.cutOffset?] at offset
      by_cases empty : segment = []
      · obtain ⟨front, kept, cut⟩ := ih (by simpa [empty] using offset)
        exact ⟨front, kept, Cut.next (fun nonempty => absurd empty nonempty) cut⟩
      · cases search : indexOf? (toSlash segment).lower path.lower with
        | some j =>
            obtain ⟨front, found, behind, first, -⟩ :=
              exists_first_of_indexOf?_lower (toSlash_ne_nil empty) search
            cases strip with
            | false => exact ⟨_, _, Cut.onward empty first⟩
            | true => exact ⟨_, _, Cut.behind empty first⟩
        | none =>
            obtain ⟨front, kept, cut⟩ := ih (by simpa [empty, search] using offset)
            have apart := (indexOf?_lower_eq_none_iff (toSlash_ne_nil empty)).mp search
            exact ⟨front, kept, Cut.next (fun _ => apart) cut⟩

end Cuts

/-! ## The rest behind the lead -/

namespace Marker

def rest (m : Marker) (path : Text) : Except OutOfRange (Option Text) :=
  match cutOffset? m.strip (toSlash path).lower m.segments with
  | none => .ok none
  | some i => ((toSlash path).slice i (toSlash path).length).map some

def Divides (m : Marker) (path : Text) (front kept : List Scalar) : Prop :=
  Cut (toSlash path) m.strip m.segments front kept

theorem apply_eq_rest (m : Marker) (path : Text) :
    m.apply path = (m.rest path).map (Option.map (join m.lead)) := by
  rw [apply, rest]
  cases cutOffset? m.strip (toSlash path).lower m.segments with
  | none => rfl
  | some i =>
      simp only
      cases (toSlash path).slice i (toSlash path).length <;> rfl

theorem slice_to_end (t : Text) (i : Nat) :
    t.slice i t.length = if i ≤ t.length then .ok (t.drop i) else .error .mk := by
  rw [Text.slice, List.take_length]
  simp

variable {m : Marker} {path : Text} {front kept : List Scalar}

theorem rest_of_divides (divides : m.Divides path front kept) :
    m.rest path = ((toSlash path).slice (lowered front).length (toSlash path).length).map some := by
  rw [rest, divides.offset]

theorem rest_eq_none_iff :
    m.rest path = .ok none ↔ ∀ front kept, ¬ m.Divides path front kept := by
  cases offset : cutOffset? m.strip (toSlash path).lower m.segments with
  | none =>
      refine iff_of_true (by rw [rest, offset]) fun front kept divides => ?_
      have cut := divides.offset
      rw [offset] at cut
      cases cut
  | some i =>
      obtain ⟨front, kept, cut⟩ := exists_cut offset
      refine iff_of_false ?_ fun apart => apart front kept cut
      rw [rest, offset]
      simp only
      cases (toSlash path).slice i (toSlash path).length <;> simp [Except.map]

theorem rest_eq_kept_iff (divides : m.Divides path front kept) :
    m.rest path = .ok (some (written kept)) ↔ SameWidth front := by
  have parts := divides.written_eq
  have size := congrArg List.length parts
  rw [List.length_append] at size
  rw [rest_of_divides divides, slice_to_end, SameWidth]
  constructor
  · intro same
    split at same
    · have behind : (toSlash path).drop (lowered front).length = written kept := by
        simpa [Except.map] using same
      have length := congrArg List.length behind
      rw [List.length_drop] at length
      omega
    · cases same
  · intro same
    rw [if_pos (by omega), same, parts, List.drop_left]
    rfl

theorem rest_eq_error_iff (divides : m.Divides path front kept) :
    m.rest path = .error .mk ↔ (toSlash path).length < (lowered front).length := by
  rw [rest_of_divides divides, slice_to_end]
  split
  · exact iff_of_false (by simp [Except.map]) (by omega)
  · exact iff_of_true rfl (by omega)

/-! ## Resolving -/

/-- The import path of a candidate is what a marker keeps of its path, behind
the lead. -/
def Names (m : Marker) (c : Candidate) : Prop :=
  ∃ front kept, m.Divides c.path front kept ∧ c.importPath = join m.lead (written kept)

theorem apply_of_sameWidth (width : ∀ front kept, m.Divides path front kept → SameWidth front) :
    m.apply path = .ok none ∨ ∃ importPath, m.apply path = .ok (some importPath) ∧
      m.Names ⟨path, importPath⟩ := by
  rw [apply_eq_rest]
  by_cases none : m.rest path = .ok none
  · left
    rw [none]
    rfl
  · right
    rw [rest_eq_none_iff] at none
    push Not at none
    obtain ⟨front, kept, divides⟩ := none
    rw [(rest_eq_kept_iff divides).mpr (width front kept divides)]
    exact ⟨_, rfl, front, kept, divides, rfl⟩

theorem pick_of_sameWidth {candidates : List Text}
    (width : ∀ path ∈ candidates, ∀ front kept, m.Divides path front kept →
      SameWidth front) :
    ∃ found, m.pick candidates = .ok found ∧ ∀ c ∈ found, c.path ∈ candidates ∧
      m.Names c := by
  induction candidates with
  | nil => exact ⟨none, rfl, by simp⟩
  | cons path more ih =>
      rw [pick]
      rcases apply_of_sameWidth (width path (by simp)) with none | ⟨importPath, some, names⟩
      · obtain ⟨found, run, sound⟩ := ih fun p member => width p (by simp [member])
        rw [none]
        exact ⟨found, run, fun c member => ⟨List.mem_cons_of_mem _ (sound c member).1,
          (sound c member).2⟩⟩
      · rw [some]
        refine ⟨_, rfl, fun c member => ?_⟩
        obtain rfl := Option.mem_some_iff.mp member
        exact ⟨by simp, names⟩

end Marker

theorem resolve_of_sameWidth {candidates : List Text} {markers : List Marker}
    (width : ∀ m ∈ markers, ∀ path ∈ candidates, ∀ front kept,
      m.Divides path front kept → SameWidth front) :
    ∃ found, resolve candidates markers = .ok found ∧
      ∀ c ∈ found, c.path ∈ candidates ∧ ∃ m ∈ markers, m.Names c := by
  induction markers with
  | nil => exact ⟨none, rfl, by simp⟩
  | cons m more ih =>
      rw [resolve]
      obtain ⟨found, run, sound⟩ := Marker.pick_of_sameWidth (width m (by simp))
      cases found with
      | none =>
          obtain ⟨found, rerun, resound⟩ := ih fun m' member => width m' (by simp [member])
          rw [run]
          refine ⟨found, rerun, fun c member => ?_⟩
          obtain ⟨candidate, m', member', names⟩ := resound c member
          exact ⟨candidate, m', List.mem_cons_of_mem _ member', names⟩
      | some c =>
          rw [run]
          refine ⟨some c, rfl, fun c' member => ?_⟩
          obtain ⟨candidate, names⟩ := sound c' member
          exact ⟨candidate, m, by simp, names⟩

theorem resolve_cuts (m : Marker) (path : Text) (candidates : List Text) (markers : List Marker) :
    (m.apply path = (m.rest path).map (Option.map (Marker.join m.lead)) ∧
      (m.rest path = .ok none ↔ ∀ front kept, ¬ m.Divides path front kept) ∧
      ∀ front kept, m.Divides path front kept →
        toSlash path = written front ++ written kept ∧
          (m.rest path = .ok (some (written kept)) ↔ SameWidth front) ∧
          (m.rest path = .error .mk ↔ (toSlash path).length < (lowered front).length)) ∧
      ((∀ m' ∈ markers, ∀ path' ∈ candidates, ∀ front kept,
        m'.Divides path' front kept → SameWidth front) →
        ∃ found, resolve candidates markers = .ok found ∧
          ∀ c ∈ found, c.path ∈ candidates ∧ ∃ m' ∈ markers, m'.Names c) := by
  refine ⟨⟨Marker.apply_eq_rest m path, Marker.rest_eq_none_iff, ?_⟩, resolve_of_sameWidth⟩
  intro front kept divides
  exact ⟨divides.written_eq, Marker.rest_eq_kept_iff divides, Marker.rest_eq_error_iff divides⟩

def webapp : Marker := { segments := [utf8 "/webapp/"], lead := utf8 "sap/bi/webi/", strip := true }

def umlauts : Text := utf8 "/p/Größe/WebApp/v1/Über.js"

theorem resolve_cuts_umlauts :
    webapp.Divides umlauts (scalars (utf8 "/p/Größe/WebApp/")) (scalars (utf8 "v1/Über.js")) ∧
      webapp.rest umlauts = .ok (some (utf8 "v1/Über.js")) ∧
      resolve [umlauts] Marker.builtin = .ok (some ⟨umlauts, utf8 "sap/bi/webi/v1/Über"⟩) ∧
      ∃ m ∈ Marker.builtin, m.Names ⟨umlauts, utf8 "sap/bi/webi/v1/Über"⟩ := by
  have occurs : Occurs (toSlash (utf8 "/webapp/")) (toSlash umlauts) (scalars (utf8 "/p/Größe"))
      (scalars (utf8 "/WebApp/")) (scalars (utf8 "v1/Über.js")) :=
        ⟨by decide +kernel, by decide +kernel⟩
  have divides :
      webapp.Divides umlauts (scalars (utf8 "/p/Größe/WebApp/")) (scalars (utf8 "v1/Über.js")) :=
    Cut.behind (by decide) ((occursFirst_iff (by decide)).mpr ⟨occurs, by decide +kernel⟩)
  have width : ∀ s ∈ scalars (toSlash umlauts), (encode (letter s)).length =
      s.bytes.length := by decide +kernel
  have same {m : Marker} {front kept : List Scalar} (cut : m.Divides umlauts front kept) :
      SameWidth front :=
    sameWidth_of_forall fun s member =>
      width s (by rw [cut.parts]; exact List.mem_append_left _ member)
  obtain ⟨⟨-, -, cuts⟩, resolves⟩ := resolve_cuts webapp umlauts [umlauts] Marker.builtin
  have kept := (cuts _ _ divides).2.1.mpr (same divides)
  rw [written_scalars] at kept
  obtain ⟨found, run, sound⟩ := resolves fun m _ path member front kept cut => by
    obtain rfl := List.mem_singleton.mp member
    exact same cut
  have named : resolve [umlauts] Marker.builtin =
      .ok (some ⟨umlauts, utf8 "sap/bi/webi/v1/Über"⟩) := by
    decide +kernel
  obtain rfl := Except.ok.inj (run.symm.trans named)
  exact ⟨divides, kept, named, (sound _ rfl).2⟩

/-- The small letter of U+023A is a byte longer than the letter. -/
def widened : Text := utf8 "/\u023a/webapp/Main.js"

theorem resolve_widened :
    (∀ front found behind, Occurs (utf8 "/webapp/") widened front found behind →
      written behind = utf8 "Main.js") ∧
      webapp.rest widened = .ok (some (utf8 "ain.js")) ∧
      resolve [widened] Marker.builtin = .ok (some ⟨widened, utf8 "sap/bi/webi/ain"⟩) ∧
      resolve [utf8 "/\u023a\u023a\u023a\u023a\u023a\u023a\u023a\u023a/webapp/Main.js"]
        Marker.builtin =
        .error .mk := by
  refine ⟨?_, by decide +kernel, by decide +kernel, by decide +kernel⟩
  intro front found behind occurs
  have here : ∀ n < 18, (((scalars widened).drop n).take 8).map letter =
      (scalars (utf8 "/webapp/")).map letter →
      written ((scalars widened).drop (n + 8)) = utf8 "Main.js" := by decide +kernel
  have eight : found.length = 8 := by
    rw [← List.length_map (f := letter), occurs.letters]
    decide +kernel
  have size : front.length < 18 := by
    have length := congrArg List.length occurs.parts
    rw [show (scalars widened).length = 17 by decide +kernel, List.length_append] at length
    omega
  have taken : ((scalars widened).drop front.length).take 8 = found := by
    rw [occurs.parts, List.drop_left, ← eight, List.take_left]
  have dropped : (scalars widened).drop (front.length + 8) = behind := by
    rw [occurs.parts, ← List.drop_drop, List.drop_left, ← eight, List.drop_left]
  have rest := here front.length size (by rw [taken, occurs.letters])
  rwa [dropped] at rest

end ModuleDeps
