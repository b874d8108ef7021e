import ModuleDeps.Proofs.Disk.Rooted
import ModuleDeps.Proofs.Text.Occurrence
import ModuleDeps.Workspace.Root

/-!
# How far up a workspace root is found

The search goes from a path to the folders above it, the nearest first, and stops
at the first one with a marker.  It takes a bounded number of steps, so the nearest
root is found only when it is not further up than that; behind the bound the file
is treated like one without a root.
-/

set_option autoImplicit false

namespace ModuleDeps

open Text

theorem descending_workspaceMarkers : Descending workspaceMarkers := by
  intro marker member
  simp only [workspaceMarkers, List.mem_cons, List.not_mem_nil, or_false] at member
  rcases member with rfl | rfl | rfl
  all_goals
    exact ⟨⟨by decide +kernel, by decide +kernel, by decide +kernel⟩, by decide +kernel⟩

namespace Disk

variable {d : Disk}

def Marked (d : Disk) (dir : List Text) : Prop :=
  ∃ marker ∈ workspaceMarkers, d.exists? (rooted (dir ++ [marker])) = true

instance (d : Disk) : DecidablePred d.Marked := fun dir =>
  inferInstanceAs (Decidable (∃ marker ∈ workspaceMarkers,
    d.exists? (rooted (dir ++ [marker])) = true))

theorem holdsMarker_iff {dir : List Text} (down : Descending dir) :
    d.holdsMarker (rooted dir) = true ↔ d.Marked dir := by
  rw [holdsMarker, List.any_eq_true]
  refine exists_congr fun marker => and_congr_right fun member => ?_
  obtain ⟨isName, apart⟩ := descending_workspaceMarkers marker member
  rw [Path.join_rooted down isName apart]

/-! ## The nearest root -/

def IsAbove (dir names : List Text) : Prop := dir <+: names ∧ dir ≠ names

theorem isAbove_concat {dir above : List Text} {name : Text} :
    IsAbove dir (above ++ [name]) ↔ dir <+: above := by
  rw [IsAbove, List.prefix_concat_iff]
  constructor
  · rintro ⟨same | isFront, other⟩
    · exact absurd same other
    · exact isFront
  · intro isFront
    refine ⟨.inr isFront, ?_⟩
    rintro rfl
    have short := isFront.length_le
    rw [List.length_append, List.length_singleton] at short
    omega

theorem not_isAbove_nil {dir : List Text} : ¬ IsAbove dir [] :=
  fun above => above.2 (List.prefix_nil.mp above.1)

/-- The marked folder above an entry that all others are above of. -/
structure NearestRoot (d : Disk) (names root : List Text) : Prop where
  above : IsAbove root names
  marked : d.Marked root
  nearest : ∀ dir, IsAbove dir names → d.Marked dir → dir <+: root

instance (names root : List Text) : Decidable (d.NearestRoot names root) :=
  decidable_of_iff ((root <+: names ∧ root ≠ names) ∧ d.Marked root ∧
      ∀ dir ∈ names.inits, dir ≠ names → d.Marked dir → dir <+: root)
    ⟨fun ⟨above, marked, nearest⟩ =>
        ⟨above, marked, fun dir isAbove => nearest dir ((List.mem_inits _ _).mpr isAbove.1)
          isAbove.2⟩,
      fun ⟨above, marked, nearest⟩ =>
        ⟨above, marked, fun dir member other => nearest dir ⟨(List.mem_inits _ _).mp member,
          other⟩⟩⟩

section Nearest

variable {names above root : List Text} {name : Text}

theorem NearestRoot.unique {root' : List Text} (nearest : d.NearestRoot names root)
    (nearest' : d.NearestRoot names root') : root = root' :=
  (nearest'.nearest root nearest.above nearest.marked).eq_of_length_le
    (nearest.nearest root' nearest'.above nearest'.marked).length_le

theorem nearestRoot_concat_of_marked (marked : d.Marked above) :
    d.NearestRoot (above ++ [name]) root ↔ root = above := by
  have own : d.NearestRoot (above ++ [name]) above :=
    ⟨isAbove_concat.mpr (List.prefix_refl _), marked,
      fun dir isAbove _ => isAbove_concat.mp isAbove⟩
  exact ⟨fun nearest => nearest.unique own, fun same => same ▸ own⟩

theorem nearestRoot_concat_of_not_marked (unmarked : ¬ d.Marked above) :
    d.NearestRoot (above ++ [name]) root ↔ d.NearestRoot above root := by
  have further {dir : List Text} (marked : d.Marked dir) : IsAbove dir (above ++ [name]) ↔
      IsAbove dir above := by
    rw [isAbove_concat, IsAbove, and_iff_left]
    rintro rfl
    exact unmarked marked
  constructor
  · rintro ⟨isAbove, marked, nearest⟩
    exact ⟨(further marked).mp isAbove, marked,
      fun dir isAbove marked => nearest dir ((further marked).mpr isAbove) marked⟩
  · rintro ⟨isAbove, marked, nearest⟩
    exact ⟨(further marked).mpr isAbove, marked,
      fun dir isAbove marked => nearest dir ((further marked).mp isAbove) marked⟩

theorem exists_nearestRoot {dir : List Text} (isAbove : IsAbove dir names) (marked : d.Marked dir) :
    ∃ root, d.NearestRoot names root := by
  induction names using List.reverseRecOn with
  | nil => exact absurd isAbove not_isAbove_nil
  | append_singleton above name ih =>
      by_cases here : d.Marked above
      · exact ⟨above, (nearestRoot_concat_of_marked here).mpr rfl⟩
      · have further : IsAbove dir above := by
          refine ⟨isAbove_concat.mp isAbove, ?_⟩
          rintro rfl
          exact here marked
        obtain ⟨root, nearest⟩ := ih further
        exact ⟨root, (nearestRoot_concat_of_not_marked here).mpr nearest⟩

end Nearest

/-! ## Climbing -/

theorem climb_rooted_nil (steps : Nat) : d.climb steps (rooted []) = none := by
  cases steps with
  | zero => rfl
  | succ steps => rw [climb, if_pos Path.dir_rooted_nil]

theorem climb_rooted_concat {above : List Text} {name : Text}
    (down : Descending (above ++ [name])) (steps : Nat) :
    d.climb (steps + 1) (rooted (above ++ [name])) =
      if d.Marked above then some (rooted above) else d.climb steps (rooted above) := by
  obtain ⟨downAbove, -⟩ := descending_concat.mp down
  have moved : rooted above ≠ rooted (above ++ [name]) := by
    intro same
    have names := downAbove.named.pathOf_inj down.named (List.cons_eq_cons.mp same).2
    simpa using congrArg List.length names
  rw [climb, Path.dir_rooted_concat down]
  simp only [if_neg moved, holdsMarker_iff downAbove]

/-- The induction is on the names from the last one up: a step drops one of them. -/
theorem climb_eq_some_iff {names : List Text} (down : Descending names) {steps : Nat} {dir : Text} :
    d.climb steps (rooted names) = some dir ↔
      ∃ root, d.NearestRoot names root ∧ names.length ≤ root.length + steps ∧
      rooted root = dir := by
  induction names using List.reverseRecOn generalizing steps with
  | nil =>
      rw [climb_rooted_nil]
      exact ⟨(nomatch ·), fun ⟨root, nearest, _⟩ => absurd nearest.above not_isAbove_nil⟩
  | append_singleton above name ih =>
      have shorter {root : List Text} (nearest : d.NearestRoot (above ++ [name]) root) :
          root.length ≤ above.length :=
        (isAbove_concat.mp nearest.above).length_le
      rw [List.length_append, List.length_singleton]
      cases steps with
      | zero =>
          refine ⟨(nomatch ·), fun ⟨root, nearest, near, _⟩ => ?_⟩
          have := shorter nearest
          omega
      | succ steps =>
          rw [climb_rooted_concat down]
          by_cases marked : d.Marked above
          · simp [if_pos marked, nearestRoot_concat_of_marked marked]
          · simp only [if_neg marked, nearestRoot_concat_of_not_marked marked,
              ih (descending_concat.mp down).1, ← Nat.add_assoc, Nat.add_le_add_iff_right]

end Disk

/-! ## Without a root in reach -/

/-- What stands in front of the first `webapp` folder of a path; nothing when there
is no such folder. -/
def BeforeWebapp (path front : Text) : Prop :=
  (∃ tail, path = front ++ (webappSegment ++ tail) ∧
    ∀ i < front.length, ¬ webappSegment <+: path.drop i) ∨
    front = [] ∧ ¬ webappSegment <:+: path

theorem BeforeWebapp.unique {path front front' : Text} (before : BeforeWebapp path front)
    (before' : BeforeWebapp path front') : front = front' := by
  have least {a b tail : Text} (cut : path = a ++ (webappSegment ++ tail))
      (first : ∀ i < b.length, ¬ webappSegment <+: path.drop i) : b.length ≤ a.length := by
    by_contra longer
    refine first a.length (by omega) ?_
    rw [cut, List.drop_left]
    exact List.prefix_append _ _
  have occurs {a tail : Text} (cut : path = a ++ (webappSegment ++ tail)) :
      webappSegment <:+: path :=
    ⟨a, tail, by rw [cut, List.append_assoc]⟩
  rcases before with ⟨tail, cut, first⟩ | ⟨rfl, absent⟩ <;>
    rcases before' with ⟨tail', cut', first'⟩ | ⟨rfl, absent'⟩
  · exact List.append_inj_left (cut.symm.trans cut')
      (Nat.le_antisymm (least cut' first) (least cut first'))
  · exact absurd (occurs cut) absent'
  · exact absurd (occurs cut') absent
  · rfl

theorem beforeWebapp_of_climb_eq_none {d : Disk} {path : Text}
    (unreached : d.climb maxClimb (d.absolute path) = none) :
    BeforeWebapp (d.absolute path) (d.workspaceRoot path) := by
  have some : webappSegment ≠ [] := by decide +kernel
  rw [Disk.workspaceRoot]
  simp only [unreached]
  cases found : Text.indexOf? webappSegment (d.absolute path) with
  | none => exact .inr ⟨rfl, (indexOf?_eq_none_iff some).mp found⟩
  | some i =>
      obtain ⟨front, tail, cut, rfl, first⟩ := indexOf?_spec found
      have taken : (d.absolute path).take front.length = front := by rw [cut, List.take_left]
      simp only [taken]
      exact .inl ⟨tail, cut, first⟩

/-- The nearest root above a clean path is its workspace as long as it is not more
than `maxClimb` folders up.  Further up it is passed over, and the workspace is what
stands in front of the `webapp` folder, like where no folder above is marked. -/
theorem workspaceRoot_iff (d : Disk) {path : Text} (absolute : Path.isAbsolute path = true)
    (isClean : Path.clean path = path) :
    let names := Path.cleanComponents path
    path = rooted names ∧
      ((∃ dir, Disk.IsAbove dir names ∧ d.Marked dir) → ∃ root, d.NearestRoot names root ∧
        (d.workspaceRoot path = rooted root ↔
          names.length ≤ root.length + maxClimb ∨ BeforeWebapp path (rooted root)) ∧
        (root.length + maxClimb < names.length → BeforeWebapp path (d.workspaceRoot path))) ∧
      ((∀ dir, Disk.IsAbove dir names → ¬ d.Marked dir) →
        BeforeWebapp path (d.workspaceRoot path)) := by
  intro names
  have down : Descending names := Path.descending_cleanComponents absolute
  have isPath : path = rooted names := Path.eq_rooted_of_clean absolute isClean
  have full : d.absolute path = path := by
    rw [Disk.absolute, Path.absolute, if_pos absolute, isClean]
  have reached {dir : Text} : d.climb maxClimb path = some dir ↔
      ∃ root, d.NearestRoot names root ∧ names.length ≤ root.length + maxClimb ∧
      rooted root = dir :=
    isPath ▸ Disk.climb_eq_some_iff down
  -- Where the climb gives up, the part in front of `webapp` is taken instead.
  have out (far : ∀ root, d.NearestRoot names root →
      ¬ names.length ≤ root.length + maxClimb) :
      BeforeWebapp path (d.workspaceRoot path) := by
    have unreached : d.climb maxClimb path = none :=
      Option.eq_none_iff_forall_ne_some.mpr fun dir climbed => by
        obtain ⟨root, nearest, near, -⟩ := reached.mp climbed
        exact far root nearest near
    have before := @beforeWebapp_of_climb_eq_none d path (full.symm ▸ unreached)
    rwa [full] at before
  refine ⟨isPath, ?_, fun unmarked => out fun root nearest =>
    absurd nearest.marked (unmarked root nearest.above)⟩
  rintro ⟨dir, isAbove, marked⟩
  obtain ⟨root, nearest⟩ := Disk.exists_nearestRoot isAbove marked
  have beyond (far : root.length + maxClimb < names.length) :
      BeforeWebapp path (d.workspaceRoot path) :=
    out fun root' nearest' => nearest.unique nearest' ▸ Nat.not_le.mpr far
  refine ⟨root, nearest, ?_, beyond⟩
  by_cases near : names.length ≤ root.length + maxClimb
  · have found : d.workspaceRoot path = rooted root := by
      rw [Disk.workspaceRoot, full]
      simp only [reached.mpr ⟨root, nearest, near, rfl⟩]
    exact iff_of_true found (.inl near)
  · have before := beyond (Nat.not_le.mp near)
    exact ⟨fun found => .inr (found ▸ before),
      fun same => before.unique (same.resolve_left near)⟩

/-- Twenty folders up a root is still found. -/
theorem workspaceRoot_iff_twenty :
    let names := utf8 "ws" :: (List.replicate 19 (utf8 "a") ++ [utf8 "Foo.js"])
    let d : Disk :=
      ⟨Listing.add [] names (Listing.add [] [utf8 "ws", utf8 "package.json"] .nil), []⟩
    Path.isAbsolute (rooted names) = true ∧ Path.clean (rooted names) = rooted names ∧
      d.workspaceRoot (rooted names) = utf8 "/ws" := by
  intro names d
  have absolute : Path.isAbsolute (rooted names) = true := by decide +kernel
  have isClean : Path.clean (rooted names) = rooted names := by decide +kernel
  have own : Path.cleanComponents (rooted names) = names := by decide +kernel
  have known : d.NearestRoot names [utf8 "ws"] := by decide +kernel
  obtain ⟨-, above, -⟩ := workspaceRoot_iff d absolute isClean
  rw [own] at above
  obtain ⟨root, nearest, found, -⟩ := above ⟨_, known.above, known.marked⟩
  obtain rfl := nearest.unique known
  refine ⟨absolute, isClean, ?_⟩
  rw [found.mpr (.inl (by decide +kernel))]
  decide +kernel

/-- One folder further up it is not. -/
theorem workspaceRoot_too_deep :
    let names := utf8 "ws" :: (List.replicate 20 (utf8 "a") ++ [utf8 "Foo.js"])
    let d : Disk :=
      ⟨Listing.add [] names (Listing.add [] [utf8 "ws", utf8 "package.json"] .nil), []⟩
    Path.isAbsolute (rooted names) = true ∧ Path.clean (rooted names) = rooted names ∧
      d.NearestRoot (Path.cleanComponents (rooted names)) [utf8 "ws"] ∧
      d.workspaceRoot (rooted names) = [] := by
  decide +kernel

end ModuleDeps
