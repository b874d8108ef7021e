import Mathlib.Data.List.Basic
import Mathlib.Data.List.Nodup
import ModuleDeps.Catalog

/-!
# Looking up a name

A catalog lists its entries in no particular order.  What a name stands for is
said by the entries alone (`Answers`): the entry with that very name, or else the
entry with the least of the names that differ from it in letter case.  With
distinct names there is at most one such entry, and looking up the name finds it
(`lookup_eq_some_iff`); so the order of the entries does not matter
(`lookup_of_any_order`).
-/

set_option autoImplicit false

namespace ModuleDeps

open Text

theorem Text.before_iff_lt {s t : Text} : s.before t = true ↔ s < t := by
  fun_induction before s t with
  | case1 s => simp
  | case2 b t => simp
  | case3 a s b t ih => simp [List.cons_lt_cons_iff, ih]

theorem Text.equalFold_refl (t : Text) : t.equalFold t = true := by
  simp [equalFold]

namespace Catalog

/-! ## The least name -/

section Least

variable {first entry : KnownModule} {entries rest : List KnownModule}

/-- The first entry is found where no other has a lesser name, and otherwise the
least of the others. -/
theorem least?_cons_cases (found : least? (first :: rest) = some entry) :
    (entry = first ∧ ∀ best, least? rest = some best → first.name ≤ best.name) ∨
      (least? rest = some entry ∧ entry.name < first.name) := by
  rw [least?] at found
  cases best : least? rest with
  | none =>
      rw [best] at found
      cases found
      exact Or.inl ⟨rfl, fun other none => by cases none⟩
  | some other =>
      simp only [best, before_iff_lt] at found
      split at found
      · rename_i less
        cases found
        exact Or.inr ⟨rfl, less⟩
      · rename_i notLess
        cases found
        refine Or.inl ⟨rfl, ?_⟩
        rintro _ ⟨⟩
        exact List.not_lt.mp notLess

theorem mem_of_least? (found : least? entries = some entry) : entry ∈ entries := by
  induction entries with
  | nil => cases found
  | cons first rest ih =>
      rcases least?_cons_cases found with ⟨rfl, -⟩ | ⟨inRest, -⟩
      · exact List.mem_cons_self
      · exact List.mem_cons_of_mem first (ih inRest)

theorem least?_eq_none_iff : least? entries = none ↔ entries = [] := by
  cases entries with
  | nil => simp [least?]
  | cons first rest =>
      rw [least?]
      cases least? rest with
      | none => simp
      | some best =>
          simp only [reduceCtorEq, iff_false]
          split <;> simp

theorem le_of_least? (found : least? entries = some entry) :
    ∀ other ∈ entries, entry.name ≤ other.name := by
  induction entries generalizing entry with
  | nil => simp
  | cons first rest ih =>
      rw [List.forall_mem_cons]
      rcases least?_cons_cases found with ⟨rfl, atMost⟩ | ⟨inRest, less⟩
      · refine ⟨List.le_refl _, fun other member => ?_⟩
        cases best : least? rest with
        | none => simp [least?_eq_none_iff.mp best] at member
        | some least => exact List.le_trans (atMost least best) (ih best other member)
      · exact ⟨List.le_of_lt less, ih inRest⟩

end Least

/-! ## What a name stands for -/

variable {catalog : Catalog} {name : Text} {known known' : KnownModule}

/-- The entry that a name stands for: its own, or else the one with the least
name in byte order among those equal to it up to letter case. -/
inductive Answers (catalog : Catalog) (name : Text) (known : KnownModule) : Prop
  | exact (member : known ∈ catalog) (named : known.name = name)
  | alike (member : known ∈ catalog) (unnamed : ∀ other ∈ catalog, other.name ≠ name)
      (folded : known.name.equalFold name = true)
      (least : ∀ other ∈ catalog, other.name.equalFold name = true →
        known.name ≤ other.name)

theorem Answers.mem (answers : catalog.Answers name known) : known ∈ catalog := by
  cases answers with
  | exact member named => exact member
  | alike member unnamed folded least => exact member

theorem Answers.equalFold (answers : catalog.Answers name known) :
    known.name.equalFold name = true := by
  cases answers with
  | exact member named => rw [named, equalFold_refl]
  | alike member unnamed folded least => exact folded

theorem Answers.perm {order : Catalog} (same : order.Perm catalog)
    (answers : catalog.Answers name known) :
    order.Answers name known := by
  cases answers with
  | exact member named => exact .exact (same.mem_iff.mpr member) named
  | alike member unnamed folded least =>
      exact .alike (same.mem_iff.mpr member)
        (fun other there => unnamed other (same.mem_iff.mp there)) folded
        fun other there => least other (same.mem_iff.mp there)

theorem answers_of_lookup (found : catalog.lookup name = some known) :
    catalog.Answers name known := by
  rw [lookup] at found
  cases exact : catalog.find? (·.name == name) with
  | some entry =>
      simp only [exact, Option.some.injEq] at found
      subst found
      exact .exact (List.mem_of_find?_eq_some exact) (by simpa using List.find?_some exact)
  | none =>
      simp only [exact] at found
      obtain ⟨member, folded⟩ := List.mem_filter.mp (mem_of_least? found)
      refine .alike member (by simpa using exact) folded ?_
      intro other there otherFolded
      exact le_of_least? found other (List.mem_filter.mpr ⟨there, otherFolded⟩)

theorem lookup_spec (found : catalog.lookup name = some known) :
    known ∈ catalog ∧ (known.name = name ∨ known.name.equalFold name = true) :=
  ⟨(answers_of_lookup found).mem, Or.inr (answers_of_lookup found).equalFold⟩

theorem lookup_eq_none_iff :
    catalog.lookup name = none ↔ ∀ known ∈ catalog, known.name.equalFold name = false := by
  rw [lookup]
  constructor
  · intro unlisted
    cases exact : catalog.find? (·.name == name) with
    | some entry => simp [exact] at unlisted
    | none =>
        rw [exact] at unlisted
        simpa using least?_eq_none_iff.mp unlisted
  · intro unequal
    have unnamed : catalog.find? (·.name == name) = none := by
      rw [List.find?_eq_none]
      intro known member named
      have folded := unequal known member
      rw [beq_iff_eq.mp named, equalFold_refl] at folded
      cases folded
    rw [unnamed]
    simpa [least?_eq_none_iff] using unequal

/-! ## Distinct names -/

def Distinct (catalog : Catalog) : Prop := (catalog.map KnownModule.name).Nodup

instance (catalog : Catalog) : Decidable catalog.Distinct :=
  inferInstanceAs (Decidable (List.Nodup _))

theorem Distinct.eq_of_name_eq (distinct : catalog.Distinct) (member : known ∈ catalog)
    (member' : known' ∈ catalog) (same : known.name = known'.name) : known = known' :=
  List.inj_on_of_nodup_map distinct member member' same

theorem Distinct.perm (distinct : catalog.Distinct) {order : Catalog} (same : order.Perm catalog) :
    order.Distinct :=
  (same.map KnownModule.name).nodup_iff.mpr distinct

theorem Answers.unique (distinct : catalog.Distinct) (answers : catalog.Answers name known)
    (answers' : catalog.Answers name known') : known = known' := by
  refine distinct.eq_of_name_eq answers.mem answers'.mem ?_
  cases answers with
  | exact member named =>
      cases answers' with
      | exact member' named' => rw [named, named']
      | alike member' unnamed' folded' least' => exact absurd named (unnamed' known member)
  | alike member unnamed folded least =>
      cases answers' with
      | exact member' named' => exact absurd named' (unnamed known' member')
      | alike member' unnamed' folded' least' =>
          exact List.le_antisymm (least known' member' folded') (least' known member folded)

theorem lookup_eq_some_iff (distinct : catalog.Distinct) :
    catalog.lookup name = some known ↔ catalog.Answers name known := by
  refine ⟨answers_of_lookup, fun answers => ?_⟩
  cases found : catalog.lookup name with
  | none =>
      have unequal := lookup_eq_none_iff.mp found known answers.mem
      rw [answers.equalFold] at unequal
      cases unequal
  | some entry => rw [(answers_of_lookup found).unique distinct answers]

theorem lookup_perm (distinct : catalog.Distinct) {order : Catalog} (same : order.Perm catalog) :
    order.lookup name = catalog.lookup name := by
  ext known
  rw [lookup_eq_some_iff (distinct.perm same), lookup_eq_some_iff distinct]
  exact ⟨Answers.perm same.symm, Answers.perm same⟩

theorem Distinct.mem_iff (distinct : catalog.Distinct) (member : known ∈ catalog) (path : Text) :
    ⟨known.name, path⟩ ∈ catalog ↔ path = known.path := by
  constructor
  · intro listed
    rw [← distinct.eq_of_name_eq listed member rfl]
  · rintro rfl
    exact member

/-- However the entries of a catalog with distinct names are listed, looking up
a name finds the one entry that the name stands for, and nothing exactly when no
entry has the name in any letter case.  The path that is found is the path of
the name that is found, and looking that name up finds both again. -/
theorem lookup_of_any_order (distinct : catalog.Distinct) (name : Text) :
    (∀ order : Catalog, order.Perm catalog → order.lookup name = catalog.lookup name) ∧
      (∀ known, catalog.lookup name = some known ↔ catalog.Answers name known) ∧
      (catalog.lookup name = none ↔
        ∀ known ∈ catalog, known.name ≠ name ∧ known.name.equalFold name = false) ∧
      ∀ known, catalog.lookup name = some known →
        (∀ path, ⟨known.name, path⟩ ∈ catalog ↔ path = known.path) ∧
          catalog.lookup known.name = some known := by
  refine ⟨fun order same => lookup_perm distinct same,
    fun known => lookup_eq_some_iff distinct, ?_, ?_⟩
  · rw [lookup_eq_none_iff]
    refine forall₂_congr fun known member => ⟨fun unequal => ⟨?_, unequal⟩, And.right⟩
    rintro rfl
    rw [equalFold_refl] at unequal
    cases unequal
  · intro known found
    have member := (answers_of_lookup found).mem
    exact ⟨distinct.mem_iff member, (lookup_eq_some_iff distinct).mpr (.exact member rfl)⟩

def threeLoggers : Catalog :=
  [⟨utf8 "logger", utf8 "x/lower"⟩, ⟨utf8 "Logger", utf8 "x/upper"⟩,
    ⟨utf8 "LOGGER", utf8 "x/shout"⟩]

/-- Another spelling stands for the least of the three, in whichever order they
are listed, and each of the three for itself. -/
theorem lookup_of_any_order_loggers :
    threeLoggers.lookup (utf8 "lOgGeR") = some ⟨utf8 "LOGGER", utf8 "x/shout"⟩ ∧
      (∀ order : Catalog, order.Perm threeLoggers →
        order.lookup (utf8 "lOgGeR") = some ⟨utf8 "LOGGER", utf8 "x/shout"⟩) ∧
      threeLoggers.lookup (utf8 "logger") = some ⟨utf8 "logger", utf8 "x/lower"⟩ ∧
      threeLoggers.lookup (utf8 "Log") = none := by
  have distinct : threeLoggers.Distinct := by decide +kernel
  obtain ⟨sameInOrder, answered, -, -⟩ := lookup_of_any_order distinct (utf8 "lOgGeR")
  have found : threeLoggers.lookup (utf8 "lOgGeR") = some ⟨utf8 "LOGGER", utf8 "x/shout"⟩ :=
    (answered _).mpr (.alike (by decide +kernel) (by decide +kernel) (by decide +kernel)
      (by decide +kernel))
  obtain ⟨-, named, -, -⟩ := lookup_of_any_order distinct (utf8 "logger")
  obtain ⟨-, -, unknown, -⟩ := lookup_of_any_order distinct (utf8 "Log")
  exact ⟨found, fun order same => (sameInOrder order same).trans found,
    (named _).mpr (.exact (by decide +kernel) (by decide +kernel)),
    unknown.mpr (by decide +kernel)⟩

end Catalog

end ModuleDeps
