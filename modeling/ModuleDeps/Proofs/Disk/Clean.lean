import ModuleDeps.Proofs.Disk.Rooted

/-!
# Paths below a directory

Cleaning a path leaves components that cleaning keeps (`Settled`).  So a path made
name by name, cleaned at every step, is the one made at once: below a directory the
names follow its own clean components (`cleanComponents_join`), and the path tells
them (`join_inj`).
-/

set_option autoImplicit false

namespace ModuleDeps.Path

open Text

/-! ## Clean components -/

section Push

variable {rooted : Bool} {held : List Text} {component : Text}

theorem push_idle (idle : component = [] ∨ component = utf8 ".") :
    push rooted held component = held := by
  rw [push.eq_def, if_pos idle]

theorem push_name (isName : Disk.IsName component) :
    push rooted held component = component :: held := by
  simp [push, isName.nonempty, isName.notHere, isName.notUp]

theorem push_up_nil : push rooted [] (utf8 "..") = if rooted then [] else [utf8 ".."] := rfl

theorem push_up_cons (last : Text) (rest : List Text) :
    push rooted (last :: rest) (utf8 "..") =
      if last = utf8 ".." then utf8 ".." :: last :: rest else rest := rfl

end Push

/-- Components, the last first, that cleaning leaves as they are. -/
structure Settled (rooted : Bool) (held : List Text) : Prop where
  parts : ∀ c ∈ held, Disk.IsPart c
  kept : held.reverse.foldl (push rooted) [] = held

section Settled

variable {rooted : Bool} {held : List Text} {component : Text}

theorem settled_nil : Settled rooted [] := ⟨by simp, rfl⟩

theorem Settled.cons (settled : Settled rooted held) (part : Disk.IsPart component)
    (pushed : push rooted held component = component :: held) :
    Settled rooted (component :: held) := by
  refine ⟨List.forall_mem_cons.mpr ⟨part, settled.parts⟩, ?_⟩
  rw [List.reverse_cons, List.foldl_append, settled.kept]
  exact pushed

theorem Settled.tail {last : Text} (settled : Settled rooted (last :: held))
    (notUp : last ≠ utf8 "..") :
    Settled rooted held := by
  obtain ⟨part, parts⟩ := List.forall_mem_cons.mp settled.parts
  have kept := settled.kept
  rw [List.reverse_cons, List.foldl_append, List.foldl_cons, List.foldl_nil,
    push_name ⟨part.nonempty, part.notHere, notUp⟩] at kept
  exact ⟨parts, (List.cons.inj kept).2⟩

theorem Settled.push (settled : Settled rooted held) (apart : slash ∉ component) :
    Settled rooted (push rooted held component) := by
  by_cases idle : component = [] ∨ component = utf8 "."
  · rwa [push_idle idle]
  · obtain ⟨nonempty, notHere⟩ := not_or.mp idle
    have part : Disk.IsPart component := ⟨nonempty, notHere, apart⟩
    by_cases up : component = utf8 ".."
    · subst up
      cases held with
      | nil =>
          cases rooted with
          | true => exact settled
          | false => exact settled.cons part push_up_nil
      | cons last rest =>
          by_cases lastUp : last = utf8 ".."
          · have pushed := @push_up_cons rooted last rest
            rw [if_pos lastUp] at pushed
            rw [pushed]
            exact settled.cons part pushed
          · rw [push_up_cons, if_neg lastUp]
            exact settled.tail lastUp
    · have pushed := @push_name rooted held component ⟨nonempty, notHere, up⟩
      rw [pushed]
      exact settled.cons part pushed

theorem Settled.foldl {components : List Text} (settled : Settled rooted held)
    (apart : ∀ c ∈ components, slash ∉ c) :
    Settled rooted (components.foldl (Path.push rooted) held) := by
  induction components generalizing held with
  | nil => exact settled
  | cons component rest ih =>
      obtain ⟨own, others⟩ := List.forall_mem_cons.mp apart
      exact ih (settled.push own) others

end Settled

section Clean

variable {path path' : Text}

theorem settled_cleanComponents (path : Text) :
    Settled (isAbsolute path) (cleanComponents path).reverse := by
  rw [cleanComponents, List.reverse_reverse]
  exact settled_nil.foldl (Disk.apart_components path)

theorem isPart_cleanComponents (path : Text) : ∀ c ∈ cleanComponents path, Disk.IsPart c :=
  fun c member => (settled_cleanComponents path).parts c (List.mem_reverse.mpr member)

theorem foldl_cleanComponents (path : Text) :
    (cleanComponents path).foldl (push (isAbsolute path)) [] = (cleanComponents path).reverse := by
  have kept := (settled_cleanComponents path).kept
  rwa [List.reverse_reverse] at kept

theorem isAbsolute_clean (path : Text) : isAbsolute (clean path) = isAbsolute path := by
  rw [clean]
  split
  · rename_i absolute
    rw [absolute]
    rfl
  · rename_i relative
    rw [Bool.not_eq_true] at relative
    rw [relative]
    split
    · decide
    · exact Disk.isAbsolute_joined (isPart_cleanComponents path)

/-- What a clean path has besides its clean components, an empty component in front
of its first slash or a dot, is dropped again. -/
theorem foldl_components_clean (path : Text) :
    (components (clean path)).foldl (push (isAbsolute path)) [] =
      (cleanComponents path).reverse := by
  have parts := isPart_cleanComponents path
  rw [clean]
  by_cases bare : cleanComponents path = []
  · rw [bare]
    cases isAbsolute path <;> decide
  · have joined := Disk.components_joined bare fun c member => (parts c member).apart
    split
    · rw [Disk.components_slash, List.foldl_cons, push_idle (.inl rfl), joined,
        foldl_cleanComponents]
    · split
      · rename_i empty
        exact absurd (List.isEmpty_iff.mp empty) (Disk.joined_ne_nil parts bare)
      · rw [joined, foldl_cleanComponents]

theorem cleanComponents_clean (path : Text) :
    cleanComponents (clean path) = cleanComponents path := by
  rw [cleanComponents, isAbsolute_clean, foldl_components_clean, List.reverse_reverse]

theorem clean_congr (absolute : isAbsolute path = isAbsolute path')
    (components : cleanComponents path = cleanComponents path') : clean path = clean path' := by
  rw [clean, clean, absolute, components]

end Clean

/-! ## The last component -/

section Last

variable {name : Text} (nonempty : name ≠ []) (apart : slash ∉ name)
include nonempty apart

theorem trimEndWhere_name (lead : Text) :
    (lead ++ name).trimEndWhere (· == slash) = lead ++ name := by
  obtain ⟨front, b, rfl⟩ := (List.eq_nil_or_concat' name).resolve_left nonempty
  have other : b ≠ slash := fun same => apart (by simp [same])
  rw [trimEndWhere, ← List.append_assoc, List.reverse_concat,
    List.dropWhile_cons_of_neg (by simpa using other), List.reverse_cons, List.reverse_reverse]

theorem base_name : base name = name := by
  have trimmed := trimEndWhere_name nonempty apart []
  rw [List.nil_append] at trimmed
  rw [base]
  simp [trimmed, nonempty, lastIndexOf?_of_notMem apart]

theorem base_append (lead : Text) : base (lead ++ slash :: name) = name := by
  have trimmed := trimEndWhere_name nonempty apart (lead ++ [slash])
  rw [List.append_assoc, List.singleton_append] at trimmed
  rw [base]
  simp [trimmed, lastIndexOf?_append apart]

end Last

theorem base_clean {path : Text} {above : List Text} {name : Text}
    (ends : cleanComponents path = above ++ [name]) :
    base (clean path) = name := by
  have part : Disk.IsPart name := isPart_cleanComponents path name (by rw [ends]; simp)
  have joined : joinWith [slash] (above ++ [name]) = name ∨
      ∃ lead, joinWith [slash] (above ++ [name]) = lead ++ slash :: name := by
    by_cases bare : above = []
    · rw [bare]
      exact .inl (pathOf_singleton name)
    · exact .inr ⟨_, pathOf_concat bare name⟩
  rw [clean, ends]
  rcases joined with same | ⟨lead, same⟩ <;> rw [same] <;> split
  · exact base_append part.nonempty part.apart []
  · rw [if_neg (by simpa using part.nonempty)]
    exact base_name part.nonempty part.apart
  · exact base_append part.nonempty part.apart (slash :: lead)
  · rw [if_neg (by simp)]
    exact base_append part.nonempty part.apart lead

/-! ## Below a directory -/

section Below

variable {root : Text} (nonempty : root ≠ []) {above names : List Text} {name : Text}
include nonempty

theorem cleanComponents_append (rest : Text) : cleanComponents (root ++ slash :: rest) =
    ((components rest).foldl (push (isAbsolute root)) (cleanComponents root).reverse).reverse := by
  rw [cleanComponents, Disk.isAbsolute_append nonempty, components_append_slash, List.foldl_append,
    cleanComponents, List.reverse_reverse]

theorem clean_append (rest : Text) :
    clean (clean root ++ slash :: rest) = clean (root ++ slash :: rest) := by
  have cleanNonempty := Disk.clean_ne_nil root
  apply clean_congr
  · rw [Disk.isAbsolute_append cleanNonempty, Disk.isAbsolute_append nonempty, isAbsolute_clean]
  · rw [cleanComponents_append cleanNonempty, cleanComponents_append nonempty,
      cleanComponents_clean, isAbsolute_clean]

theorem join_join (down : Descending above) (some : above ≠ []) (isName : Disk.IsName name) :
    join [join [root, pathOf above], name] = join [root, pathOf (above ++ [name])] := by
  have aboveNonempty := down.named.pathOf_ne_nil some
  rw [Disk.join_pair (Disk.join_ne_nil nonempty aboveNonempty) isName.nonempty,
    Disk.join_pair nonempty aboveNonempty, Disk.join_pair nonempty (by simp [pathOf_concat some]),
    clean_append (by simp), pathOf_concat some, List.append_assoc, List.cons_append]

theorem cleanComponents_join (down : Descending names) (some : names ≠ []) :
    cleanComponents (join [root, pathOf names]) = cleanComponents root ++ names := by
  have isPath : components (pathOf names) = names := down.named.splitAt_pathOf some
  have kept : names.filter (· ≠ []) = names :=
    List.filter_eq_self.mpr fun name member => by simpa using (down name member).1.nonempty
  rw [Disk.join_pair nonempty (down.named.pathOf_ne_nil some), cleanComponents_clean,
    cleanComponents_append nonempty, isPath,
    foldl_push_of_names (fun name member _ => (down name member).1), kept]
  simp

theorem join_inj {names' : List Text} (down : Descending names) (some : names ≠ [])
    (down' : Descending names') (some' : names' ≠ [])
    (same : join [root, pathOf names] = join [root, pathOf names']) : names = names' := by
  have components := congrArg cleanComponents same
  rw [cleanComponents_join nonempty down some,
    cleanComponents_join nonempty down' some'] at components
  exact List.append_cancel_left components

theorem join_ne_root (down : Descending names) (some : names ≠ []) :
    join [root, pathOf names] ≠ root := by
  intro same
  have components := congrArg cleanComponents same
  rw [cleanComponents_join nonempty down some] at components
  exact some (List.append_right_eq_self.mp components)

theorem base_join (down : Descending (above ++ [name])) :
    base (join [root, pathOf (above ++ [name])]) = name := by
  have components := cleanComponents_join nonempty down (by simp)
  rw [Disk.join_pair nonempty (down.named.pathOf_ne_nil (by simp)), cleanComponents_clean,
    ← List.append_assoc] at components
  rw [Disk.join_pair nonempty (down.named.pathOf_ne_nil (by simp)), base_clean components]

end Below

end ModuleDeps.Path
