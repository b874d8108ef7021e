import ModuleDeps.Proofs.Block.Grammar
import ModuleDeps.Proofs.Finder.Pruning
import ModuleDeps.Proofs.Glob.LastName

/-!
# The modules of a symbol

The pattern for the modules of an identifier takes the files of that name, at the
top and at any depth.  No byte of an identifier is a sign in a pattern.
-/

set_option autoImplicit false

namespace ModuleDeps

def moduleFile (symbol : Text) : Text := symbol ++ utf8 ".js"

theorem moduleGlob_eq (symbol : Text) : moduleGlob symbol = utf8 "**/" ++ moduleFile symbol :=
  List.append_assoc ..

namespace Glob

theorem plain_of_isNameByte {b : UInt8} (name : isNameByte b = true) :
    b < 0x80 ∧ Plain b.toNat := by
  have all :=
    forall_byte (p := fun b => isNameByte b = true → b < 0x80 ∧
      Plain b.toNat) (by decide +kernel)
  exact all b name

theorem plainName_moduleFile {symbol : Text} (identifier : isIdentifier symbol = true) :
    PlainName (moduleFile symbol) := by
  obtain ⟨-, bytes⟩ := nameBytes_of_isIdentifier identifier
  obtain ⟨ascii, plain⟩ : PlainName (utf8 ".js") := by decide +kernel
  exact ⟨List.forall_mem_append.mpr
    ⟨fun b member => (plain_of_isNameByte (bytes b member)).1, ascii⟩,
    List.forall_mem_append.mpr ⟨fun b member => (plain_of_isNameByte (bytes b member)).2,
      plain⟩⟩

theorem isValid_anyDepth {name : Text} (plain : PlainName name) :
    isValid (codes (utf8 "**/" ++ name)) = true := by
  rw [codes_anyDepth]
  exact isValid_of_inert (List.forall_mem_append.mpr ⟨by decide,
    fun c member => (plain.codes c member).inert⟩)

end Glob

theorem Query.keeps_of_no_excludes (pattern : Text) (limit : Int) (path : List Text) :
    Query.Keeps ⟨pattern, [], limit⟩ path ↔ Glob.isMatch pattern (pathOf path) = true :=
  ⟨fun keeps => keeps.2.2, fun isMatch => ⟨fun _ _ _ => ⟨rfl, rfl⟩, rfl, isMatch⟩⟩

namespace Listing

def withName (name : Text) (tree : Listing) : List (List Text) :=
  ((tree.files []).map Prod.fst).filter fun path => path.getLast? = some name

theorem withName_length_le (name : Text) (tree : Listing) :
    (tree.withName name).length ≤ (tree.files []).length := by
  calc
    (tree.withName name).length ≤ ((tree.files []).map Prod.fst).length :=
      List.length_filter_le _ _
    _ = (tree.files []).length := List.length_map _

theorem Sorted.kept_anyDepth {tree : Listing} (sorted : tree.Sorted) {name : Text}
    (plain : Glob.PlainName name) (limit : Int) :
    tree.kept ⟨utf8 "**/" ++ name, [], limit⟩ = tree.withName name := by
  refine List.filter_congr fun path member => decide_eq_decide.mpr ?_
  rw [Query.keeps_of_no_excludes]
  exact Glob.isMatch_anyDepth_iff plain (sorted.named_of_mem_files member)
    (ne_nil_of_mem_files member)

end Listing

theorem Query.le_bound {files : Nat} {q : Query} (enough : (files : Int) ≤ q.limit) :
    files ≤ q.bound := by
  rw [Query.bound]
  split <;> omega

/-- A search for the modules of an identifier finds the files of that name, all of
them and no others, once each and in the order of a walk. -/
theorem find_moduleGlob {tree : Listing} (sorted : tree.Sorted) {symbol : Text}
    (identifier : isIdentifier symbol = true) {limit : Int}
    (enough : ((tree.files []).length : Int) ≤ limit) (root : Text) (fails : Text → Bool)
    (listable : ∀ dir, dir = [] ∨ dir ∈ tree.folders [] → fails (folderName dir) = false) :
    find tree root fails false ⟨moduleGlob symbol, [], limit⟩ =
      .ok ((tree.withName (symbol ++ utf8 ".js")).map fun path => joinRoot root (pathOf path)) ∧
    (tree.withName (symbol ++ utf8 ".js")).Pairwise (· < ·) := by
  have plain : Glob.PlainName (moduleFile symbol) := Glob.plainName_moduleFile identifier
  have kept : tree.kept ⟨moduleGlob symbol, [], limit⟩ = tree.withName (moduleFile symbol) := by
    rw [moduleGlob_eq, sorted.kept_anyDepth plain]
  have valid : Query.Valid ⟨moduleGlob symbol, [], limit⟩ :=
    ⟨by rw [moduleGlob_eq]; exact Glob.isValid_anyDepth plain, by simp⟩
  have few : (tree.withName (moduleFile symbol)).length ≤
      Query.bound ⟨moduleGlob symbol, [], limit⟩ :=
    (tree.withName_length_le _).trans (Query.le_bound enough)
  refine ⟨?_, kept ▸ sorted.kept⟩
  rw [Listing.find_of_listable sorted valid root fun dir listed =>
    listable dir (listed.imp_right And.left), Listing.firstKept, kept, List.take_of_length_le few]
  rfl

/-- The dollar is part of a name.  A longer name, a folder of the name and a name
in other letters are not found. -/
theorem find_moduleGlob_dollar :
    let tree : Listing :=
      .file (utf8 "$Foo.js") [] (.file (utf8 "$FooBar.js") [] (.file (utf8 "$foo.js") []
        (.file (utf8 "My$Foo.js") [] (.folder (utf8 "lib")
          (.folder (utf8 "$Foo.js") (.file (utf8 "index.js") [] .nil) (.folder (utf8 "node_modules")
            (.file (utf8 "$Foo.js") [] .nil) .nil)) .nil))))
    tree.Sorted ∧ find tree (utf8 "/ws") (fun _ => false) false
      ⟨moduleGlob (utf8 "$Foo"), [], 6⟩ =
      .ok [utf8 "/ws/$Foo.js", utf8 "/ws/lib/node_modules/$Foo.js"] := by
  intro tree
  have sorted : tree.Sorted := by decide +kernel
  have identifier : isIdentifier (utf8 "$Foo") = true := by decide +kernel
  have enough : ((tree.files []).length : Int) ≤ 6 := by decide +kernel
  obtain ⟨found, -⟩ :=
    find_moduleGlob sorted identifier enough (utf8 "/ws") (fun _ => false) (fun _ _ => rfl)
  refine ⟨sorted, ?_⟩
  rw [found]
  decide +kernel

end ModuleDeps
