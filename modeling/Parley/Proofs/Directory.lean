/-
What becomes of the files of a directory.

A directory may hold anything: trees, texts that are none, names that cannot be read, and files
that were never meant for it.  Loading sorts them.

* `File.Holds`, `File.Lacks` — a file holds a tree, or there is a first reason why it holds none;
* `isTreeFile_iff` — the extension, in terms of names;
* `Sifts` — files gone through in order, each of them kept or set aside;
* `Directory.shelf` — the trees by the names of their files: `Directory.mem_shelf` says which
  they are, and `Directory.load_trees` that they are what is loaded;
* `Directory.Clutters` — files that hold no tree come and go;
* `Directory.triage` — loading sifts the files in the order of their names, and clutter makes
  no difference to the trees.

Design notes: a directory is a table, so the order in which its entries are listed is not part
of it.  What is visited is nevertheless put in terms of any listing, filtered and sorted.
-/
import Parley.Proofs.Admission

namespace Parley

/-! ### Files -/

namespace File

/-- The file can be read, and what it says is a well-formed tree. -/
inductive Holds : File → Tree → Prop where
  | text {s : String} {t : Tree} (hread : (Document.read s).bind Tree.decode = some t)
      (ht : t.WellFormed) : Holds (.text s) t

/-- The first reason why the file holds no tree. -/
inductive Lacks : File → ContentError → Prop where
  | unreadable : Lacks .unreadable .unreadable
  | malformed {s : String} (hread : (Document.read s).bind Tree.decode = none) :
      Lacks (.text s) .malformed
  | defective {s : String} {t : Tree} {e : ContentError} {others : List ContentError}
      (hread : (Document.read s).bind Tree.decode = some t) (hdefects : t.defects = e :: others) :
      Lacks (.text s) e

variable {file : File} {t : Tree} {e : ContentError}

theorem tree_eq_ok_iff : file.tree = .ok t ↔ file.Holds t := by
  constructor
  · intro h
    cases file with
    | unreadable => exact absurd h (by simp [tree])
    | text s =>
      obtain ⟨hread, ht⟩ := Tree.ofText_iff.mp h
      exact .text hread ht
  · rintro ⟨hread, ht⟩
    exact Tree.ofText_iff.mpr ⟨hread, ht⟩

theorem tree_eq_error_iff : file.tree = .error e ↔ file.Lacks e := by
  constructor
  · intro h
    cases file with
    | unreadable =>
      obtain rfl := Except.error.inj h
      exact .unreadable
    | text s =>
      rw [tree, Tree.ofText] at h
      cases hread : (Document.read s).bind Tree.decode with
      | none =>
        rw [hread] at h
        obtain rfl := Except.error.inj h
        exact .malformed hread
      | some t =>
        rw [hread] at h
        simp only [Tree.validate] at h
        cases hdefects : t.defects with
        | nil =>
          rw [hdefects] at h
          exact absurd h (by simp [Except.map])
        | cons first others =>
          rw [hdefects] at h
          obtain rfl := Except.error.inj h
          exact .defective hread hdefects
  · intro h
    cases h with
    | unreadable => rfl
    | malformed hread => rw [tree, Tree.ofText, hread]
    | defective hread hdefects =>
      rw [tree, Tree.ofText, hread]
      simp only [Tree.validate, hdefects]
      rfl

theorem Holds.unique {t' : Tree} (h : file.Holds t) (h' : file.Holds t') : t = t' := by
  rw [← tree_eq_ok_iff] at h h'
  exact Except.ok.inj (h.symm.trans h')

theorem Lacks.unique {e' : ContentError} (h : file.Lacks e) (h' : file.Lacks e') : e = e' := by
  rw [← tree_eq_error_iff] at h h'
  exact Except.error.inj (h.symm.trans h')

theorem Lacks.not_holds (h : file.Lacks e) : ¬ ∃ t, file.Holds t := by
  rintro ⟨t, ht⟩
  rw [← tree_eq_error_iff] at h
  rw [← tree_eq_ok_iff] at ht
  exact absurd (h.symm.trans ht) (by simp)

theorem holds_or_lacks (file : File) : (∃ t, file.Holds t) ∨ ∃ e, file.Lacks e := by
  cases h : file.tree with
  | ok t => exact .inl ⟨t, tree_eq_ok_iff.mp h⟩
  | error e => exact .inr ⟨e, tree_eq_error_iff.mp h⟩

end File

/-- A name has the extension if something stands before it. -/
theorem isTreeFile_iff {name : String} :
    isTreeFile name = true ↔ ∃ stem, stem ≠ "" ∧ name = stem ++ ".json" := by
  have extension : ".json".toList = ['.', 'j', 's', 'o', 'n'] := by decide
  simp only [isTreeFile, Bool.and_eq_true, decide_eq_true_eq, List.isSuffixOf_iff_suffix]
  constructor
  · rintro ⟨hlong, stem, hstem⟩
    refine ⟨String.ofList stem, ?_, ?_⟩
    · rintro hempty
      have : stem = [] := by simpa using congrArg String.toList hempty
      subst this
      rw [← String.length_toList, ← hstem] at hlong
      exact absurd hlong (by decide)
    · apply String.toList_injective
      rw [String.toList_append, String.toList_ofList, extension, hstem]
  · rintro ⟨stem, hstem, rfl⟩
    have nonempty : stem.toList ≠ [] := fun h => hstem (String.toList_injective h)
    refine ⟨?_, stem.toList, ?_⟩
    · rw [← String.length_toList, String.toList_append, extension, List.length_append]
      have := List.length_pos_iff.mpr nonempty
      omega
    · rw [String.toList_append, extension]

/-! ### Sifting -/

/-- The files are gone through in order; each is kept for its tree or set aside with the reason. -/
inductive Sifts : Entries File → List Tree → List (String × ContentError) → Prop where
  | done : Sifts [] [] []
  | keep {name : String} {file : File} {t : Tree} {files : Entries File} {trees : List Tree}
      {rejected : List (String × ContentError)} :
      file.Holds t → Sifts files trees rejected →
        Sifts ((name, file) :: files) (t :: trees) rejected
  | reject {name : String} {file : File} {e : ContentError} {files : Entries File}
      {trees : List Tree} {rejected : List (String × ContentError)} :
      file.Lacks e → Sifts files trees rejected →
        Sifts ((name, file) :: files) trees ((name, e) :: rejected)

namespace Sifts

variable {files : Entries File} {trees : List Tree} {rejected : List (String × ContentError)}

/-- No file is lost, and none is counted twice. -/
theorem length (h : Sifts files trees rejected) :
    trees.length + rejected.length = files.length := by
  induction h with
  | done => rfl
  | keep _ _ ih =>
    simp only [List.length_cons]
    omega
  | reject _ _ ih =>
    simp only [List.length_cons]
    omega

theorem mem_rejected (h : Sifts files trees rejected) {name : String} {e : ContentError} :
    (name, e) ∈ rejected ↔ ∃ file, (name, file) ∈ files ∧ file.Lacks e := by
  induction h with
  | done => simp
  | @keep name' file' t _ _ _ hholds _ ih =>
    rw [ih]
    constructor
    · rintro ⟨file, hfile, he⟩
      exact ⟨file, List.mem_cons_of_mem _ hfile, he⟩
    · rintro ⟨file, hfile, he⟩
      rcases List.mem_cons.mp hfile with heq | hfile
      · obtain ⟨rfl, rfl⟩ := Prod.mk.inj heq
        exact absurd ⟨t, hholds⟩ he.not_holds
      · exact ⟨file, hfile, he⟩
  | @reject name' file' e' _ _ _ hlacks _ ih =>
    rw [List.mem_cons, ih]
    constructor
    · rintro (heq | ⟨file, hfile, he⟩)
      · obtain ⟨rfl, rfl⟩ := Prod.mk.inj heq
        exact ⟨file', List.mem_cons_self, hlacks⟩
      · exact ⟨file, List.mem_cons_of_mem _ hfile, he⟩
    · rintro ⟨file, hfile, he⟩
      rcases List.mem_cons.mp hfile with heq | hfile
      · obtain ⟨rfl, rfl⟩ := Prod.mk.inj heq
        exact .inl (by rw [hlacks.unique he])
      · exact .inr ⟨file, hfile, he⟩

/-- What comes of the files is up to them. -/
theorem unique {trees' : List Tree} {rejected' : List (String × ContentError)}
    (h : Sifts files trees rejected) (h' : Sifts files trees' rejected') :
    trees = trees' ∧ rejected = rejected' := by
  induction h generalizing trees' rejected' with
  | done =>
    cases h'
    exact ⟨rfl, rfl⟩
  | keep ht _ ih =>
    cases h' with
    | keep ht' hrest =>
      obtain ⟨rfl, rfl⟩ := ih hrest
      exact ⟨by rw [ht.unique ht'], rfl⟩
    | reject he => exact absurd ⟨_, ht⟩ he.not_holds
  | reject he _ ih =>
    cases h' with
    | keep ht => exact absurd ⟨_, ht⟩ he.not_holds
    | reject he' hrest =>
      obtain ⟨rfl, rfl⟩ := ih hrest
      exact ⟨rfl, by rw [he.unique he']⟩

end Sifts

namespace Directory

variable {d d' : Directory} {name : String} {t : Tree}

/-- The files that loading looks at. -/
def visited (d : Directory) : Entries File := (d.filter fun name _ => isTreeFile name).entries

theorem mem_visited {file : File} :
    (name, file) ∈ d.visited ↔ d.get? name = some file ∧ isTreeFile name = true := by
  rw [visited, ← Dict.get?_eq_some_iff, Dict.get?_filter, Option.filter_eq_some_iff]

theorem sorted_visited (d : Directory) : d.visited.Sorted := Dict.sorted _

theorem load_sifts (d : Directory) : Sifts d.visited d.load.1 d.load.2.rejected := by
  suffices ∀ files : Entries File,
      Sifts files ((files.map fun entry => (entry.1, entry.2.tree)).filterMap treeOf?)
        ((files.map fun entry => (entry.1, entry.2.tree)).filterMap rejectionOf?) from
    this d.visited
  intro files
  induction files with
  | nil => exact .done
  | cons entry rest ih =>
    obtain ⟨name, file⟩ := entry
    rw [List.map_cons]
    cases hfile : file.tree with
    | ok t => exact .keep (File.tree_eq_ok_iff.mp hfile) ih
    | error e => exact .reject (File.tree_eq_error_iff.mp hfile) ih

/-- The order of a listing does not matter to what is visited, or when. -/
theorem visited_of_listing {listing : Entries File} (h : listing.Perm d.entries) :
    (listing.filter fun name _ => isTreeFile name).mergeSort (fun a b => a.1 ≤ b.1) =
      d.visited := by
  have total (a b : String × File) : decide (a.1 ≤ b.1) || decide (b.1 ≤ a.1) := by
    simpa using String.le_total a.1 b.1
  have trans (a b c : String × File) (hab : decide (a.1 ≤ b.1) = true)
      (hbc : decide (b.1 ≤ c.1) = true) : decide (a.1 ≤ c.1) = true := by
    rw [decide_eq_true_eq] at *
    exact String.le_trans hab hbc
  have same : ((listing.filter fun name _ => isTreeFile name).mergeSort
      fun a b => a.1 ≤ b.1).Perm d.visited := (List.mergeSort_perm _ _).trans (h.filter _)
  refine List.Perm.eq_of_pairwise ?_ (List.pairwise_mergeSort trans total _)
    (d.sorted_visited.imp fun hlt => decide_eq_true (String.not_lt.mp (String.lt_asymm hlt))) same
  -- Entries of one name are one entry, so the order leaves no room.
  rintro ⟨name, file⟩ ⟨name', file'⟩ hmem hmem' hle hge
  obtain rfl : name = name' :=
    String.le_antisymm (of_decide_eq_true hle) (of_decide_eq_true hge)
  have found := (mem_visited.mp (same.mem_iff.mp hmem)).1
  rw [(mem_visited.mp hmem').1] at found
  rw [Option.some.inj found]

/-! ### Trees -/

/-- The file of this name is one that loading visits, and it holds the tree. -/
def HoldsTree (d : Directory) (name : String) (t : Tree) : Prop :=
  isTreeFile name = true ∧ ∃ file, d.get? name = some file ∧ file.Holds t

theorem HoldsTree.unique {t' : Tree} (h : d.HoldsTree name t) (h' : d.HoldsTree name t') :
    t = t' := by
  obtain ⟨-, file, hfile, ht⟩ := h
  obtain ⟨-, file', hfile', ht'⟩ := h'
  obtain rfl := Option.some.inj (hfile.symm.trans hfile')
  exact ht.unique ht'

/-- The trees that loading finds, with the names of their files. -/
def shelf (d : Directory) : Entries Tree :=
  d.visited.filterMap fun (name, file) => file.tree.toOption.map (name, ·)

theorem mem_shelf : (name, t) ∈ d.shelf ↔ d.HoldsTree name t := by
  rw [shelf, List.mem_filterMap]
  constructor
  · rintro ⟨⟨name', file⟩, hmem, hread⟩
    obtain ⟨hfile, hname⟩ := mem_visited.mp hmem
    cases ht : file.tree with
    | error e => exact absurd hread (by simp [ht, Except.toOption])
    | ok t' =>
      simp only [ht, Except.toOption, Option.map_some, Option.some.injEq, Prod.mk.injEq] at hread
      obtain ⟨rfl, rfl⟩ := hread
      exact ⟨hname, file, hfile, File.tree_eq_ok_iff.mp ht⟩
  · rintro ⟨hname, file, hfile, ht⟩
    refine ⟨(name, file), mem_visited.mpr ⟨hfile, hname⟩, ?_⟩
    show file.tree.toOption.map (name, ·) = some (name, t)
    rw [File.tree_eq_ok_iff.mpr ht]
    rfl

theorem sorted_shelf (d : Directory) : d.shelf.Sorted := by
  refine List.Pairwise.filterMap _ ?_ d.sorted_visited
  rintro ⟨name, file⟩ ⟨name', file'⟩ hlt entry hentry entry' hentry'
  obtain ⟨t, -, rfl⟩ := Option.map_eq_some_iff.mp hentry
  obtain ⟨t', -, rfl⟩ := Option.map_eq_some_iff.mp hentry'
  exact hlt

theorem load_trees (d : Directory) : d.load.1 = d.shelf.map Prod.snd := by
  rw [shelf, List.map_filterMap]
  show (d.visited.map fun (name, file) => (name, file.tree)).filterMap treeOf? = _
  rw [List.filterMap_map]
  refine List.filterMap_congr fun entry _ => ?_
  obtain ⟨name, file⟩ := entry
  show treeOf? (name, file.tree) = (file.tree.toOption.map (name, ·)).map Prod.snd
  cases file.tree <;> rfl

/-- A directory of one document. -/
theorem documents_singleton {name : String} (h : isTreeFile name = true) (file : File) :
    documents (Dict.ofList [(name, file)]) = [(name, file.tree)] := by
  have visited : ((Dict.ofList [(name, file)]).filter fun name _ => isTreeFile name).entries =
      [(name, file)] := by
    show [(name, file)].filter (fun entry => isTreeFile entry.1) = _
    simp [h]
  rw [documents, visited]
  rfl

/-! ### Clutter -/

/-- A file that no tree is taken from, by its name or for what it holds. -/
def IsClutter (name : String) (file : File) : Prop :=
  isTreeFile name = false ∨ ¬ ∃ t, file.Holds t

/-- Files that hold no tree come and go, any number of them. -/
inductive Clutters (d : Directory) : Directory → Prop where
  | same : Clutters d d
  | add {d' : Directory} {name : String} {file : File} :
      Clutters d d' → d'.get? name = none → IsClutter name file → Clutters d (d'.insert name file)
  | remove {d' : Directory} {name : String} {file : File} :
      Clutters d d' → d'.get? name = some file → IsClutter name file → Clutters d (d'.erase name)

theorem IsClutter.not_holdsTree {file : File} (h : IsClutter name file)
    (hfile : d.get? name = some file) : ¬ d.HoldsTree name t := by
  rintro ⟨hname, file', hfile', ht⟩
  obtain rfl := Option.some.inj (hfile.symm.trans hfile')
  rcases h with h | h
  · exact absurd hname (by simp [h])
  · exact h ⟨t, ht⟩

theorem holdsTree_congr {other : Directory} (h : other.get? name = d.get? name) :
    other.HoldsTree name t ↔ d.HoldsTree name t := by
  rw [HoldsTree, HoldsTree, h]

theorem Clutters.holdsTree (h : d.Clutters d') (name : String) (t : Tree) :
    d'.HoldsTree name t ↔ d.HoldsTree name t := by
  induction h with
  | same => rfl
  | @add d' key file _ habsent hclutter ih =>
    rw [← ih]
    by_cases hkey : key = name
    · subst hkey
      have found : (d'.insert key file).get? key = some file := by
        rw [Dict.get?_insert, if_pos rfl]
      refine iff_of_false (hclutter.not_holdsTree found) ?_
      rintro ⟨-, other, hother, -⟩
      exact absurd (habsent.symm.trans hother) (by simp)
    · exact holdsTree_congr (by rw [Dict.get?_insert, if_neg hkey])
  | @remove d' key file _ hfile hclutter ih =>
    rw [← ih]
    by_cases hkey : key = name
    · subst hkey
      refine iff_of_false ?_ (hclutter.not_holdsTree hfile)
      rintro ⟨-, other, hother, -⟩
      rw [Dict.get?_erase, if_pos rfl] at hother
      exact absurd hother (by simp)
    · exact holdsTree_congr (by rw [Dict.get?_erase, if_neg hkey])

/-- Two directories with the same trees under the same names have the same shelf. -/
theorem shelf_eq (h : ∀ name t, d'.HoldsTree name t ↔ d.HoldsTree name t) : d'.shelf = d.shelf := by
  refine Entries.ext_mem d'.sorted_shelf d.sorted_shelf fun entry => ?_
  obtain ⟨name, t⟩ := entry
  rw [mem_shelf, mem_shelf]
  exact h name t

theorem Clutters.load_trees (h : d.Clutters d') : d'.load.1 = d.load.1 := by
  rw [d'.load_trees, d.load_trees, shelf_eq h.holdsTree]

/-- **Loading sorts the files, and nothing else.**  The files whose names have the extension are
visited in the order of their names, whatever order they are listed in.  Each is kept for its
tree or set aside with the reason, and not both: the trees that come out are those that the
files hold, in order, and reported by their ids.  What else is in the directory, and what comes
to it or goes from it without holding a tree, makes no difference to them. -/
theorem triage (d : Directory) :
    (∀ name file, (name, file) ∈ d.visited ↔
      d.get? name = some file ∧ ∃ stem, stem ≠ "" ∧ name = stem ++ ".json") ∧
    d.visited.Sorted ∧
    (∀ listing : Entries File, listing.Perm d.entries →
      (listing.filter fun name _ => isTreeFile name).mergeSort (fun a b => a.1 ≤ b.1) =
        d.visited) ∧
    (∀ trees rejected, Sifts d.visited trees rejected ↔
      trees = d.load.1 ∧ rejected = d.load.2.rejected) ∧
    (∀ name file, (name, file) ∈ d.visited →
      (∃ t, file.Holds t ∧ t ∈ d.load.1 ∧ ∀ e, (name, e) ∉ d.load.2.rejected) ∨
      ∃ e, file.Lacks e ∧ (name, e) ∈ d.load.2.rejected ∧ ¬ ∃ t, file.Holds t) ∧
    d.load.2.loaded.length + d.load.2.rejected.length = d.visited.length ∧
    d.load.2.loaded = d.load.1.map Tree.id ∧
    ∀ d', d.Clutters d' → d'.load.1 = d.load.1 ∧ d'.load.2.loaded = d.load.2.loaded := by
  have sifts := d.load_sifts
  refine ⟨fun name file => ?_, d.sorted_visited, fun listing h => visited_of_listing h,
    fun trees rejected => ⟨fun h => h.unique sifts, ?_⟩,
    fun name file hmem => ?_, ?_, rfl, fun d' h => ⟨h.load_trees, ?_⟩⟩
  · rw [mem_visited, isTreeFile_iff]
  · rintro ⟨rfl, rfl⟩
    exact sifts
  · obtain ⟨hfile, hname⟩ := mem_visited.mp hmem
    rcases file.holds_or_lacks with ⟨t, ht⟩ | ⟨e, he⟩
    · refine .inl ⟨t, ht, ?_, fun e he => ?_⟩
      · rw [load_trees]
        exact List.mem_map.mpr ⟨(name, t), mem_shelf.mpr ⟨hname, file, hfile, ht⟩, rfl⟩
      · obtain ⟨file', hmem', hlacks⟩ := sifts.mem_rejected.mp he
        have found := (mem_visited.mp hmem').1
        obtain rfl := Option.some.inj (hfile.symm.trans found)
        exact hlacks.not_holds ⟨t, ht⟩
    · exact .inr ⟨e, he, sifts.mem_rejected.mpr ⟨file, hmem, he⟩, he.not_holds⟩
  · rw [← sifts.length]
    exact congrArg (· + _) (List.length_map _)
  · show d'.load.1.map Tree.id = d.load.1.map Tree.id
    rw [h.load_trees]

end Directory

namespace Inn

/-- What lies about at the inn, as it is found. -/
def papers : Entries File :=
  [("b.json", .unreadable), ("notes.txt", .text "Buy candles."),
    ("a.json", .text greeting.toJson.compact)]

def cupboard : Directory := Dict.ofList papers

/-- The same after one bad file has taken the place of another. -/
def cupboardLater : Directory :=
  (cupboard.erase "b.json").insert "c.json" (.text "\x7b nope")

theorem greeting_read : File.Holds (.text greeting.toJson.compact) greeting :=
  File.tree_eq_ok_iff.mp ((Tree.ofText_compact_iff greeting_isSound greeting_isLegible
    (by decide +kernel)).mpr ((Tree.validate_iff_wellFormed _).mp (by decide)))

theorem cupboard_clutters : cupboard.Clutters cupboardLater := by
  refine .add (.remove .same rfl (.inr ?_)) rfl (.inr ?_)
  · exact File.Lacks.unreadable.not_holds
  · exact (File.Lacks.malformed (by decide +kernel)).not_holds

end Inn

/-- The greeting is found, and one bad file is as good as another. -/
theorem Directory.triage_cupboard :
    Inn.cupboard.load =
      ([Inn.greeting], { loaded := ["greeting"], rejected := [("b.json", .unreadable)] }) ∧
    (Inn.papers.filter fun name _ => isTreeFile name).mergeSort (fun a b => a.1 ≤ b.1) =
      [("a.json", .text Inn.greeting.toJson.compact), ("b.json", .unreadable)] ∧
    Inn.cupboardLater.load.1 = [Inn.greeting] := by
  obtain ⟨-, -, hlisting, hsifts, -, -, hloaded, hclutter⟩ := triage Inn.cupboard
  have visited : Inn.cupboard.visited =
      [("a.json", .text Inn.greeting.toJson.compact), ("b.json", .unreadable)] := rfl
  have listed : Inn.papers.Perm Inn.cupboard.entries := by decide +kernel
  obtain ⟨htrees, hrejected⟩ :=
    (hsifts [Inn.greeting] [("b.json", .unreadable)]).mp
      (visited ▸ .keep Inn.greeting_read (.reject .unreadable .done))
  have hids : Inn.cupboard.load.2.loaded = ["greeting"] := by
    rw [hloaded, ← htrees]
    rfl
  refine ⟨?_, (hlisting _ listed).trans visited, ?_⟩
  · rw [htrees, hrejected, ← hids]
  · exact (hclutter _ Inn.cupboard_clutters).1.trans htrees.symm

end Parley
