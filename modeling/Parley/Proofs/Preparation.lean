/-
Which tree an NPC speaks from, after a provider has been prepared.

Preparing goes through the trees of a directory and then through the configuration, and each
step may write over what earlier ones wrote.  What counts in the end can be said without going
through them:

* `Tree.Claims`, `Directory.Last` — the NPCs a tree claims, and the last file with a tree of
  some kind;
* `Provider.Maps`, `Provider.Installs` — the tree of an NPC and the tree under an id, each with
  the source that it is taken from;
* `Provider.precedence` — so it is in every provider that is prepared, and where a file claims
  the NPC the tree is there.
-/
import Parley.Proofs.Directory
import Parley.Proofs.Opening

namespace Parley

/-- The tree lists the NPC as its own. -/
def Tree.Claims (t : Tree) (npcId : String) : Prop :=
  ∃ ids, t.metadata.get? "npcIds" = some (.arr ids) ∧ Json.str npcId ∈ ids

theorem Tree.mem_declaredNpcs {t : Tree} {npcId : String} :
    npcId ∈ t.declaredNpcs ↔ t.Claims npcId := by
  have names (id : Json) : id.asString? = some npcId ↔ id = .str npcId := by
    cases id <;> simp [Json.asString?]
  rw [declaredNpcs.eq_def, Claims]
  split
  · rename_i ids hids
    rw [hids, List.mem_filterMap]
    simp only [names, exists_eq_right, Option.some.injEq, Json.arr.injEq, exists_eq_left']
  · rename_i hnone
    refine iff_of_false List.not_mem_nil ?_
    rintro ⟨ids, hids, -⟩
    exact hnone ids hids

/-! ### The last file -/

section Last

variable {d : Directory} {P : Tree → Prop} {name : String} {t : Tree}

/-- Of the files with a tree that has the property, this is the last by name. -/
structure Directory.Last (d : Directory) (P : Tree → Prop) (name : String) (t : Tree) : Prop where
  holds : d.HoldsTree name t
  meets : P t
  last : ∀ name' t', d.HoldsTree name' t' → P t' → name' ≤ name

theorem Directory.Last.unique {name' : String} {t' : Tree} (h : d.Last P name t)
    (h' : d.Last P name' t') : t = t' := by
  obtain rfl : name = name' :=
    String.le_antisymm (h'.last name t h.holds h.meets) (h.last name' t' h'.holds h'.meets)
  exact h.holds.unique h'.holds

theorem Directory.last_of_shelf {before after : Entries Tree}
    (h : d.shelf = before ++ (name, t) :: after) (ht : P t) (hafter : ∀ e ∈ after, ¬ P e.2) :
    d.Last P name t := by
  have holds : (name, t) ∈ d.shelf := h ▸ List.mem_append_right _ List.mem_cons_self
  refine ⟨mem_shelf.mp holds, ht, fun name' t' hholds ht' => ?_⟩
  have sorted := d.sorted_shelf
  rw [h] at sorted
  rcases List.mem_append.mp (h ▸ mem_shelf.mpr hholds) with hmem | hmem
  · have hlt := (List.pairwise_append.mp sorted).2.2 _ hmem _ List.mem_cons_self
    exact String.not_lt.mp (String.lt_asymm hlt)
  · rcases List.mem_cons.mp hmem with heq | hmem
    · exact (Prod.mk.inj heq).1 ▸ String.le_refl _
    · exact absurd ht' (hafter _ hmem)

end Last

namespace Provider

variable {p : Provider} {config : Config} {d : Directory} {npcId treeId : String} {t : Tree}

/-- Where the mapping of an NPC comes from.  The configuration goes before the files, and a file
before what was there. -/
inductive Maps (p : Provider) (config : Config) (d : Directory) (npcId : String) :
    Option String → Prop where
  | configured {treeId : String} (h : config.npcTrees.get? npcId = some treeId) :
      Maps p config d npcId (some treeId)
  | claimed {name : String} {t : Tree} (hnone : config.npcTrees.get? npcId = none)
      (ht : d.Last (·.Claims npcId) name t) : Maps p config d npcId (some t.id)
  | kept (hnone : config.npcTrees.get? npcId = none)
      (hunclaimed : ∀ name t, d.HoldsTree name t → ¬ t.Claims npcId) :
      Maps p config d npcId (p.npcTrees.get? npcId)

/-- Where the tree under an id comes from: a file goes before what was there. -/
inductive Installs (p : Provider) (d : Directory) (treeId : String) : Option Tree → Prop where
  | loaded {name : String} {t : Tree} (ht : d.Last (·.id = treeId) name t) :
      Installs p d treeId (some t)
  | kept (hnone : ∀ name t, d.HoldsTree name t → t.id ≠ treeId) :
      Installs p d treeId (p.trees.get? treeId)

theorem Maps.unique {found found' : Option String} (h : p.Maps config d npcId found)
    (h' : p.Maps config d npcId found') : found = found' := by
  cases h with
  | configured h =>
    cases h' with
    | configured h' => exact h.symm.trans h'
    | claimed hnone => exact absurd (h.symm.trans hnone) (by simp)
    | kept hnone => exact absurd (h.symm.trans hnone) (by simp)
  | claimed hnone ht =>
    cases h' with
    | configured h' => exact absurd (h'.symm.trans hnone) (by simp)
    | claimed _ ht' => rw [ht.unique ht']
    | kept _ hunclaimed => exact absurd ht.meets (hunclaimed _ _ ht.holds)
  | kept hnone hunclaimed =>
    cases h' with
    | configured h' => exact absurd (h'.symm.trans hnone) (by simp)
    | claimed _ ht' => exact absurd ht'.meets (hunclaimed _ _ ht'.holds)
    | kept => rfl

theorem Installs.unique {found found' : Option Tree} (h : p.Installs d treeId found)
    (h' : p.Installs d treeId found') : found = found' := by
  cases h with
  | loaded ht =>
    cases h' with
    | loaded ht' => rw [ht.unique ht']
    | kept hnone => exact absurd ht.meets (hnone _ _ ht.holds)
  | kept hnone =>
    cases h' with
    | loaded ht' => exact absurd ht'.meets (hnone _ _ ht'.holds)
    | kept => rfl

/-! ### What each step writes -/

theorem mapNpc_get? (p : Provider) (npcId treeId npcId' : String) :
    (p.mapNpc npcId treeId).npcTrees.get? npcId' =
      if npcId = npcId' then some treeId else p.npcTrees.get? npcId' :=
  Dict.get?_insert _ _ _ _

theorem adopt_wellFormed (ht : t.WellFormed) : p.adopt t =
    { t.declaredNpcs.foldl (fun p npcId => p.mapNpc npcId t.id) p with
      trees := p.trees.insert t.id t } := by
  have trees : (t.declaredNpcs.foldl (fun p npcId => p.mapNpc npcId t.id) p).trees = p.trees := by
    induction t.declaredNpcs generalizing p with
    | nil => rfl
    | cons npcId rest ih => exact ih
  rw [adopt.eq_def]
  simp only [replaceTree_wellFormed ht, trees]

theorem adopt_trees (ht : t.WellFormed) (treeId : String) : (p.adopt t).trees.get? treeId =
    if t.id = treeId then some t else p.trees.get? treeId := by
  rw [adopt_wellFormed ht]
  exact Dict.get?_insert _ _ _ _

/-- A tree is given the NPCs that it claims, and those alone. -/
theorem adopt_npcTrees (ht : t.WellFormed) (p : Provider) (npcId : String) :
    (t.Claims npcId → (p.adopt t).npcTrees.get? npcId = some t.id) ∧
      (¬ t.Claims npcId → (p.adopt t).npcTrees.get? npcId = p.npcTrees.get? npcId) := by
  rw [adopt_wellFormed ht, ← Tree.mem_declaredNpcs]
  have written := foldl_written (fun (p : Provider) npcId => p.mapNpc npcId t.id)
    (fun p => p.npcTrees.get? npcId) (· = npcId) (fun _ => some t.id) t.declaredNpcs
    (fun p npcId' _ h => (mapNpc_get? _ _ _ _).trans (if_pos h))
    (fun p npcId' _ h => (mapNpc_get? _ _ _ _).trans (if_neg h)) p
  rcases written with ⟨before, npcId', after, hsplit, rfl, -, hvalue⟩ | ⟨hnone, hsame⟩
  · have claimed : npcId' ∈ t.declaredNpcs :=
      hsplit ▸ List.mem_append_right _ List.mem_cons_self
    exact ⟨fun _ => hvalue, fun h => absurd claimed h⟩
  · exact ⟨fun h => absurd rfl (hnone npcId h), fun _ => hsame⟩

/-! ### What the files write -/

theorem foldl_adopt_shelf (p : Provider) (d : Directory) :
    d.load.1.foldl adopt p = d.shelf.foldl (fun p entry => p.adopt entry.2) p := by
  rw [d.load_trees, List.foldl_map]

theorem wellFormed_of_mem_shelf {entry : String × Tree} (h : entry ∈ d.shelf) :
    entry.2.WellFormed := by
  obtain ⟨-, file, -, ht⟩ := Directory.mem_shelf.mp h
  cases ht with
  | text _ wellFormed => exact wellFormed

/-- What a run over the files writes, it has from the last file that writes there. -/
theorem foldl_adopt_cases {γ : Type} (look : Provider → γ) (writes : Tree → Prop)
    (value : Tree → γ)
    (hwrites : ∀ p t, t.WellFormed → writes t → look (adopt p t) = value t)
    (hleaves : ∀ p t, t.WellFormed → ¬ writes t → look (adopt p t) = look p)
    (p : Provider) (d : Directory) :
    (∃ name t, d.Last writes name t ∧ look (d.load.1.foldl adopt p) = value t) ∨
    (∀ name t, d.HoldsTree name t → ¬ writes t) ∧ look (d.load.1.foldl adopt p) = look p := by
  rw [foldl_adopt_shelf]
  have hwrites' (p : Provider) (entry : String × Tree) (hentry : entry ∈ d.shelf)
      (h : writes entry.2) : look (p.adopt entry.2) = value entry.2 :=
    hwrites p entry.2 (wellFormed_of_mem_shelf hentry) h
  have hleaves' (p : Provider) (entry : String × Tree) (hentry : entry ∈ d.shelf)
      (h : ¬ writes entry.2) : look (p.adopt entry.2) = look p :=
    hleaves p entry.2 (wellFormed_of_mem_shelf hentry) h
  have written := foldl_written (fun (p : Provider) (entry : String × Tree) => p.adopt entry.2) look
    (fun entry => writes entry.2) (fun entry => value entry.2) d.shelf hwrites' hleaves' p
  rcases written with ⟨before, ⟨name, t⟩, after, hsplit, ht, hafter, hvalue⟩ | ⟨hnone, hsame⟩
  · exact .inl ⟨name, t, Directory.last_of_shelf hsplit ht hafter, hvalue⟩
  · exact .inr ⟨fun name t hholds => hnone (name, t) (Directory.mem_shelf.mpr hholds), hsame⟩

/-! ### What the configuration writes -/

/-- The mappings of a configuration, made one after the other. -/
def configure (p : Provider) (listing : List (String × String)) : Provider :=
  listing.foldl (fun p (npcId, treeId) => p.mapNpc npcId treeId) p

theorem configure_eq (p : Provider) (listing : List (String × String)) :
    p.configure listing = { p with npcTrees := (p.configure listing).npcTrees } := by
  induction listing generalizing p with
  | nil => rfl
  | cons entry rest ih => exact ih _

/-- A configuration says one thing about an NPC or nothing, so the order does not matter. -/
theorem configure_npcTrees {listing : List (String × String)}
    (h : listing.Perm config.npcTrees.entries) (p : Provider) (npcId : String) :
    (p.configure listing).npcTrees.get? npcId =
      (config.npcTrees.get? npcId).or (p.npcTrees.get? npcId) := by
  have written := foldl_written
    (fun (p : Provider) (entry : String × String) => p.mapNpc entry.1 entry.2)
    (fun p => p.npcTrees.get? npcId) (·.1 = npcId) (fun entry => some entry.2) listing
    (fun p entry _ h => (mapNpc_get? _ _ _ _).trans (if_pos h))
    (fun p entry _ h => (mapNpc_get? _ _ _ _).trans (if_neg h)) p
  rcases written with ⟨before, ⟨npcId', treeId⟩, after, hsplit, rfl, -, hvalue⟩ | ⟨hnone, hsame⟩
  · have hmem : (npcId', treeId) ∈ config.npcTrees.entries :=
      h.mem_iff.mp (hsplit ▸ List.mem_append_right _ List.mem_cons_self)
    rw [Dict.get?_eq_some_iff.mpr hmem]
    exact hvalue
  · have absent : config.npcTrees.get? npcId = none := by
      rw [Option.eq_none_iff_forall_ne_some]
      intro treeId hfound
      exact hnone _ (h.mem_iff.mpr (Dict.get?_eq_some_iff.mp hfound)) rfl
    rw [absent]
    exact hsame

theorem configure_perm {listing : List (String × String)}
    (h : listing.Perm config.npcTrees.entries) (p : Provider) :
    p.configure listing = p.configure config.npcTrees.entries := by
  have same : (p.configure listing).npcTrees = (p.configure config.npcTrees.entries).npcTrees := by
    refine Dict.ext_get? fun npcId => ?_
    rw [configure_npcTrees h, configure_npcTrees (.refl _)]
  rw [configure_eq, same, ← configure_eq]

/-! ### A provider that has been prepared -/

/-- A directory that is missing is as good as an empty one. -/
theorem prepare_eq (p : Provider) (config : Config) (content : Option Directory) :
    p.prepare config content =
      ((content.getD ∅).load.1.foldl adopt p).configure config.npcTrees.entries := by
  cases content <;> rfl

theorem prepare_maps (p : Provider) (config : Config) (content : Option Directory)
    (npcId : String) :
    p.Maps config (content.getD ∅) npcId ((p.prepare config content).npcTrees.get? npcId) := by
  rw [prepare_eq, configure_npcTrees (.refl _)]
  cases hconfig : config.npcTrees.get? npcId with
  | some treeId => exact .configured hconfig
  | none =>
    rw [Option.none_or]
    rcases foldl_adopt_cases (fun p => p.npcTrees.get? npcId) (·.Claims npcId)
      (fun t => some t.id)
      (fun p t ht => (adopt_npcTrees ht p npcId).1) (fun p t ht => (adopt_npcTrees ht p npcId).2)
      p (content.getD ∅) with ⟨name, t, ht, hfound⟩ | ⟨hnone, hfound⟩
    · exact hfound ▸ .claimed hconfig ht
    · exact hfound ▸ .kept hconfig hnone

theorem prepare_installs (p : Provider) (config : Config) (content : Option Directory)
    (treeId : String) :
    p.Installs (content.getD ∅) treeId ((p.prepare config content).trees.get? treeId) := by
  rw [prepare_eq, configure_eq]
  rcases foldl_adopt_cases (fun p => p.trees.get? treeId) (·.id = treeId) some
    (fun p t ht h => (adopt_trees ht treeId).trans (if_pos h))
    (fun p t ht h => (adopt_trees ht treeId).trans (if_neg h)) p (content.getD ∅) with
    ⟨name, t, ht, hfound⟩ | ⟨hnone, hfound⟩
  · exact hfound ▸ .loaded ht
  · exact hfound ▸ .kept hnone

/-- The tree of an NPC that a file claims is there: the last of its id. -/
theorem treeOf_claimed {content : Option Directory} {name : String}
    (hnone : config.npcTrees.get? npcId = none)
    (ht : (content.getD ∅).Last (·.Claims npcId) name t) :
    ∃ name' t', (content.getD ∅).Last (·.id = t.id) name' t' ∧
      (p.prepare config content).treeOf npcId = .ok t' := by
  have mapped : (p.prepare config content).npcTrees.get? npcId = some t.id :=
    (p.prepare_maps config content npcId).unique (.claimed hnone ht)
  have installed := p.prepare_installs config content t.id
  generalize hfound : (p.prepare config content).trees.get? t.id = found at installed
  cases installed with
  | loaded ht' =>
    refine ⟨_, _, ht', ?_⟩
    rw [treeOf, mapped]
    simp only [hfound]
  | kept habsent => exact absurd rfl (habsent name t ht.holds)

/-- An NPC whose tree is there is never refused for want of one. -/
theorem not_declines_of_treeOf {m : Manager} {ps : Participants} {providerId : Option String}
    {e : DialogueError} (hresolve : m.resolve ps.npc.id providerId = .ok p)
    (htree : p.treeOf ps.npc.id = .ok t) (h : m.Declines ps providerId e) :
    (∀ npcId, e ≠ .noTreeMapped npcId) ∧ ∀ treeId, e ≠ .treeNotFound treeId := by
  cases h with
  | full | unknown | unserved => exact ⟨nofun, nofun⟩
  | unmapped _ hresolve' hnone =>
    obtain rfl := Except.ok.inj (hresolve.symm.trans hresolve')
    rw [treeOf, hnone] at htree
    exact absurd htree (by simp)
  | treeless _ hresolve' hmapped hgone =>
    obtain rfl := Except.ok.inj (hresolve.symm.trans hresolve')
    rw [treeOf, hmapped] at htree
    simp only [hgone] at htree
    exact absurd htree (by simp)

/-- **The configuration goes before the files, the last file before the others, and any file
before what was there.**  So it is with the tree that an NPC speaks from, and, but for the
configuration, with the tree that stands under an id; in what order the configuration is gone
through is all the same.  An NPC that speaks from a tree because a file claims it finds the tree
of that id, and as long as the provider is left so, no start with it fails for want of a tree. -/
theorem precedence (p : Provider) (config : Config) (content : Option Directory) :
    (∀ npcId found, p.Maps config (content.getD ∅) npcId found ↔
      (p.prepare config content).npcTrees.get? npcId = found) ∧
    (∀ treeId found, p.Installs (content.getD ∅) treeId found ↔
      (p.prepare config content).trees.get? treeId = found) ∧
    (∀ listing : List (String × String), listing.Perm config.npcTrees.entries →
      ((content.getD ∅).load.1.foldl adopt p).configure listing = p.prepare config content) ∧
    ∀ npcId name t, config.npcTrees.get? npcId = none →
      (content.getD ∅).Last (·.Claims npcId) name t →
      ∃ name' t', (content.getD ∅).Last (·.id = t.id) name' t' ∧
        ∀ q : Provider, q.npcTrees = (p.prepare config content).npcTrees →
          q.trees = (p.prepare config content).trees →
          q.treeOf npcId = .ok t' ∧
          (q.Authored → ∀ forum ps, ps.npc.id = npcId → ∃ r, (q.start forum ps).result = .ok r) ∧
          ∀ m : Manager, m.Reachable → ∀ ps providerId, ps.npc.id = npcId →
            m.resolve npcId providerId = .ok q →
            ∀ e, (m.start ps providerId).result.response = .error e →
              (∀ other, e ≠ .noTreeMapped other) ∧ ∀ treeId, e ≠ .treeNotFound treeId := by
  refine ⟨fun npcId found => ⟨(p.prepare_maps config content npcId).unique, ?_⟩,
    fun treeId found => ⟨(p.prepare_installs config content treeId).unique, ?_⟩,
    fun listing h => ?_, fun npcId name t hnone ht => ?_⟩
  · rintro rfl
    exact p.prepare_maps config content npcId
  · rintro rfl
    exact p.prepare_installs config content treeId
  · rw [configure_perm h, prepare_eq]
  · obtain ⟨name', t', hlast, htree⟩ := treeOf_claimed (p := p) hnone ht
    refine ⟨name', t', hlast, fun q hmapped htrees => ?_⟩
    have found : q.treeOf npcId = .ok t' := by
      rw [← htree, treeOf, treeOf, hmapped, htrees]
    refine ⟨found, fun hauthored forum ps hnpc => ?_,
      fun m hm ps providerId hnpc hresolve e he => ?_⟩
    · subst hnpc
      rcases start_cases ⟨hauthored, steady_unit _⟩ forum ps with
        ⟨e, hrefused, -⟩ | ⟨tree, play, r, hopened, hbegin, -⟩
      · exact absurd (found.symm.trans hrefused) (by simp)
      · exact ⟨r, by rw [start_opened hopened hbegin]; rfl⟩
    · subst hnpc
      exact not_declines_of_treeOf hresolve found ((Manager.start_error_iff hm.sound).mp he)

end Provider

namespace Inn

/-- Another greeting, and who is to give it. -/
def welcome : Tree :=
  { greeting with
    id := "welcome"
    metadata := .obj [("npcIds", .arr [.str "innkeeper", .str "porter"])] }

/-- What a keeper finds who is new to the inn. -/
def letters : Directory :=
  Dict.ofList [("b.json", .text welcome.toJson.compact), ("a.json", .text greeting.toJson.compact)]

/-- The porter is to speak of supper. -/
def instructed : Config := { npcTrees := Dict.ofList [("porter", "supper")] }

/-- The keeper, with what stands in the letters. -/
def newKeeper : Provider := keeper.prepare instructed (some letters)

def reception : Manager := ((Manager.new instructed ids Instant.epoch none).perform
  (.register newKeeper)).1

theorem welcome_read : File.Holds (.text welcome.toJson.compact) welcome := by
  have sound : welcome.IsSound :=
    { greeting_isSound with metadata := ⟨by decide, ⟨trivial, trivial, trivial⟩, trivial⟩ }
  have legible : welcome.toJson.IsLegible := by
    show Json.HaveLegible _
    repeat' constructor
  refine File.tree_eq_ok_iff.mp ((Tree.ofText_compact_iff sound legible (by decide +kernel)).mpr ?_)
  exact (Tree.validate_iff_wellFormed _).mp (by decide)

theorem letters_last {P : Tree → Prop} (h : P welcome) : letters.Last P "b.json" welcome where
  holds := ⟨by decide, _, rfl, welcome_read⟩
  meets := h
  last name t h _ := by
    obtain ⟨-, file, hfile, -⟩ := h
    have names : ∀ name ∈ letters.keys, name ≤ "b.json" := by decide +kernel
    exact names name (Dict.mem_keys.mpr ⟨file, hfile⟩)

theorem newKeeper_authored : newKeeper.Authored :=
  .edit (.prepare instructed (some letters)) keeper_authored

theorem reception_reachable : reception.Reachable :=
  .call (.register newKeeper) (fun _ hp => List.mem_singleton.mp hp ▸ newKeeper_authored)
    (.new _ _ _ _ _)

theorem reception_resolve : reception.resolve "innkeeper" (some "keeper") = .ok newKeeper := by
  have registered : reception.providers = (∅ : Dict Provider).insert "keeper" newKeeper :=
    congrArg (fun id => (∅ : Dict Provider).insert id newKeeper) (keeper.prepare_revises _ _).id
  rw [Manager.resolve, registered, Dict.get?_insert, if_pos rfl]

end Inn

/-- The innkeeper welcomes the guest, and the porter does as he is told. -/
theorem Provider.precedence_letters :
    Inn.newKeeper.npcTrees.get? "innkeeper" = some "welcome" ∧
    Inn.newKeeper.npcTrees.get? "porter" = some "supper" ∧
    (Inn.letters.load.1.foldl adopt Inn.keeper).configure [("porter", "supper")] =
      Inn.newKeeper ∧
    Inn.newKeeper.treeOf "innkeeper" = .ok Inn.welcome ∧
    (∃ r, (Inn.newKeeper.start Inn.reception.forum Inn.guest).result = .ok r) ∧
    ∀ e, (Inn.reception.start Inn.guest (some "keeper")).result.response = .error e →
      e ≠ .noTreeMapped "innkeeper" := by
  obtain ⟨hmaps, -, hlisting, hfound⟩ := precedence Inn.keeper Inn.instructed (some Inn.letters)
  have claimed : Inn.letters.Last (·.Claims "innkeeper") "b.json" Inn.welcome :=
    Inn.letters_last (Tree.mem_declaredNpcs.mp (by decide))
  obtain ⟨name, t, hlast, hleft⟩ := hfound "innkeeper" "b.json" Inn.welcome rfl claimed
  obtain rfl : t = Inn.welcome := hlast.unique (Inn.letters_last rfl)
  obtain ⟨htree, hstart, hmanager⟩ := hleft Inn.newKeeper rfl rfl
  refine ⟨(hmaps _ _).mp (.claimed rfl claimed), (hmaps _ _).mp (.configured rfl),
    hlisting _ (.refl _), htree, hstart Inn.newKeeper_authored _ _ rfl, fun e he => ?_⟩
  exact (hmanager Inn.reception Inn.reception_reachable Inn.guest _ rfl
    Inn.reception_resolve e he).1 _

end Parley
