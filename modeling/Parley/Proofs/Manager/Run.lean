/-
Runs of a manager.

A `Call` is whatever a manager can be asked for that may change it, and a run is any
list of calls, with the log of what they announced.

* `Manager.Reachable` — a manager that calls have led to, from a new one;
* `Manager.perform_steps`, `Manager.run_steps` — a run without a launch is made of
  steps;
* `Manager.Reachable.sound` — what holds in every state, whatever was restored.

Design notes: a launch puts conversations into the arena that no step opens, so it is
kept apart.
-/
import Parley.Proofs.Manager.Step

namespace Parley

variable {α : Type} {f : Context → α}

inductive Call where
  | launch (providers : List Provider) (content : Option Directory)
  | register (p : Provider)
  | unregister (providerId : String)
  | setDefault (providerId : String)
  | editProvider (providerId : String) (e : Provider.Edit)
  | start (ps : Participants) (providerId : Option String)
  | advance (ps : Participants) (id input : String)
  | finish (id : String)
  | switchProvider (id providerId : String)
  | cleanup
  | autosave
  | setClock (now : Instant)
  | startMaintenance
  | tick (seconds : Nat)
  | shutdown

namespace Call

/-- The providers that a call brings. -/
def providers : Call → List Provider
  | launch providers _ => providers
  | register p => [p]
  | _ => []

def isLaunch : Call → Bool
  | launch .. => true
  | _ => false

end Call

namespace Manager

variable {m m' : Manager}

/-- The manager after a call that changes nothing if it is refused. -/
def unlessRefused (m : Manager) : Except DialogueError Manager → Manager
  | .ok m' => m'
  | .error _ => m

/-- The manager after a call, and what the call announced. -/
def perform (m : Manager) : Call → Manager × List Event
  | .launch providers content => ((m.launch providers content).1, [])
  | .register p => (m.unlessRefused (m.register p), [])
  | .unregister providerId =>
    ((m.unregister providerId).manager, (m.unregister providerId).events)
  | .setDefault providerId => (m.unlessRefused (m.setDefault providerId), [])
  | .editProvider providerId e => (m.editProvider providerId e, [])
  | .start ps providerId => ((m.start ps providerId).manager, (m.start ps providerId).events)
  | .advance ps id input => ((m.advance ps id input).manager, (m.advance ps id input).events)
  | .finish id => ((m.finish id).manager, (m.finish id).events)
  | .switchProvider id providerId =>
    ((m.switchProvider id providerId).manager, (m.switchProvider id providerId).events)
  | .cleanup => (m.cleanup.manager, m.cleanup.events)
  | .autosave => (m.unlessRefused (m.autosave.map Prod.fst), [])
  | .setClock now => (m.atTime now, [])
  | .startMaintenance => (m.startMaintenance, [])
  | .tick seconds => m.tick seconds
  | .shutdown => (m.shutdown.1, [])

/-- Calls in turn, and the log of everything announced. -/
def run (m : Manager) : List Call → Manager × List Event
  | [] => (m, [])
  | c :: rest => (((m.perform c).1.run rest).1, (m.perform c).2 ++ ((m.perform c).1.run rest).2)

/-- The states that calls lead to, with providers that callers can make. -/
inductive Reachable : Manager → Prop where
  | new (config : Config) (ids : IdSupply) (now : Instant) (store : Option Store)
      (sample : Nat → Float) : Reachable { Manager.new config ids now store with sample }
  | call {m : Manager} (c : Call) (hc : ∀ p ∈ c.providers, p.Authored) :
      m.Reachable → Reachable (m.perform c).1

/-! ### Runs without a launch -/

theorem perform_steps (hm : m.Sound f) {c : Call} (hlaunch : c.isLaunch = false)
    (hc : ∀ p ∈ c.providers, p.Fit f) : Steps f m (m.perform c).1 (m.perform c).2 := by
  cases c with
  | launch => exact absurd hlaunch (by simp [Call.isLaunch])
  | register p =>
    rw [perform]
    cases h : m.register p with
    | error => exact .refl m
    | ok => exact register_steps (hc p (List.mem_singleton_self p)) h
  | unregister providerId => exact unregister_steps hm providerId
  | setDefault providerId =>
    rw [perform]
    cases h : m.setDefault providerId with
    | error => exact .refl m
    | ok => exact setDefault_steps h
  | editProvider providerId e => exact editProvider_steps hm providerId e
  | start ps providerId => exact start_steps hm ps providerId
  | advance ps id input => exact advance_steps hm ps id input
  | finish id => exact finish_steps hm id
  | switchProvider id providerId => exact switchProvider_steps m id providerId
  | cleanup => exact cleanup_steps hm
  | autosave =>
    rw [perform]
    cases h : m.autosave with
    | error => exact .refl m
    | ok saved => exact autosave_steps h
  | setClock now => exact atTime_steps m now
  | startMaintenance => exact startMaintenance_steps m
  | tick seconds => exact tick_steps hm seconds
  | shutdown => exact shutdown_steps m

theorem run_steps (hm : m.Sound f) {cs : List Call}
    (hcs : ∀ c ∈ cs, c.isLaunch = false ∧ ∀ p ∈ c.providers, p.Fit f) :
    Steps f m (m.run cs).1 (m.run cs).2 := by
  induction cs generalizing m with
  | nil => exact .refl m
  | cons c rest ih =>
    obtain ⟨hlaunch, hc⟩ := hcs c List.mem_cons_self
    have first := perform_steps hm hlaunch hc
    exact first.trans (ih (hm.steps first) fun c' hc' => hcs c' (List.mem_cons_of_mem c hc'))

/-! ### What every state satisfies -/

theorem Sound.new (config : Config) (ids : IdSupply) (now : Instant) (store : Option Store)
    (sample : Nat → Float) : Sound f { Manager.new config ids now store with sample } := by
  have noArena : ∀ id, (Manager.new config ids now store).arena.get? id = none := fun _ => rfl
  have noProvider : ∀ providerId,
    (Manager.new config ids now store).providers.get? providerId = none := fun _ => rfl
  refine ⟨.empty, fun id c hc => ?_, fun providerId p hp => ?_⟩
  · exact absurd ((noArena id).symm.trans hc) (by simp)
  · exact absurd ((noProvider providerId).symm.trans hp) (by simp)

theorem registerAll_steps (hm : m.Sound f) (content : Option Directory)
    {providers : List Provider} (hall : ∀ p ∈ providers, p.Fit f) :
    Steps f m (m.registerAll content providers).1 [] := by
  -- What is registered before a refusal stays, so every prefix of the list counts.
  induction providers generalizing m with
  | nil => exact .refl m
  | cons p rest ih =>
    have hp : (p.prepare m.config content).Fit f :=
      (hall p List.mem_cons_self).edit (.prepare m.config content)
    rw [registerAll]
    split
    · rename_i m' h
      have first := register_steps hp h
      exact first.trans (ih (hm.steps first) fun p' hp' => hall p' (List.mem_cons_of_mem p hp'))
    · exact .refl m

/-- Conversations that go on may be taken up if their providers are there. -/
theorem Sound.takeUp (hm : m.Sound f) {saved : List Conversation}
    (hsaved : ∀ c ∈ saved, c.isActive = true ∧ m.providers.contains c.providerId = true) :
    (m.withArena (saved.foldl Arena.insert m.arena)).Sound f := by
  -- A repeated id takes the place of the earlier one, which loses nothing that is needed.
  induction saved generalizing m with
  | nil => exact hm
  | cons c rest ih =>
    obtain ⟨hactive, hprovider⟩ := hsaved c List.mem_cons_self
    have inserted : (m.withArena (m.arena.insert c)).Sound f :=
      hm.withForum (hm.arena.insert hactive) hprovider fun _ _ hc' =>
        Arena.get?_insert_cases hc'
    exact ih inserted fun c' hc' => hsaved c' (List.mem_cons_of_mem c hc')

theorem Sound.restore (hm : m.Sound f) (h : m.restore = .ok m') : m'.Sound f := by
  rw [Manager.restore] at h
  split at h
  · obtain rfl := Except.ok.inj h
    exact hm
  · split at h
    · rename_i saved _
      obtain rfl := Except.ok.inj h
      refine hm.takeUp fun c hc => ?_
      obtain ⟨-, hrestorable⟩ := List.mem_filter.mp hc
      rw [isRestorable, Bool.and_eq_true, Bool.and_eq_true] at hrestorable
      exact ⟨hrestorable.1.1, hrestorable.2⟩
    · exact absurd h (by simp)

/-- A launch stops at a refusal, with what was registered before it, or gets to what was saved. -/
theorem launch_cases (m : Manager) (given : List Provider) (content : Option Directory) :
    let registered := (m.registerAll content (m.provided given)).1
    (∃ e, m.launch given content = (registered, .error e)) ∨
    ∃ m', registered.restore = .ok m' ∧
      m.launch given content = (if m'.store.isSome then m'.startMaintenance else m', .ok ()) := by
  rw [Manager.launch]
  dsimp only
  generalize m.registerAll content (m.provided given) = registered
  obtain ⟨m', result⟩ := registered
  cases result with
  | error e => exact .inl ⟨e, rfl⟩
  | ok =>
    dsimp only
    split
    · exact .inl ⟨_, rfl⟩
    · split
      · exact .inl ⟨_, rfl⟩
      · rename_i restored hrestore
        exact .inr ⟨restored, hrestore, rfl⟩

/-- A launch that fails half way leaves a sound manager too. -/
theorem Sound.launch (hm : m.Sound f) (hf : Steady f none) {providers : List Provider}
    (hall : ∀ p ∈ providers, p.Fit f) (content : Option Directory) :
    (m.launch providers content).1.Sound f := by
  have authored : ∀ p ∈ m.provided providers, p.Fit f := by
    intro p hp
    rw [provided] at hp
    split at hp
    · obtain rfl := List.mem_singleton.mp hp
      exact ⟨.new _ _ _ _ _, hf⟩
    · exact hall p hp
  have registered := hm.steps (registerAll_steps hm content authored)
  rcases m.launch_cases providers content with ⟨e, h⟩ | ⟨m', hrestore, h⟩
  · rw [h]
    exact registered
  · have restored := registered.restore hrestore
    rw [h]
    dsimp only
    split
    · exact restored.steps (startMaintenance_steps _)
    · exact restored

theorem Reachable.sound (h : m.Reachable) : m.Sound (fun _ => ()) := by
  induction h with
  | new config ids now store sample => exact .new config ids now store sample
  | @call m c hc _ ih =>
    have fit : ∀ p ∈ c.providers, p.Fit fun _ => () := fun p hp => ⟨hc p hp, steady_unit _⟩
    cases hlaunch : c.isLaunch with
    | false => exact ih.steps (perform_steps ih hlaunch fit)
    | true =>
      cases c with
      | launch providers content => exact ih.launch (steady_unit _) fit content
      | _ => exact absurd hlaunch (by simp [Call.isLaunch])

theorem Reachable.run (h : m.Reachable) {cs : List Call}
    (hcs : ∀ c ∈ cs, ∀ p ∈ c.providers, p.Authored) : (m.run cs).1.Reachable := by
  induction cs generalizing m with
  | nil => exact h
  | cons c rest ih =>
    have first := h.call c (hcs c List.mem_cons_self)
    exact ih first fun c' hc' => hcs c' (List.mem_cons_of_mem c hc')

/-- A call that brings no provider leads on from any state. -/
theorem Reachable.perform (h : m.Reachable) (c : Call) (hc : c.providers = []) :
    (m.perform c).1.Reachable :=
  h.call c fun _ hp => absurd (hc ▸ hp) List.not_mem_nil

/-- No provider has custom actions. -/
theorem hook_ne_some (h : m.providers.values.all (·.hook.isNone) = true) {providerId : String}
    {p : Provider} (hp : m.providers.get? providerId = some p) (run : Hook) :
    p.hook ≠ some run := by
  have hmem := Dict.mem_values.mpr ⟨providerId, hp⟩
  rw [Option.isNone_iff_eq_none.mp (List.all_eq_true.mp h p hmem)]
  simp

end Manager

/-! ### An inn

Its keeper has one tree, and a conversation that a launch restores.  Its cook has another,
with choices and effects, and nobody to serve yet. -/

namespace Inn

def greeting : Tree :=
  { id := "greeting"
    name := "Greeting"
    startNodeId := "hello"
    nodes := Dict.ofList [
      ("hello", { id := "hello", message := "Good evening.", nextNodeId := some "bye" }),
      ("bye", { id := "bye", message := "Sleep well.", isEnd := true })] }

def keeper : Provider :=
  (Provider.edit { id := "keeper" } (.replaceTree greeting)).edit (.mapNpc "innkeeper" "greeting")

def guest : Participants := { player := { id := "guest" }, npc := { id := "innkeeper" } }

/-- The conversation that was saved. -/
def evening : Conversation :=
  Conversation.new "evening" "guest" "innkeeper" "keeper" greeting Instant.epoch

def ids : IdSupply := { name := fun n => String.ofList (List.replicate n 'i') }

/-- The inn when it has opened again. -/
def reopened : Manager :=
  ((Manager.new {} ids Instant.epoch (some (.memory [evening]))).perform
    (.launch [keeper] none)).1

def supper : Tree :=
  { id := "supper"
    name := "Supper"
    startNodeId := "menu"
    vars := Dict.ofList [("price", .int 2)]
    nodes := Dict.ofList [
      ("menu", {
        id := "menu"
        message := "There is stew."
        vars := Dict.ofList [("price", .int 3)]
        choices := [
          { id := "stew"
            text := "Stew, please."
            actions := [{ effect := .addFlag "fed" }]
            nextNodeId := some "table" },
          { id := "leave", text := "Nothing for me.", nextNodeId := some "" }] }),
      ("table", {
        id := "table"
        message := "Enjoy!"
        actions := [{ effect := .removeFlag "hungry" }]
        isEnd := true })] }

def cook : Provider :=
  (Provider.edit { id := "cook" } (.replaceTree supper)).edit (.mapNpc "cook" "supper")

def diner : Participants :=
  { player := { id := "guest", flags := ["hungry"] }, npc := { id := "cook" } }

/-- The inn with its cook alone. -/
def kitchen : Manager := ((Manager.new {} ids Instant.epoch none).perform (.register cook)).1

theorem keeper_authored : keeper.Authored :=
  .edit (.mapNpc "innkeeper" "greeting") (.edit (.replaceTree greeting) (.new _ _ _ _ _))

theorem reopened_reachable : reopened.Reachable :=
  .call (.launch [keeper] none)
    (fun _ hp => List.mem_singleton.mp hp ▸ keeper_authored) (.new _ _ _ _ _)

theorem cook_authored : cook.Authored :=
  .edit (.mapNpc "cook" "supper") (.edit (.replaceTree supper) (.new _ _ _ _ _))

theorem kitchen_reachable : kitchen.Reachable :=
  .call (.register cook) (fun _ hp => List.mem_singleton.mp hp ▸ cook_authored) (.new _ _ _ _ _)

theorem reopened_arena : reopened.arena = ({} : Arena).insert evening := by decide

theorem reopened_ids : reopened.forum.ids = ids := rfl

theorem reopened_providers : reopened.providers.values = [keeper.prepare {} none] := rfl

theorem ids_injective : Function.Injective ids.name := by
  intro i j heq
  have lengths := congrArg (fun s : String => s.toList.length) heq
  simpa [ids] using lengths

end Inn

end Parley
