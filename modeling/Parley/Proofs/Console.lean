/-
What is typed at the console.

A line is one of five commands, and each of them comes down to one call of the manager at most:

* `Console.Command`, `Console.step_eq` — what a line asks for, and that nothing else counts;
* `Console.talk_ok`, `Console.say_ok` — what is printed, and which conversation is current then,
  by what the call answers;
* `Console.obey_manager`, `Console.obey_steps` — what becomes of the manager;
* `Console.Sound`, `Console.Sound.obey` — the player at the console stays who it is, the manager
  is sound, and no conversation loses its place;
* `Console.session`, `Console.Sound.session_invariant` — a session whose lines come at any times,
  and what it preserves;
* `Console.runLines_session` — of which those with a pause before each line are a case.

Design notes: the console of a program waits for the next line, so a line comes with the time
at which it is typed.
-/
import Parley.Console
import Parley.Proofs.Display
import Parley.Proofs.Handover

namespace Parley.Console

/-! ### Lines and commands -/

/-- What can be asked for at the console. -/
inductive Command where
  | blank
  | quit
  | bye
  | talk (npcId : String)
  | say (input : String)
  deriving DecidableEq

/-- What a line asks for. -/
def Command.ofLine (line : String) : Command :=
  let line := Text.trim line
  if line.isEmpty then .blank
  else if line = "quit" then .quit
  else if line = "bye" then .bye
  else
    match talkTarget? line with
    | some npcId => .talk npcId
    | none => .say line

def obey (c : Console) : Command → Printed
  | .blank => { console := c, lines := [] }
  | .quit => { console := c, lines := [], hasQuit := true }
  | .bye => c.leave
  | .talk npcId => c.talk npcId
  | .say input => c.say input

theorem step_eq (c : Console) (line : String) : c.step line = c.obey (.ofLine line) := by
  rw [step, Command.ofLine]
  split
  · rfl
  · split
    · rfl
    · split
      · rfl
      · cases talkTarget? (Text.trim line) <;> rfl

/-- The player at the console, and the NPC that is asked for. -/
def facing (c : Console) (npcId : String) : Participants :=
  { player := c.player, npc := Npc.new npcId npcId }

/-- What a command asks of the manager. -/
def call? (c : Console) : Command → Option Call
  | .blank | .quit => none
  | .bye => c.current.map fun (id, _) => .finish id
  | .talk npcId => some (.start (c.facing npcId) none)
  | .say input => c.current.map fun (id, npc) => .advance { player := c.player, npc } id input

variable {c : Console} {npcId input id : String} {npc : Npc} {r : Response} {e : DialogueError}

section Outcomes

theorem talk_error (h : (c.manager.start (c.facing npcId) none).result.response = .error e) :
    c.talk npcId =
      { console := { c with manager := (c.manager.start (c.facing npcId) none).manager }
        lines := [errorLine e] } := by
  rw [facing] at h ⊢
  rw [talk]
  simp only [h]

theorem talk_ok (h : (c.manager.start (c.facing npcId) none).result.response = .ok r) :
    c.talk npcId =
      { console :=
          { manager := (c.manager.start (c.facing npcId) none).manager
            player := (c.manager.start (c.facing npcId) none).result.participants.player
            current := if r.isComplete then c.current
              else some (r.conversationId, Npc.new npcId npcId) }
        lines := responseLines r } := by
  rw [facing] at h ⊢
  rw [talk]
  simp only [h]

theorem say_error (hcurrent : c.current = some (id, npc))
    (h : (c.manager.advance { player := c.player, npc } id input).result.response = .error e) :
    c.say input =
      { console :=
          { c with
            manager := (c.manager.advance { player := c.player, npc } id input).manager
            current := if isFinal e then none else c.current }
        lines := [errorLine e] } := by
  rw [say, hcurrent]
  simp only [h]

theorem say_ok (hcurrent : c.current = some (id, npc))
    (h : (c.manager.advance { player := c.player, npc } id input).result.response = .ok r) :
    c.say input =
      { console :=
          { manager := (c.manager.advance { player := c.player, npc } id input).manager
            player := (c.manager.advance { player := c.player, npc } id
              input).result.participants.player
            current := if r.isComplete then none else c.current }
        lines := responseLines r } := by
  rw [say, hcurrent]
  simp only [h]

end Outcomes

/-- What a command does to the manager is the call that it asks for. -/
theorem obey_manager (c : Console) (command : Command) :
    (c.obey command).console.manager =
      ((c.call? command).map fun call => (c.manager.perform call).1).getD c.manager := by
  cases command with
  | blank | quit => rfl
  | bye =>
    rw [obey, leave, call?]
    cases c.current <;> rfl
  | talk npcId =>
    rw [obey, call?]
    cases hr : (c.manager.start (c.facing npcId) none).result.response with
    | error e =>
      rw [talk_error hr]
      rfl
    | ok r =>
      rw [talk_ok hr]
      rfl
  | say input =>
    rw [obey, call?]
    cases hcurrent : c.current with
    | none =>
      rw [say, hcurrent]
      rfl
    | some current =>
      obtain ⟨id, npc⟩ := current
      cases hr : (c.manager.advance { player := c.player, npc } id input).result.response with
      | error e =>
        rw [say_error hcurrent hr]
        rfl
      | ok r =>
        rw [say_ok hcurrent hr]
        rfl

theorem talk_manager (c : Console) (npcId : String) :
    (c.talk npcId).console.manager = (c.manager.start (c.facing npcId) none).manager :=
  c.obey_manager (.talk npcId)

/-- Nothing at the console launches, registers, hands over or edits. -/
theorem call?_some {command : Command} {call : Call} (h : c.call? command = some call) :
    call.isLaunch = false ∧ call.providers = [] ∧ ∀ id, call.LeavesPlayable id := by
  cases command with
  | blank | quit => exact absurd h (by simp [call?])
  | bye | say =>
    obtain ⟨_, -, rfl⟩ := Option.map_eq_some_iff.mp h
    exact ⟨rfl, rfl, fun _ => trivial⟩
  | talk =>
    obtain rfl := Option.some.inj h
    exact ⟨rfl, rfl, fun _ => trivial⟩

theorem obey_steps {α : Type} {f : Context → α} (hm : c.manager.Sound f) (command : Command) :
    ∃ events, Manager.Steps f c.manager (c.obey command).console.manager events := by
  rw [obey_manager]
  cases hcall : c.call? command with
  | none => exact ⟨[], .refl _⟩
  | some call =>
    obtain ⟨hlaunch, hproviders, -⟩ := call?_some hcall
    exact ⟨_, Manager.perform_steps hm hlaunch fun p hp =>
      absurd (hproviders ▸ hp) List.not_mem_nil⟩

end Console

/-! ### Consoles in order -/

namespace Manager

variable {m : Manager} {ps : Participants} {providerId : Option String} {id input : String}
  {c : Conversation} {p : Provider} {tree : Tree} {n : Node} {play : Play} {r : Response}

/-- The player comes back from a start under the same id. -/
theorem Opens.player_id (hm : m.Sound Context.ids) (h : m.Opens ps providerId p tree play r) :
    (m.start ps providerId).result.participants.player.id = ps.player.id := by
  rw [← h.owner hm, (h.played hm).shows.state]
  exact (h.played hm).continues.playerId

theorem Proceeds.player_id (hm : m.Sound Context.ids)
    (h : m.Proceeds ps id input c p tree n play r) :
    (m.advance ps id input).result.participants.player.id = ps.player.id := by
  have stays : play.conversation.playerId = c.playerId := (h.played hm).continues.playerId
  rw [← h.kept_owner hm, (h.played hm).shows.state, stays, h.owner]

/-- A launch goes by what the provider that it makes is prepared to. -/
theorem launch_prepared (m : Manager) {content : Option Directory}
    (h : ({ sample := m.sample } : Provider).prepare m.config content = p.prepare m.config none) :
    m.launch [] content = m.launch [p] none := by
  have registered : m.registerAll content (m.provided []) = m.registerAll none (m.provided [p]) := by
    show m.registerAll content [{ sample := m.sample }] = m.registerAll none [p]
    rw [registerAll, registerAll, h]
    rfl
  rw [launch, launch, registered]

/-- Without a store a launch takes nothing up. -/
theorem launch_unsaved (hstore : m.store = none) (given : List Provider)
    (content : Option Directory) :
    (m.launch given content).1.forum = m.forum ∧ (m.launch given content).1.config = m.config := by
  obtain ⟨providers, defaultProvider, hframe⟩ :=
    m.registerAll_frame content (m.provided given)
  -- A launch that fails has registered some of the providers.
  rcases m.launch_cases given content with ⟨e, hlaunch⟩ | ⟨m', hrestore, hlaunch⟩
  · rw [hlaunch, hframe]
    exact ⟨rfl, rfl⟩
  · rw [hframe, restore] at hrestore
    simp only [hstore] at hrestore
    obtain rfl := Except.ok.inj hrestore
    rw [hlaunch]
    split <;> exact ⟨rfl, rfl⟩

end Manager

namespace Console

variable {c : Console} {npcId input id : String} {npc : Npc} {r : Response} {e : DialogueError}
  {d : Conversation}

/-- The manager is sound, no conversation has lost its place, and the player is who sat down. -/
structure Sound (c : Console) : Prop where
  manager : c.manager.Sound Context.ids
  playable : ∀ id, c.manager.Playable id
  player : c.player.id = "local"

theorem Sound.obey (h : c.Sound) (command : Command) : (c.obey command).console.Sound := by
  refine ⟨?_, fun id => ?_, ?_⟩
  · obtain ⟨events, steps⟩ := obey_steps h.manager command
    exact h.manager.steps steps
  · rw [obey_manager]
    cases hcall : c.call? command with
    | none => exact h.playable id
    | some call =>
      obtain ⟨-, -, hleaves⟩ := call?_some hcall
      exact (h.playable id).perform h.manager (hleaves id)
  · cases command with
    | blank | quit => exact h.player
    | bye =>
      rw [Console.obey, leave]
      cases c.current <;> exact h.player
    | talk npcId =>
      rw [Console.obey]
      cases hr : (c.manager.start (c.facing npcId) none).result.response with
      | error e =>
        rw [talk_error hr]
        exact h.player
      | ok r =>
        obtain ⟨p, tree, play, opens⟩ := Manager.start_ok h.manager hr
        rw [talk_ok hr]
        exact (opens.player_id h.manager).trans h.player
    | say input =>
      rw [Console.obey]
      cases hcurrent : c.current with
      | none =>
        rw [say, hcurrent]
        exact h.player
      | some current =>
        obtain ⟨id, npc⟩ := current
        cases hr : (c.manager.advance { player := c.player, npc } id input).result.response with
        | error e =>
          rw [say_error hcurrent hr]
          exact h.player
        | ok r =>
          obtain ⟨_, _, _, _, _, proceeds⟩ := Manager.advance_ok h.manager hr
          rw [say_ok hcurrent hr]
          exact (proceeds.player_id h.manager).trans h.player

theorem Sound.obey_config (h : c.Sound) (command : Command) :
    (c.obey command).console.manager.config = c.manager.config := by
  obtain ⟨events, steps⟩ := obey_steps h.manager command
  exact steps.settings.2

theorem Sound.talk (h : c.Sound) (npcId : String) : (c.talk npcId).console.Sound :=
  h.obey (.talk npcId)

theorem Sound.step (h : c.Sound) (line : String) : (c.step line).console.Sound :=
  step_eq c line ▸ h.obey _

/-- A console is in order when its manager has taken up work without a store. -/
theorem Sound.new (config : Config) (ids : IdSupply) (now : Instant) (sample : Nat → Float)
    (content : Option Directory) (playerName : String) :
    (Console.new (Manager.launch { Manager.new config ids now none with sample } [] content).1
      playerName).Sound := by
  obtain ⟨hforum, -⟩ :=
    Manager.launch_unsaved (m := { Manager.new config ids now none with sample }) rfl [] content
  refine ⟨Manager.Sound.launch (.new config ids now none sample)
    (steady_ids fun _ h => absurd h (by simp)) (fun _ hp => absurd hp List.not_mem_nil) content,
    fun id d p hd => ?_, rfl⟩
  have empty : (Manager.new config ids now none).forum.arena.get? id = none := rfl
  rw [← hforum] at empty
  exact absurd (empty.symm.trans hd) (by simp)

/-! ### Sessions -/

def atTime (c : Console) (now : Instant) : Console := { c with manager := c.manager.atTime now }

theorem Sound.atTime (h : c.Sound) (now : Instant) : (c.atTime now).Sound :=
  ⟨h.manager.atTime now, h.playable, h.player⟩

/-- A session whose lines come at the given times, up to `quit`. -/
def session (c : Console) : List (Instant × String) → Console
  | [] => c
  | (now, line) :: rest =>
    let printed := (c.atTime now).step line
    if printed.hasQuit then printed.console else printed.console.session rest

/-- What every command preserves at every time, a session preserves. -/
theorem Sound.session_invariant {motive : Console → Prop}
    (hobey : ∀ c : Console, c.Sound → ∀ now command, motive c →
      motive ((c.atTime now).obey command).console)
    (h : c.Sound) (hc : motive c) (lines : List (Instant × String)) :
    motive (c.session lines) := by
  induction lines generalizing c with
  | nil => exact hc
  | cons typed rest ih =>
    obtain ⟨now, line⟩ := typed
    have next := hobey c h now (.ofLine line) hc
    rw [← step_eq] at next
    rw [Console.session]
    split
    · exact next
    · exact ih ((h.atTime now).step line) next

theorem Sound.session (h : c.Sound) (lines : List (Instant × String)) :
    (c.session lines).Sound :=
  session_invariant (fun _ h now command _ => (h.atTime now).obey command) h h lines

/-- The ids that a session gives are new. -/
theorem Sound.fresh_session (h : c.Sound) (hfresh : c.manager.Fresh)
    (lines : List (Instant × String)) : (c.session lines).manager.Fresh := by
  refine h.session_invariant (motive := fun c => c.manager.Fresh)
    (fun c h now command hfresh => ?_) hfresh lines
  obtain ⟨events, steps⟩ := obey_steps (h.atTime now).manager command
  exact (hfresh.atTime now).steps (h.atTime now).manager steps

theorem Sound.config_session (h : c.Sound) (lines : List (Instant × String)) :
    (c.session lines).manager.config = c.manager.config :=
  h.session_invariant (motive := fun c' => c'.manager.config = c.manager.config)
    (fun _ h now command hconfig => ((h.atTime now).obey_config command).trans hconfig) rfl lines

/-- A session with a pause before each line is one of these. -/
theorem runLines_session (pause : Int) (c : Console) (lines : List String) :
    ∃ timed, timed.map Prod.snd = lines ∧ (runLines pause c lines).1 = c.session timed := by
  induction lines generalizing c with
  | nil => exact ⟨[], rfl, rfl⟩
  | cons line rest ih =>
    obtain ⟨timed, htimed, hsession⟩ := ih ((c.addMillis pause).step line).console
    refine ⟨(c.manager.now.addMillis pause, line) :: timed, by rw [List.map_cons, htimed], ?_⟩
    rw [runLines, session]
    show _ = if ((c.addMillis pause).step line).hasQuit then _ else _
    split
    · rfl
    · exact hsession

end Parley.Console
