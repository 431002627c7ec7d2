/-
What a conversation records of itself.

It keeps the count of its turns, the time of the last one and the nodes that it came to.  They
are written before it is known how a turn ends, and there are many calls between two turns:

* `Manager.answeredAt` — when the lines of input for a conversation were answered in a run;
* `Conversation.Tallies` — a record that agrees with these times, for a conversation that goes
  on from another;
* `Manager.Proceeds.tallies`, `Manager.tallies_perform`, `Manager.tallies_run` — each line that
  is answered is recorded, and nothing else is;
* `Manager.Holding.unanswered` — all that other calls may change is the provider;
* `Manager.bookkeeping` — so the records are exact, after every run.

Design notes: the count stops at the largest number that it can be, while the nodes are recorded
without end, so the length of the history is bounded by the number of times and not by the count.
To look at a conversation is no call: it gives back no manager that could differ.
-/
import Parley.Proofs.Agreement
import Parley.Proofs.Manager.Held

namespace Parley

/-- A conversation that goes on from `began`, whose lines of input were answered at `times`. -/
structure Conversation.Tallies (began : Conversation) (times : List Instant) (c : Conversation) :
    Prop where
  id : c.id = began.id
  playerId : c.playerId = began.playerId
  npcId : c.npcId = began.npcId
  treeId : c.treeId = began.treeId
  startedAt : c.startedAt = began.startedAt
  turnCount : c.turnCount = min Text.uint32Max times.length
  lastActivity : c.lastActivity = times.getLast?.getD began.startedAt
  history : c.history.length ≤ times.length + 1

/-- As long as the count is not at its end, it bounds the history. -/
theorem Conversation.Tallies.history_le {began c : Conversation} {times : List Instant}
    (h : began.Tallies times c) (hcount : c.turnCount < Text.uint32Max) :
    c.history.length ≤ c.turnCount + 1 := by
  have hturns := h.turnCount
  have hnodes := h.history
  omega

namespace Manager

variable {m : Manager} {id : String} {began c c' : Conversation} {times : List Instant}

/-- When the lines of input for a conversation are answered in a run. -/
def answeredAt (m : Manager) (id : String) : List Call → List Instant
  | [] => []
  | call :: rest =>
    (if m.answers id call then [m.now] else []) ++ (m.perform call).1.answeredAt id rest

section Turns

variable {α : Type} {f : Context → α} {ps : Participants} {providerId : Option String}
  {input : String} {p : Provider} {tree : Tree} {n : Node} {play : Play} {r : Response}

/-- The start node is the first of the history, and nothing has been said yet. -/
theorem Opens.tallies (hm : m.Sound f) (h : m.Opens ps providerId p tree play r) :
    (p.newConversation m.forum ps tree).Tallies [] play.conversation := by
  have continues : (p.newConversation m.forum ps tree).Continues play.conversation :=
    (h.played hm).continues
  obtain ⟨-, -, hplace, -⟩ := h.place
  obtain ⟨hhistory, -⟩ := Prod.mk.inj hplace
  refine ⟨continues.id, continues.playerId, continues.npcId, continues.treeId,
    continues.startedAt, continues.turnCount, continues.lastActivity, ?_⟩
  rw [hhistory]
  exact Nat.le_refl 1

/-- A turn comes to one node at most. -/
theorem Proceeds.history_le (hm : m.Sound f) (h : m.Proceeds ps id input c p tree n play r) :
    play.conversation.history.length ≤ c.history.length + 1 := by
  cases h.moves hm with
  | stays hplace | departs _ _ hplace =>
    obtain ⟨hhistory, -⟩ := Prod.mk.inj hplace
    rw [hhistory]
    exact Nat.le_succ _
  | arrives _ _ _ hplace =>
    obtain ⟨hhistory, -⟩ := Prod.mk.inj hplace
    rw [hhistory, List.length_append]
    exact Nat.le_refl _

theorem Proceeds.answers (hm : m.Sound f) (h : m.Proceeds ps id input c p tree n play r) :
    m.answers id (.advance ps id input) = true := by
  refine answers_iff.mpr ⟨ps, input, r, rfl, ?_⟩
  rw [h.advance_eq hm]
  rfl

/-- A line of input that is answered is recorded with its time. -/
theorem Proceeds.tallies (hm : m.Sound f) (h : m.Proceeds ps id input c p tree n play r)
    (hc : began.Tallies times c) : began.Tallies (times ++ [m.now]) play.conversation := by
  have continues : (c.touch m.now).Continues play.conversation := (h.played hm).continues
  have hnodes := h.history_le hm
  have hbefore := hc.history
  refine ⟨continues.id.trans hc.id, continues.playerId.trans hc.playerId,
    continues.npcId.trans hc.npcId, continues.treeId.trans hc.treeId,
    continues.startedAt.trans hc.startedAt, ?_, ?_, ?_⟩
  · have hcount : play.conversation.turnCount = min (c.turnCount + 1) Text.uint32Max :=
      continues.turnCount
    have hturns := hc.turnCount
    rw [List.length_append, List.length_singleton]
    omega
  · rw [List.getLast?_concat]
    exact continues.lastActivity
  · rw [List.length_append, List.length_singleton]
    omega

end Turns

/-! ### Runs -/

theorem Passed.perform (h : m.Passed id) (hm : m.Reachable) {call : Call}
    (hlaunch : call.isLaunch = false) (hcall : ∀ p ∈ call.providers, p.Authored) :
    (m.perform call).1.Passed id :=
  h.steps (perform_steps hm.sound hlaunch fun p hp => ⟨hcall p hp, steady_unit _⟩)

/-- A call that is no line of input for a conversation, or one that is refused, leaves it as it
was or hands it over. -/
theorem Holding.unanswered {call : Call} (h : m.Holding id call c') (hm : m.Reachable)
    (hpassed : m.Passed id) (hsilent : m.answers id call = false) :
    m.arena.get? id = some c' ∨ ∃ c providerId, call = .switchProvider id providerId ∧
      m.arena.get? id = some c ∧ c' = { c with providerId } := by
  cases h with
  | kept _ hc => exact .inl hc
  | handed providerId hc => exact .inr ⟨_, providerId, rfl, hc, rfl⟩
  | began _ hnext => exact absurd hnext (hpassed _ (Nat.le_refl _))
  | spoke proceeds =>
    rw [proceeds.answers hm.sound] at hsilent
    exact absurd hsilent (by simp)

theorem tallies_perform (h : ∀ c, m.arena.get? id = some c → began.Tallies times c)
    (hm : m.Reachable) (hpassed : m.Passed id) {call : Call} (hlaunch : call.isLaunch = false)
    (hc' : (m.perform call).1.arena.get? id = some c') :
    began.Tallies (times ++ if m.answers id call then [m.now] else []) c' := by
  cases perform_holding hm.sound hlaunch hc' with
  | kept hsilent hc =>
    rw [hsilent, if_neg Bool.false_ne_true, List.append_nil]
    exact h c' hc
  | handed providerId hc =>
    obtain ⟨hid, hplayer, hnpc, htree, hstarted, hturns, hlast, hnodes⟩ := h _ hc
    rw [show m.answers id (.switchProvider id providerId) = false from rfl,
      if_neg Bool.false_ne_true, List.append_nil]
    exact ⟨hid, hplayer, hnpc, htree, hstarted, hturns, hlast, hnodes⟩
  | began _ hnext => exact absurd hnext (hpassed _ (Nat.le_refl _))
  | spoke proceeds =>
    rw [proceeds.answers hm.sound, if_pos rfl]
    exact proceeds.tallies hm.sound (h _ proceeds.held)

theorem tallies_run (h : ∀ c, m.arena.get? id = some c → began.Tallies times c)
    (hm : m.Reachable) (hpassed : m.Passed id) {cs : List Call}
    (hcs : ∀ call ∈ cs, call.isLaunch = false ∧ ∀ p ∈ call.providers, p.Authored)
    (hc' : (m.run cs).1.arena.get? id = some c') :
    began.Tallies (times ++ m.answeredAt id cs) c' := by
  -- The times before a run are those of its first calls, when the induction comes to the others.
  induction cs generalizing m times with
  | nil =>
    rw [answeredAt, List.append_nil]
    exact h c' hc'
  | cons call rest ih =>
    obtain ⟨hlaunch, hproviders⟩ := hcs call List.mem_cons_self
    rw [answeredAt, ← List.append_assoc]
    exact ih (fun c hc => tallies_perform h hm hpassed hlaunch hc) (hm.call call hproviders)
      (hpassed.perform hm hlaunch hproviders)
      (fun call' hmem => hcs call' (List.mem_cons_of_mem call hmem)) hc'

/-- **The records of a conversation are exact.**  After any calls that follow its start, its
count is that of its lines of input which were answered, up to the largest number there is, its
last activity is the time of the last of these or else of the start, and it is still the
conversation that began.  A call that is no such line, or that is refused, leaves a conversation
as it was, whatever it is; handing it over changes the provider and nothing else. -/
theorem bookkeeping {m : Manager} (hm : m.Reachable) (hfresh : m.Fresh) :
    (∀ ps providerId r, (m.start ps providerId).result.response = .ok r →
      ∃ p tree, m.resolve ps.npc.id providerId = .ok p ∧ p.treeOf ps.npc.id = .ok tree ∧
        ∀ cs : List Call,
          (∀ call ∈ cs, call.isLaunch = false ∧ ∀ p ∈ call.providers, p.Authored) →
          let started := (m.start ps providerId).manager
          let times := started.answeredAt r.conversationId cs
          ∀ c, (started.run cs).1.conversation? r.conversationId = some c →
            c.turnCount = min (2 ^ 32 - 1) times.length ∧
            c.lastActivity = times.getLast?.getD m.now ∧
            c.startedAt = m.now ∧ c.id = r.conversationId ∧ c.playerId = ps.player.id ∧
            c.npcId = ps.npc.id ∧ c.treeId = tree.id ∧
            (c.turnCount < 2 ^ 32 - 1 → c.history.length ≤ c.turnCount + 1)) ∧
    ∀ (call : Call) id c c', call.isLaunch = false → m.answers id call = false →
      m.conversation? id = some c → (m.perform call).1.conversation? id = some c' →
      c' = c ∨ ∃ providerId, call = .switchProvider id providerId ∧ c' = { c with providerId } := by
  constructor
  · intro ps providerId r hr
    obtain ⟨p, tree, play, opens⟩ := start_ok hm.sound hr
    refine ⟨p, tree, opens.resolve, opens.mapped, ?_⟩
    intro cs hcs started times c hc
    have reachable : started.Reachable := hm.perform (.start ps providerId) rfl
    have new : m.arena.contains m.forum.ids.next = false := hfresh.unheld _ (Nat.le_refl _)
    have hid : r.conversationId = play.conversation.id :=
      (opens.played hm.sound).shows.conversationId
    have begun : ∀ c, started.arena.get? r.conversationId = some c →
        (p.newConversation m.forum ps tree).Tallies [] c := by
      intro c hc
      rw [opens.eq_of_held hm.sound new hc]
      exact opens.tallies hm.sound
    have passed : started.Passed r.conversationId := hid ▸ opens.passed hm.sound hfresh
    have tallies := tallies_run begun reachable passed hcs hc
    rw [List.nil_append] at tallies
    exact ⟨tallies.turnCount, tallies.lastActivity, tallies.startedAt,
      tallies.id.trans (opens.conversationId_eq hm.sound).symm, tallies.playerId, tallies.npcId,
      tallies.treeId, tallies.history_le⟩
  · intro call id c c' hlaunch hsilent hc hc'
    have passed : m.Passed id := hfresh.spent (Arena.contains_of_get? hc)
    rcases (perform_holding hm.sound hlaunch hc').unanswered hm passed hsilent with
      hsame | ⟨before, providerId, hcall, hbefore, heq⟩
    · exact .inl (Option.some.inj (hsame.symm.trans hc))
    · obtain rfl := Option.some.inj (hbefore.symm.trans hc)
      exact .inr ⟨providerId, hcall, heq⟩

end Manager

theorem Inn.kitchen_fresh : Inn.kitchen.Fresh := ⟨Inn.ids_injective, fun _ _ => rfl⟩

namespace Manager

/-- The diner mumbles twice, the second time late in the evening; that a stranger has asked for
the stew before is not recorded, and neither is the last cleanup. -/
theorem bookkeeping_supper :
    let started := (Inn.kitchen.start Inn.diner none).manager
    let calls := [Call.advance Inn.diner "" "Hm.", .setClock (Instant.epoch.addMillis 60000),
      .advance {} "" "1", .advance Inn.diner "" "Hm.", .cleanup]
    let later := started.run calls
    started.answeredAt "" calls = [Instant.epoch, Instant.epoch.addMillis 60000] ∧
    (∃ c, later.1.conversation? "" = some c ∧ c.turnCount = 2 ∧
      c.lastActivity = Instant.epoch.addMillis 60000 ∧ c.startedAt = Instant.epoch ∧
      c.history.length ≤ 3) ∧
    (Inn.reopened.perform (.advance {} "evening" "")).1.conversation? "evening" =
      some Inn.evening := by
  intro started calls later
  obtain ⟨hstart, -⟩ := bookkeeping Inn.kitchen_reachable Inn.kitchen_fresh
  obtain ⟨-, hothers⟩ := bookkeeping Inn.reopened_reachable Inn.reopened_fresh
  have times : started.answeredAt "" calls =
      [Instant.epoch, Instant.epoch.addMillis 60000] := by decide +kernel
  obtain ⟨r, hr, hid⟩ : ∃ r, (Inn.kitchen.start Inn.diner none).result.response = .ok r ∧
      r.conversationId = "" := exists_ok_of_map (by decide +kernel)
  obtain ⟨p, tree, -, -, hrecords⟩ := hstart Inn.diner none r hr
  have records := hrecords calls (by simp [calls, Call.isLaunch, Call.providers])
  rw [hid] at records
  obtain ⟨c, hc⟩ : ∃ c, later.1.conversation? "" = some c :=
    Option.isSome_iff_exists.mp (by decide +kernel)
  obtain ⟨hcount, hlast, hstarted, -, -, -, -, hnodes⟩ := records c hc
  have two : c.turnCount = 2 := by
    rw [hcount]
    exact congrArg (fun times => min (2 ^ 32 - 1) (List.length times)) times
  have last : c.lastActivity = Instant.epoch.addMillis 60000 := by
    rw [hlast]
    exact congrArg (fun times => (List.getLast? times).getD Inn.kitchen.now) times
  have kept : ((Inn.reopened.perform (.advance {} "evening" "")).1.conversation? "evening").isSome =
      true := by decide +kernel
  obtain ⟨c', hc'⟩ := Option.isSome_iff_exists.mp kept
  have same := hothers (.advance {} "evening" "") "evening" Inn.evening c' rfl (by decide +kernel)
    (by decide +kernel) hc'
  refine ⟨times, ⟨c, hc, two, last, hstarted, ?_⟩, ?_⟩
  · rw [two] at hnodes
    exact hnodes (by decide)
  · rcases same with rfl | ⟨_, hswitch, -⟩
    · exact hc'
    · exact absurd hswitch (by simp)

end Manager

end Parley
