/-
A conversation that was handed over can go on if its new provider has its tree.

A conversation may be handed to any registered provider that speaks for its NPC.  It takes its
tree and its node along as names, which mean what the new provider has under them:

* `Provider.Plays` — a provider has the tree of a conversation, with the node where it is;
* `Manager.Playable.perform`, `Manager.Playable.run` — what calls cannot take away;
* `Manager.switchProvider_ok` — handing over changes the provider and nothing else;
* `Manager.handover` — what comes of it, for the next line of input and for all later ones.

Design notes: handing over looks at the NPC and not at the tree, so that a conversation may be
handed to a provider that cannot go on with it, and handed back.
-/
import Parley.Proofs.Restart
import Parley.Proofs.Walk

namespace Parley

/-- The provider has the tree that the conversation is on, with its current node. -/
def Provider.Plays (p : Provider) (c : Conversation) : Prop :=
  ∃ tree n, p.trees.get? c.treeId = some tree ∧ tree.node? c.currentNodeId = some n

/-- An edit takes no conversation off its place. -/
def Provider.Edit.Spares (e : Provider.Edit) : Prop :=
  ∀ (p : Provider) c, p.Plays c → (p.edit e).Plays c

/-- The call neither launches, nor hands the conversation over, nor takes content away. -/
def Call.LeavesPlayable (id : String) : Call → Prop
  | .launch .. => False
  | .editProvider _ e => e.Spares
  | .switchProvider id' _ => id' ≠ id
  | _ => True

namespace Manager

variable {α : Type} {f : Context → α} {m m' : Manager} {id : String}

/-! ### Places that stay -/

/-- The conversation is at a node that its provider has, if it is held at all. -/
def Playable (m : Manager) (id : String) : Prop :=
  ∀ c p, m.arena.get? id = some c → m.providers.get? c.providerId = some p → p.Plays c

/-- From `m` to `m'` the conversation may have gone, but it was not changed, and what a provider
could play it can play still. -/
structure Preserves (m m' : Manager) (id : String) : Prop where
  held : ∀ c, m'.arena.get? id = some c → m.arena.get? id = some c
  plays : ∀ providerId p', m.providers.contains providerId = true →
    m'.providers.get? providerId = some p' →
    ∃ p, m.providers.get? providerId = some p ∧ ∀ c, p.Plays c → p'.Plays c

theorem Preserves.of_same (hproviders : m'.providers = m.providers)
    (hheld : ∀ c, m'.arena.get? id = some c → m.arena.get? id = some c) : m.Preserves m' id :=
  ⟨hheld, fun _ p' _ hp' => ⟨p', hproviders ▸ hp', fun _ h => h⟩⟩

/-- Ending conversations preserves all others. -/
theorem Preserves.without (m : Manager) (id : String) (ids : List String) :
    m.Preserves (m.withArena (m.arena.without ids)) id :=
  .of_same rfl fun _ hc => (Arena.get?_without_cases hc).2

theorem Playable.preserved (h : m.Playable id) (hm : m.Sound f) (hp : m.Preserves m' id) :
    m'.Playable id := by
  intro c p' hc hp'
  have hbefore := hp.held c hc
  obtain ⟨p, hold, hplays⟩ := hp.plays c.providerId p' (hm.registered id c hbefore) hp'
  exact hplays c (h c p hbefore hold)

/-- A provider that is put back changed can play what it could. -/
theorem withProvider_plays {p p' : Provider} (hp : m.providers.get? p'.id = some p)
    (hplays : ∀ c, p.Plays c → p'.Plays c) {providerId : String} {q : Provider}
    (hq : (m.withProvider p').providers.get? providerId = some q) :
    ∃ old, m.providers.get? providerId = some old ∧ ∀ c, old.Plays c → q.Plays c := by
  rcases Dict.get?_modify_cases hq with ⟨rfl, _, -, rfl⟩ | hold
  · exact ⟨p, hp, hplays⟩
  · exact ⟨q, hold, fun _ h => h⟩

theorem unregister_preserves (m : Manager) (id providerId : String) :
    m.Preserves (m.unregister providerId).manager id := by
  cases hcontains : m.providers.contains providerId with
  | false =>
    rw [unregister_absent hcontains]
    exact .of_same rfl fun _ hc => hc
  | true =>
    obtain ⟨hmanager, -⟩ := unregister_held hcontains
    rw [hmanager]
    refine ⟨fun c hc => (Arena.get?_without_cases hc).2, fun other p' _ hp' => ?_⟩
    exact ⟨p', (Dict.get?_erase_cases hp').2, fun _ h => h⟩

theorem register_preserves {p : Provider} (h : m.register p = .ok m') : m.Preserves m' id := by
  have new : m.providers.contains p.id = false := by
    rw [register] at h
    split at h
    · exact absurd h (by simp)
    · rename_i hnew
      simpa using hnew
  obtain rfl := register_ok h
  refine ⟨fun _ hc => hc, fun providerId p' hcontains hp' => ?_⟩
  rcases Dict.get?_insert_cases hp' with ⟨rfl, -⟩ | hold
  · rw [new] at hcontains
    exact absurd hcontains (by simp)
  · exact ⟨p', hold, fun _ h => h⟩

theorem finish_preserves (hm : m.Sound f) (id id' : String) :
    m.Preserves (m.finish id').manager id := by
  cases hc : m.arena.get? id' with
  | none =>
    rw [finish_absent hc]
    exact .of_same rfl fun _ hc => hc
  | some c =>
    rw [finish_held hm hc, ← Arena.without_nil (m.arena.remove id'), Arena.without_remove]
    exact .without m id [id']

theorem cleanup_preserves (m : Manager) (id : String) : m.Preserves m.cleanup.manager id := by
  rw [cleanup_manager]
  exact .without m id _

theorem maintain_preserves (m : Manager) (id : String) : m.Preserves m.maintain.1 id := by
  have cleaned := cleanup_preserves m id
  rw [maintain]
  split
  · rename_i hsave
    obtain ⟨store, rfl⟩ := autosave_frame hsave
    exact ⟨cleaned.held, cleaned.plays⟩
  · exact cleaned

theorem tick_preserves (m : Manager) (id : String) (seconds : Nat) :
    m.Preserves (m.tick seconds).1 id := by
  have maintained := maintain_preserves m id
  rw [tick]
  split
  · exact .of_same rfl fun _ hc => hc
  · split
    · exact .of_same rfl fun _ hc => hc
    · exact ⟨maintained.held, maintained.plays⟩

theorem shutdown_preserves (m : Manager) (id : String) : m.Preserves m.shutdown.1 id := by
  rw [shutdown]
  split
  · rename_i hsave
    obtain ⟨store, rfl⟩ := autosave_frame hsave
    exact .of_same rfl fun _ hc => hc
  · exact .of_same rfl fun _ hc => hc

/-- Another conversation may be handed over. -/
theorem switchProvider_preserves {id' : String} (hne : id' ≠ id) (providerId : String) :
    m.Preserves (m.switchProvider id' providerId).manager id := by
  have switched := switchProvider_cases m id' providerId
  generalize m.switchProvider id' providerId = reply at switched
  cases switched with
  | refused | same => exact .of_same rfl fun _ hc => hc
  | moved =>
    refine .of_same rfl fun c hc => ?_
    replace hc : (m.arena.update id' _).get? id = some c := hc
    rwa [Arena.get?_update, if_neg hne] at hc

/-! ### Turns -/

section Turns

variable {ps : Participants} {providerId : Option String} {input : String} {p : Provider}
  {tree : Tree} {n : Node} {c : Conversation} {play : Play} {r : Response}

theorem Opens.installed (hm : m.Sound f) (h : m.Opens ps providerId p tree play r) :
    p.trees.get? play.conversation.treeId = some tree := by
  obtain ⟨treeId, hmem⟩ := Provider.treeOf_mem h.mapped
  obtain ⟨-, rfl⟩ := (h.registered hm).2.authored.holdsValid treeId tree hmem
  have hstays : play.conversation.treeId = tree.id := (h.played hm).continues.treeId
  rw [hstays]
  exact hmem

/-- A first turn ends at a node of the tree that it began on. -/
theorem Opens.plays (hm : m.Sound f) (h : m.Opens ps providerId p tree play r) :
    p.Plays play.conversation := by
  obtain ⟨n, hn, hplace, -⟩ := h.place
  obtain ⟨-, hcurrent⟩ := Prod.mk.inj hplace
  exact ⟨tree, n, h.installed hm, hcurrent ▸ hn⟩

/-- A later turn stays on the tree as well, even if it does not leave its node. -/
theorem Proceeds.plays (hm : m.Sound f) (h : m.Proceeds ps id input c p tree n play r) :
    p.Plays play.conversation := by
  have hstays : play.conversation.treeId = c.treeId := (h.played hm).continues.treeId
  cases h.moves hm with
  | stays hplace | departs _ _ hplace =>
    obtain ⟨-, hcurrent⟩ := Prod.mk.inj hplace
    exact ⟨tree, n, hstays ▸ h.installed, hcurrent ▸ h.node⟩
  | arrives _ _ hn hplace =>
    obtain ⟨-, hcurrent⟩ := Prod.mk.inj hplace
    exact ⟨tree, _, hstays ▸ h.installed, hcurrent ▸ hn⟩

/-- A turn leaves its own conversation at a node of its provider, and the others as they were. -/
theorem Playable.turned (h : m.Playable id) {c' : Conversation} {taken : Nat}
    (hp : m.providers.get? p.id = some p) (hprovider : c'.providerId = p.id)
    (hplays : p.Plays c') (hproviders : m'.providers = (m.withProvider { p with taken }).providers)
    (hheld : ∀ c, m'.arena.get? id = some c → c = c' ∨ m.arena.get? id = some c) :
    m'.Playable id := by
  intro c q hc hq
  rw [hproviders] at hq
  -- What a turn draws from a provider takes nothing from its trees.
  have drawn : m.providers.get? ({ p with taken } : Provider).id = some p := hp
  obtain ⟨old, hold, hkeeps⟩ := withProvider_plays drawn (fun _ h => h) hq
  rcases hheld c hc with rfl | hbefore
  · rw [hprovider, hp] at hold
    obtain rfl := Option.some.inj hold
    exact hkeeps c hplays
  · exact hkeeps c (h c old hbefore hold)

theorem Playable.start (h : m.Playable id) (hm : m.Sound f) (ps : Participants)
    (providerId : Option String) : (m.start ps providerId).manager.Playable id := by
  cases hr : (m.start ps providerId).result.response with
  | error e =>
    rw [start_refused hm hr]
    exact h.preserved hm (.without m id _)
  | ok r =>
    obtain ⟨p, tree, play, opens⟩ := start_ok hm hr
    refine h.turned (opens.registered hm).1 (opens.played hm).continues.providerId
      (opens.plays hm) (by rw [opens.start_eq]; rfl) fun c hc => ?_
    rw [opens.arena_eq] at hc
    split at hc
    · rcases Arena.get?_insert_cases hc with rfl | hbefore
      · exact .inl rfl
      · exact .inr (Arena.get?_without_cases hbefore).2
    · exact .inr (Arena.get?_without_cases hc).2

theorem Playable.advance (h : m.Playable id) (hm : m.Sound f) (ps : Participants)
    (id' input : String) : (m.advance ps id' input).manager.Playable id := by
  have advanced := advance_cases hm ps id' input
  cases hr : (m.advance ps id' input).result.response with
  | error e =>
    by_cases htimeout : e = .timeout id'
    · subst htimeout
      obtain ⟨c, -, hreply⟩ := advanced.timedOut hr
      rw [hreply, ← Arena.without_nil (m.arena.remove id'), Arena.without_remove]
      exact h.preserved hm (.without m id [id'])
    · rw [advanced.refused hr htimeout]
      exact h
  | ok r =>
    obtain ⟨c, p, tree, n, play, proceeds⟩ := advance_ok hm hr
    obtain ⟨hid, -⟩ := hm.registry _ _ proceeds.provider
    have present : m.arena.contains play.conversation.id = true := by
      rw [proceeds.id_eq hm]
      exact Arena.contains_of_get? proceeds.held
    refine h.turned (proceeds.registered hm).1
      ((proceeds.played hm).continues.providerId.trans hid.symm) (proceeds.plays hm)
      (by rw [proceeds.advance_eq hm]; rfl) fun c' hc' => ?_
    rw [proceeds.advance_eq hm] at hc'
    exact Arena.get?_settle_cases present hc'

end Turns

/-! ### Runs -/

/-- A conversation stays playable unless it is handed over again or its tree is edited away. -/
theorem Playable.perform (h : m.Playable id) (hm : m.Sound f) {call : Call}
    (hleaves : call.LeavesPlayable id) : (m.perform call).1.Playable id := by
  have still {m' : Manager} (hproviders : m'.providers = m.providers)
      (harena : m'.arena = m.arena) : m'.Playable id :=
    h.preserved hm (.of_same hproviders fun _ hc => harena ▸ hc)
  cases call with
  | launch => exact hleaves.elim
  | register p =>
    rw [Manager.perform]
    cases hregister : m.register p with
    | error => exact h
    | ok m' => exact h.preserved hm (register_preserves hregister)
  | unregister providerId => exact h.preserved hm (unregister_preserves m id providerId)
  | setDefault providerId =>
    rw [Manager.perform, setDefault]
    split
    · exact still rfl rfl
    · exact h
  | editProvider providerId e =>
    rw [Manager.perform, editProvider]
    cases hp : m.providers.get? providerId with
    | none => exact h
    | some p =>
      obtain ⟨rfl, -⟩ := hm.registry _ _ hp
      have hid : (p.edit e).id = p.id := (Provider.edit_revises p e).id
      refine h.preserved hm ⟨fun _ hc => hc, fun other q _ hq => ?_⟩
      exact withProvider_plays (hid.symm ▸ hp) (hleaves p) hq
  | start ps providerId => exact h.start hm ps providerId
  | advance ps id' input => exact h.advance hm ps id' input
  | finish id' => exact h.preserved hm (finish_preserves hm id id')
  | switchProvider id' providerId =>
    exact h.preserved hm (switchProvider_preserves hleaves providerId)
  | cleanup => exact h.preserved hm (cleanup_preserves m id)
  | autosave =>
    rw [Manager.perform]
    cases hsave : m.autosave with
    | error => exact h
    | ok saved =>
      obtain ⟨m', count⟩ := saved
      obtain ⟨store, rfl⟩ := autosave_frame hsave
      exact still rfl rfl
  | setClock | startMaintenance => exact still rfl rfl
  | tick seconds => exact h.preserved hm (tick_preserves m id seconds)
  | shutdown => exact h.preserved hm (shutdown_preserves m id)

theorem Playable.run (h : m.Playable id) (hm : m.Reachable) {cs : List Call}
    (hcs : ∀ call ∈ cs, call.LeavesPlayable id ∧ ∀ p ∈ call.providers, p.Authored) :
    (m.run cs).1.Playable id ∧ (m.run cs).1.Reachable := by
  induction cs generalizing m with
  | nil => exact ⟨h, hm⟩
  | cons call rest ih =>
    obtain ⟨hleaves, hproviders⟩ := hcs call List.mem_cons_self
    exact ih (h.perform hm.sound hleaves) (.call call hproviders hm) fun call' hmem =>
      hcs call' (List.mem_cons_of_mem call hmem)

theorem Playable.advance_ne (h : m.Playable id) (hm : m.Sound f) (ps : Participants)
    (input treeId nodeId : String) :
    (m.advance ps id input).result.response ≠ .error (.treeNotFound treeId) ∧
      (m.advance ps id input).result.response ≠ .error (.nodeNotFound treeId nodeId) := by
  have advanced := advance_cases hm ps id input
  generalize m.advance ps id input = reply at advanced
  cases advanced with
  | absent | stranger | lapsed => exact ⟨by simp [refuse], by simp [refuse]⟩
  | treeless hc _ _ hp htree =>
    obtain ⟨tree, n, hfound, -⟩ := h _ _ hc hp
    rw [htree] at hfound
    exact absurd hfound (by simp)
  | nodeless hc _ _ hp htree hn =>
    obtain ⟨tree, n, hfound, hnode⟩ := h _ _ hc hp
    rw [htree] at hfound
    obtain rfl := Option.some.inj hfound
    rw [hn] at hnode
    exact absurd hnode (by simp)
  | turned => exact ⟨by simp [settle, Provider.turned], by simp [settle, Provider.turned]⟩

/-- A line of input of the owner in time is answered exactly if the provider plays on. -/
theorem advance_plays (hm : m.Sound f) {c : Conversation} {p : Provider}
    (hc : m.arena.get? id = some c) (hp : m.providers.get? c.providerId = some p)
    {ps : Participants} (howner : ps.player.id = c.playerId)
    (hlive : c.isExpired m.now m.timeout = false) (input : String) :
    (p.Plays c → ∃ r, (m.advance ps id input).result.response = .ok r) ∧
    (¬ p.Plays c →
      (m.advance ps id input).result.response = .error (.treeNotFound c.treeId) ∨
      (m.advance ps id input).result.response =
        .error (.nodeNotFound c.treeId c.currentNodeId)) := by
  have advanced := advance_cases hm ps id input
  have known := treeOf?_eq hp
  constructor
  · rintro ⟨tree, n, htree, hn⟩
    exact advanced.ok_iff.mpr ⟨c, tree, n, hc, howner.symm, hlive, known.trans htree, hn⟩
  · intro hplays
    cases htree : p.trees.get? c.treeId with
    | none => exact .inl ((advanced.error_iff _).mpr (.treeless hc howner.symm hlive (known ▸ htree)))
    | some tree =>
      have hn : tree.node? c.currentNodeId = none :=
        Option.eq_none_iff_forall_ne_some.mpr fun n hn => hplays ⟨tree, n, htree, hn⟩
      exact .inr ((advanced.error_iff _).mpr
        (.nodeless hc howner.symm hlive (known.trans htree) hn))

/-! ### Handing over -/

/-- Handing over finds the conversation, and a provider that speaks for its NPC. -/
structure HandsOver (m : Manager) (id providerId : String) (c : Conversation) (p : Provider) :
    Prop where
  held : m.conversation? id = some c
  registered : m.providers.get? providerId = some p
  speaks : p.canHandle c.npcId = true

variable {providerId : String} {c c' : Conversation} {p : Provider}

theorem switchProvider_ok (h : (m.switchProvider id providerId).result = .ok c') :
    ∃ c p, m.HandsOver id providerId c p := by
  rw [switchProvider] at h
  cases hp : m.providers.get? providerId with
  | none =>
    rw [hp] at h
    exact absurd h (by simp)
  | some p =>
    cases hc : m.arena.get? id with
    | none =>
      rw [hp, hc] at h
      exact absurd h (by simp)
    | some c =>
      cases hspeaks : p.canHandle c.npcId with
      | true => exact ⟨c, p, hc, hp, hspeaks⟩
      | false =>
        simp only [hp, hc, hspeaks] at h
        exact absurd h (by simp)

/-- The conversation names its new provider, and that is all that is changed. -/
theorem HandsOver.switchProvider_eq (h : m.HandsOver id providerId c p) :
    m.switchProvider id providerId =
      { manager := m.withArena (m.arena.update id { c with providerId })
        events := if c.providerId = providerId then [] else
          [Event.ofConversation { c with providerId } m.now
            (.providerSwitched c.providerId providerId)]
        result := .ok { c with providerId } } := by
  have hc : m.arena.get? id = some c := h.held
  rw [switchProvider, h.registered, hc]
  simp only [h.speaks]
  by_cases hsame : c.providerId = providerId
  · subst hsame
    rw [if_pos rfl, if_pos rfl, Arena.update_self hc]
    rfl
  · rw [if_neg hsame, if_neg hsame]
    rfl

theorem switchProvider_error {e : DialogueError}
    (h : (m.switchProvider id providerId).result = .error e) :
    (m.switchProvider id providerId).manager = m ∧
      (m.switchProvider id providerId).events = [] := by
  have switched := switchProvider_cases m id providerId
  generalize m.switchProvider id providerId = reply at switched h
  cases switched with
  | refused => exact ⟨rfl, rfl⟩
  | same | moved => exact absurd h (by simp)

theorem HandsOver.playable (h : m.HandsOver id providerId c p) (hplays : p.Plays c) :
    (m.switchProvider id providerId).manager.Playable id := by
  intro c' q hc' hq
  rw [h.switchProvider_eq] at hc' hq
  replace hc' : (m.arena.update id _).get? id = some c' := hc'
  rw [Arena.get?_update_self h.held] at hc'
  obtain rfl := Option.some.inj hc'
  obtain rfl := Option.some.inj (h.registered.symm.trans hq)
  exact hplays

/-- Handing a conversation over changes its provider alone, and announces that once if the
provider is another one.  Then the next line of input is answered exactly if the new provider
has the conversation's tree with its node; and if so, no line of input ever fails for want of
them, unless they are edited away or the conversation is handed over again. -/
theorem handover (hm : m.Reachable) (id providerId : String) :
    (∀ e, (m.switchProvider id providerId).result = .error e →
      (m.switchProvider id providerId).manager = m ∧
        (m.switchProvider id providerId).events = []) ∧
    ∀ c', (m.switchProvider id providerId).result = .ok c' →
      ∃ c p, m.HandsOver id providerId c p ∧ c' = { c with providerId } ∧
        (m.switchProvider id providerId).manager = m.withArena (m.arena.update id c') ∧
        (m.switchProvider id providerId).events =
          (if c.providerId = providerId then [] else
            [Event.ofConversation c' m.now (.providerSwitched c.providerId providerId)]) ∧
        (∀ now ps input, ps.player.id = c.playerId → c.isExpired now m.timeout = false →
          let reply := ((m.switchProvider id providerId).manager.atTime now).advance ps id input
          (p.Plays c → ∃ r, reply.result.response = .ok r) ∧
          (¬ p.Plays c →
            reply.result.response = .error (.treeNotFound c.treeId) ∨
            reply.result.response = .error (.nodeNotFound c.treeId c.currentNodeId))) ∧
        (p.Plays c → ∀ cs : List Call,
          (∀ call ∈ cs, call.LeavesPlayable id ∧ ∀ p ∈ call.providers, p.Authored) →
          ∀ ps input treeId nodeId,
            let reply := ((m.switchProvider id providerId).manager.run cs).1.advance ps id input
            reply.result.response ≠ .error (.treeNotFound treeId) ∧
              reply.result.response ≠ .error (.nodeNotFound treeId nodeId)) := by
  refine ⟨fun e => switchProvider_error, fun c' h => ?_⟩
  obtain ⟨c, p, hands⟩ := switchProvider_ok h
  have after : (m.switchProvider id providerId).manager.Reachable :=
    .call (.switchProvider id providerId) (fun _ hp => absurd hp List.not_mem_nil) hm
  have reply := hands.switchProvider_eq
  obtain rfl : { c with providerId } = c' := by
    rw [reply] at h
    exact Except.ok.inj h
  refine ⟨c, p, hands, rfl, by rw [reply], by rw [reply], fun now ps input howner hlive => ?_,
    fun hplays cs hcs ps input treeId nodeId => ?_⟩
  · have held : ((m.switchProvider id providerId).manager.atTime now).arena.get? id =
        some { c with providerId } := by
      rw [reply]
      exact Arena.get?_update_self hands.held _
    have registered : ((m.switchProvider id providerId).manager.atTime now).providers.get?
        providerId = some p := by
      rw [reply]
      exact hands.registered
    have live : Conversation.isExpired { c with providerId }
        ((m.switchProvider id providerId).manager.atTime now).now
        ((m.switchProvider id providerId).manager.atTime now).timeout = false := by
      rw [reply]
      exact hlive
    exact advance_plays (after.sound.atTime now) held registered howner live input
  · obtain ⟨playable, reachable⟩ := (hands.playable hplays).run after hcs
    exact playable.advance_ne reachable.sound ps input treeId nodeId

end Manager

/-! ### The inn with more hands -/

namespace Inn

/-- Another keeper, with the same tree. -/
def porter : Provider :=
  (Provider.edit { id := "porter" } (.replaceTree greeting)).edit (.mapNpc "innkeeper" "greeting")

/-- One who speaks for the keeper as well, from a tree of its own. -/
def butler : Provider :=
  (Provider.edit { id := "butler" } (.replaceTree supper)).edit (.mapNpc "innkeeper" "supper")

def staffed : Manager := (reopened.run [.register porter, .register butler]).1

theorem porter_authored : porter.Authored :=
  .edit (.mapNpc "innkeeper" "greeting") (.edit (.replaceTree greeting) (.new _ _ _ _ _))

theorem butler_authored : butler.Authored :=
  .edit (.mapNpc "innkeeper" "supper") (.edit (.replaceTree supper) (.new _ _ _ _ _))

theorem staffed_reachable : staffed.Reachable :=
  .call (.register butler) (fun _ hp => List.mem_singleton.mp hp ▸ butler_authored)
    (.call (.register porter) (fun _ hp => List.mem_singleton.mp hp ▸ porter_authored)
      reopened_reachable)

end Inn

namespace Manager

/-- The porter goes on where the keeper was. -/
theorem handover_porter :
    let switched := Inn.staffed.switchProvider "evening" "porter"
    switched.result = .ok { Inn.evening with providerId := "porter" } ∧
    switched.events = [Event.ofConversation { Inn.evening with providerId := "porter" }
      Inn.staffed.now (.providerSwitched "keeper" "porter")] ∧
    (∃ r, ((switched.manager.atTime Instant.epoch).advance Inn.guest "evening" "").result.response =
      .ok r) ∧
    ((switched.manager.run [.cleanup]).1.advance Inn.guest "evening" "").result.response ≠
      .error (.treeNotFound "greeting") := by
  intro switched
  obtain ⟨-, hok⟩ := handover Inn.staffed_reachable "evening" "porter"
  have ok : switched.result = .ok { Inn.evening with providerId := "porter" } := by
    decide +kernel
  obtain ⟨c, p, hands, -, -, hevents, hnext, hlater⟩ := hok _ ok
  have held : Inn.staffed.conversation? "evening" = some Inn.evening := by decide +kernel
  obtain rfl : Inn.evening = c := Option.some.inj (held.symm.trans hands.held)
  have plays : p.Plays Inn.evening := by
    have known : (Inn.staffed.providers.get? "porter").bind (fun p => p.trees.get? "greeting") =
        some Inn.greeting := by decide +kernel
    rw [hands.registered] at known
    exact ⟨Inn.greeting, _, known, rfl⟩
  refine ⟨ok, hevents, (hnext _ Inn.guest "" rfl (by decide +kernel)).1 plays, ?_⟩
  exact (hlater plays [.cleanup]
    (fun call hcall => List.mem_singleton.mp hcall ▸ ⟨trivial, by simp [Call.providers]⟩)
    Inn.guest "" "greeting" "").1

/-- The butler, who has another tree for the keeper, is handed the conversation just the same,
and it can no longer go on. -/
theorem handover_butler :
    let switched := Inn.staffed.switchProvider "evening" "butler"
    Inn.staffed.Reachable ∧
    (∃ c, Inn.staffed.conversation? "evening" = some c ∧ c.isActive = true ∧
      c.playerId = Inn.guest.player.id ∧ c.isExpired Inn.staffed.now Inn.staffed.timeout = false) ∧
    (∃ r, (Inn.staffed.advance Inn.guest "evening" "").result.response = .ok r) ∧
    (∃ c, switched.result = .ok c) ∧
    (switched.manager.advance Inn.guest "evening" "").result.response =
      .error (.treeNotFound "greeting") := by
  intro switched
  have held : Inn.staffed.conversation? "evening" = some Inn.evening := by decide +kernel
  have known : Inn.staffed.treeOf? Inn.evening = some Inn.greeting := by decide +kernel
  have before := advance_cases Inn.staffed_reachable.sound Inn.guest "evening" ""
  refine ⟨Inn.staffed_reachable, ⟨Inn.evening, held, rfl, rfl, by decide +kernel⟩,
    before.ok_iff.mpr ⟨_, _, _, held, rfl, by decide +kernel, known, rfl⟩,
    ⟨{ Inn.evening with providerId := "butler" }, by decide +kernel⟩, ?_⟩
  have after : switched.manager.Reachable :=
    .call (.switchProvider "evening" "butler") (fun _ hp => absurd hp List.not_mem_nil)
      Inn.staffed_reachable
  have advanced := advance_cases after.sound Inn.guest "evening" ""
  exact (advanced.error_iff _).mpr (.treeless (c := { Inn.evening with providerId := "butler" })
    (by decide +kernel) rfl (by decide +kernel) (by decide +kernel))

end Manager

end Parley
