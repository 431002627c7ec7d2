/-
The steps that the calls of a manager are made of.

`Manager.Step` says once what can happen to the conversations and the providers of a
manager, and what is announced when it does.  An invariant is checked against the
steps, one case for each, and then holds after every call that is made of them:

* `Manager.Sound.step` — a step keeps a manager sound;
* `Manager.start_steps`, `Manager.advance_steps`, `Manager.finish_steps`,
  `Manager.switchProvider_steps`, `Manager.cleanup_steps`,
  `Manager.unregister_steps` — the calls that deal with conversations;
* `Manager.register_steps`, `Manager.editProvider_steps`, `Manager.autosave_steps`,
  `Manager.tick_steps` — the other calls.

Design notes: a start is an end of idle conversations and then, perhaps, one that
opens, so a call is a list of steps.
-/
import Parley.Proofs.Manager.Calls

namespace Parley

variable {α : Type} {f : Context → α}

namespace Manager

variable {m m' m'' : Manager}

/-- The announcements when the named conversations end: one for each that is held. -/
def endEvents (m : Manager) (reason : EndReason) (ids : List String) : List Event :=
  ids.filterMap fun id => (m.arena.get? id).map fun c => c.endEvent reason m.now

inductive Step (f : Context → α) (m : Manager) : Manager → List Event → Prop where
  /-- The conversations and the providers stay, but the clock may be set. -/
  | aside {m' : Manager} (now : Instant) (hconfig : m'.config = m.config)
      (hproviders : m'.providers = m.providers) (hforum : m'.forum = { m.forum with now }) :
      Step f m m' []
  | registered (p : Provider) (hp : p.Fit f) (hnew : m.providers.contains p.id = false)
      (defaultProvider : Option String) :
      Step f m { m with providers := m.providers.insert p.id p, defaultProvider } []
  | edited {p : Provider} (hp : m.providers.get? p.id = some p) (e : Provider.Edit) :
      Step f m (m.withProvider (p.edit e)) []
  /-- A provider goes that has no conversations. -/
  | dropped (providerId : String)
      (hunused : ∀ id c, m.arena.get? id = some c → c.providerId ≠ providerId)
      (defaultProvider : Option String) :
      Step f m { m with providers := m.providers.erase providerId, defaultProvider } []
  | ended (reason : EndReason) {ids : List String} (hids : ids.Nodup) :
      Step f m (m.withArena (m.arena.without ids)) (m.endEvents reason ids)
  | opened {p : Provider} {ps : Participants} {tree : Tree} {play : Play} {r : Response}
      (hquota : m.arena.countOfPlayer ps.player.id < m.config.maxConversationsPerPlayer)
      (hp : m.providers.get? p.id = some p) (htree : p.treeOf ps.npc.id = .ok tree)
      (hplayed : (Play.ofConversation (p.newConversation m.forum ps tree) ps p.taken).Played f
        m.now play r) :
      Step f m (m.settle (p.opened m.forum ps tree play r)).manager
        (p.startEvent m.forum ps tree :: play.events)
  | turned {id : String} {c : Conversation} {p : Provider} {ps : Participants} {play : Play}
      {r : Response} (hc : m.arena.get? id = some c) (howner : c.playerId = ps.player.id)
      (hp : m.providers.get? p.id = some p)
      (hplayed : (Play.ofConversation (c.touch m.now) ps p.taken).Played f m.now play r) :
      Step f m (m.settle (p.turned m.forum ps play r)).manager play.events
  | switched {id providerId : String} {c : Conversation} {p : Provider}
      (hc : m.arena.get? id = some c) (hp : m.providers.get? providerId = some p) :
      Step f m (m.withArena (m.arena.update id { c with providerId }))
        [Event.ofConversation { c with providerId } m.now
          (.providerSwitched c.providerId providerId)]

/-- Steps in turn, with everything that is announced. -/
inductive Steps (f : Context → α) : Manager → Manager → List Event → Prop where
  | refl (m : Manager) : Steps f m m []
  | head {m m' m'' : Manager} {events events' : List Event} (h : Step f m m' events)
      (h' : Steps f m' m'' events') : Steps f m m'' (events ++ events')

theorem Step.steps {events : List Event} (h : Step f m m' events) : Steps f m m' events := by
  have := Steps.head h (.refl m')
  rwa [List.append_nil] at this

theorem Steps.aside (now : Instant) (hconfig : m'.config = m.config)
    (hproviders : m'.providers = m.providers) (hforum : m'.forum = { m.forum with now }) :
    Steps f m m' [] :=
  (Step.aside now hconfig hproviders hforum).steps

theorem Steps.trans {events events' : List Event} (h : Steps f m m' events)
    (h' : Steps f m' m'' events') : Steps f m m'' (events ++ events') := by
  induction h with
  | refl => exact h'
  | head hstep _ ih =>
    rw [List.append_assoc]
    exact .head hstep (ih h')

/-! ### What steps keep -/

theorem Step.config {events : List Event} (h : Step f m m' events) : m'.config = m.config := by
  cases h with
  | aside now hconfig => exact hconfig
  | registered | edited | dropped | ended | opened | turned | switched => rfl

theorem contains_withProvider (m : Manager) (p : Provider) (providerId : String) :
    (m.withProvider p).providers.contains providerId = m.providers.contains providerId :=
  Dict.contains_modify _ _ _ _

/-- A registered provider may be put back changed. -/
theorem Sound.withProvider (hm : m.Sound f) {p : Provider} (hp : p.Fit f) :
    (m.withProvider p).Sound f := by
  refine ⟨hm.arena, fun id c hc => ?_, hm.registry.modify hp⟩
  rw [contains_withProvider]
  exact hm.registered id c hc

/-- A conversation of a registered provider may join those that were held. -/
theorem Sound.withForum (hm : m.Sound f) {forum : Forum} (harena : forum.arena.Sound)
    {c : Conversation} (hc : m.providers.contains c.providerId = true)
    (hheld : ∀ id c', forum.arena.get? id = some c' → c' = c ∨ m.arena.get? id = some c') :
    Sound f { m with forum } := by
  refine ⟨harena, fun id c' hc' => ?_, hm.registry⟩
  rcases hheld id c' hc' with rfl | hbefore
  · exact hc
  · exact hm.registered id c' hbefore

/-- A conversation that goes on after its first turn joins those that are held. -/
theorem Sound.opened (hm : m.Sound f) {p : Provider} {ps : Participants} {tree : Tree}
    {play : Play} {r : Response} (hp : m.providers.get? p.id = some p)
    (hplayed : (Play.ofConversation (p.newConversation m.forum ps tree) ps p.taken).Played f
      m.now play r) :
    (m.settle (p.opened m.forum ps tree play r)).manager.Sound f := by
  have hprovider : play.conversation.providerId = p.id := hplayed.continues.providerId
  have drawn := hm.withProvider ((hm.registry _ _ hp).2.draw play.taken)
  refine drawn.withForum ?_ (c := play.conversation) ?_ fun id c hc => ?_
  · show (if play.conversation.isActive then m.arena.insert play.conversation
      else m.arena).Sound
    split
    · rename_i hactive
      exact hm.arena.insert hactive
    · exact hm.arena
  · rw [contains_withProvider, hprovider]
    exact Dict.contains_of_get? hp
  · replace hc : (if play.conversation.isActive then m.arena.insert play.conversation
      else m.arena).get? id = some c := hc
    split at hc
    · exact Arena.get?_insert_cases hc
    · exact .inr hc

/-- A turn leaves the id, the player and the provider of its conversation alone. -/
theorem Sound.turned (hm : m.Sound f) {id : String} {c : Conversation} {p : Provider}
    {ps : Participants} {play : Play} {r : Response} (hc : m.arena.get? id = some c)
    (hp : m.providers.get? p.id = some p)
    (hplayed : (Play.ofConversation (c.touch m.now) ps p.taken).Played f m.now play r) :
    (m.settle (p.turned m.forum ps play r)).manager.Sound f := by
  have hid : play.conversation.id = c.id := hplayed.continues.id
  have hprovider : play.conversation.providerId = c.providerId := hplayed.continues.providerId
  have hplayer : play.conversation.playerId = c.playerId := hplayed.continues.playerId
  have drawn := hm.withProvider ((hm.registry _ _ hp).2.draw play.taken)
  have present : m.arena.contains play.conversation.id = true := by
    rw [hid, hm.arena.id_eq hc]
    exact Arena.contains_of_get? hc
  refine drawn.withForum (hm.arena.settle hc hid hplayer) (c := play.conversation) ?_
    fun _ _ hc' => Arena.get?_settle_cases present hc'
  rw [contains_withProvider, hprovider]
  exact hm.registered id c hc

theorem Sound.step {events : List Event} (hm : m.Sound f) (h : Step f m m' events) :
    m'.Sound f := by
  cases h with
  | aside now _ hproviders hforum =>
    have harena : m'.arena = m.arena := by rw [Manager.arena, hforum]; rfl
    refine ⟨harena ▸ hm.arena, ?_, hproviders ▸ hm.registry⟩
    rw [harena, hproviders]
    exact hm.registered
  | registered p hp _ _ =>
    refine ⟨hm.arena, fun id c hc => ?_, hm.registry.insert hp⟩
    show (m.providers.insert p.id p).contains c.providerId = true
    rw [Dict.contains_insert, hm.registered id c hc, Bool.or_true]
  | edited hp e => exact hm.withProvider ((hm.registry _ _ hp).2.edit e)
  | dropped providerId hunused _ =>
    refine ⟨hm.arena, fun id c hc => ?_, hm.registry.erase providerId⟩
    show (m.providers.erase providerId).contains c.providerId = true
    rw [Dict.contains_eq_isSome, Dict.get?_erase, if_neg (Ne.symm (hunused id c hc))]
    exact hm.registered id c hc
  | ended _ _ => exact hm.without _
  | opened _ hp _ hplayed => exact hm.opened hp hplayed
  | turned hc _ hp hplayed => exact hm.turned hc hp hplayed
  | @switched id providerId c p hc hp =>
    have hactive : c.isActive = true := hm.arena.isActive hc
    exact hm.withForum (c := { c with providerId }) (hm.arena.update hc rfl rfl hactive)
      (Dict.contains_of_get? hp) fun _ _ hc' => Arena.get?_update_cases hc'

theorem Sound.steps {events : List Event} (hm : m.Sound f) (h : Steps f m m' events) :
    m'.Sound f := by
  induction h with
  | refl => exact hm
  | head hstep _ ih => exact ih (hm.step hstep)

/-! ### The calls that deal with conversations -/

theorem finishAll_endEvents (hm : m.Sound f) (reason : EndReason) {ids : List String}
    (hids : ids.Nodup) :
    (m.arena.finishAll reason m.now ids).2.2 = m.endEvents reason ids :=
  Arena.finishAll_events hm.arena reason m.now hids

theorem nodup_idle (hm : m.Sound f) (playerId : String) :
    ((m.idle playerId).map Conversation.id).Nodup :=
  (List.filter_sublist.map _).nodup (hm.arena.nodup_ofPlayer playerId)

theorem expirePlayer_endEvents (hm : m.Sound f) (playerId : String) :
    (m.expirePlayer playerId).2 =
      m.endEvents .timeout ((m.idle playerId).map Conversation.id) := by
  rw [← finishAll_endEvents hm _ (nodup_idle hm playerId)]
  rfl

theorem expirePlayer_step (hm : m.Sound f) (playerId : String) :
    Step f m (m.afterExpiry playerId) (m.expirePlayer playerId).2 := by
  rw [expirePlayer_endEvents hm]
  exact .ended _ (nodup_idle hm playerId)

theorem Started.steps (hm : m.Sound f) {ps : Participants} {providerId : Option String}
    {reply : Reply Answer} (h : m.Started f ps providerId reply) :
    Steps f m reply.manager reply.events := by
  cases h with
  | overQuota | unresolved | treeless => exact .refl m
  | opened hquota hresolve htree hplayed =>
    obtain ⟨registered, hp⟩ := resolve_mem hresolve
    obtain ⟨rfl, -⟩ := hm.registry _ _ hp
    exact (Step.opened hquota hp htree hplayed).steps

theorem start_steps (hm : m.Sound f) (ps : Participants) (providerId : Option String) :
    Steps f m (m.start ps providerId).manager (m.start ps providerId).events := by
  obtain ⟨reply, hstarted, hstart⟩ := start_cases hm ps providerId
  rw [hstart]
  exact (expirePlayer_step hm ps.player.id).steps.trans
    (hstarted.steps (hm.afterExpiry ps.player.id))

/-- The step that ends one conversation. -/
theorem remove_step {id : String} {c : Conversation} (hc : m.arena.get? id = some c)
    (reason : EndReason) :
    Step f m (m.withArena (m.arena.remove id)) [c.endEvent reason m.now] := by
  have ended : Step f m (m.withArena (m.arena.without [id])) (m.endEvents reason [id]) :=
    .ended reason (by simp)
  rw [← Arena.without_remove, Arena.without_nil] at ended
  have events : m.endEvents reason [id] = [c.endEvent reason m.now] := by
    rw [endEvents, List.filterMap_cons_some (by rw [hc]; rfl), List.filterMap_nil]
  rwa [events] at ended

theorem Advanced.steps (hm : m.Sound f) {ps : Participants} {id : String}
    {reply : Reply Answer} (h : m.Advanced f ps id reply) :
    Steps f m reply.manager reply.events := by
  cases h with
  | absent | stranger | treeless | nodeless => exact .refl m
  | lapsed hc => exact (remove_step hc .timeout).steps
  | turned hc howner _ hp _ _ hplayed =>
    obtain ⟨hid, -⟩ := hm.registry _ _ hp
    exact (Step.turned hc howner (hid ▸ hp) hplayed).steps

theorem advance_steps (hm : m.Sound f) (ps : Participants) (id input : String) :
    Steps f m (m.advance ps id input).manager (m.advance ps id input).events :=
  (advance_cases hm ps id input).steps hm

theorem finish_steps (hm : m.Sound f) (id : String) :
    Steps f m (m.finish id).manager (m.finish id).events := by
  cases hc : m.arena.get? id with
  | none =>
    rw [finish_absent hc]
    exact .refl m
  | some c =>
    rw [finish_held hm hc]
    exact (remove_step hc .explicit).steps

theorem Switched.steps {id providerId : String}
    {reply : Reply (Except DialogueError Conversation)} (h : m.Switched id providerId reply) :
    Steps f m reply.manager reply.events := by
  cases h with
  | refused | same => exact .refl m
  | moved hc hp => exact (Step.switched hc hp).steps

theorem switchProvider_steps (m : Manager) (id providerId : String) :
    Steps f m (m.switchProvider id providerId).manager
      (m.switchProvider id providerId).events :=
  (switchProvider_cases m id providerId).steps

theorem cleanup_endEvents (hm : m.Sound f) :
    m.cleanup.events = m.endEvents .timeout (m.arena.staleIds m.now m.timeout) := by
  rw [cleanup_events]
  exact finishAll_endEvents hm _ (Dict.nodup_keys _)

theorem cleanup_steps (hm : m.Sound f) : Steps f m m.cleanup.manager m.cleanup.events := by
  rw [cleanup_manager, cleanup_endEvents hm]
  exact (Step.ended .timeout (Dict.nodup_keys _)).steps

/-- The conversations of a provider end, and then it goes. -/
theorem unregister_steps (hm : m.Sound f) (providerId : String) :
    Steps f m (m.unregister providerId).manager (m.unregister providerId).events := by
  cases hcontains : m.providers.contains providerId with
  | false =>
    rw [unregister_absent hcontains]
    exact .refl m
  | true =>
    have hids : (m.arena.idsOfProvider providerId).Nodup := Dict.nodup_keys _
    obtain ⟨hmanager, hevents⟩ := unregister_held hcontains
    rw [hmanager, hevents, finishAll_endEvents hm _ hids, ← List.append_nil (endEvents _ _ _)]
    refine .head (.ended .providerUnregistered hids) (Step.steps (.dropped providerId ?_ _))
    -- Those that were switched away stay, and those switched to it have ended.
    intro id c hc heq
    obtain ⟨hnot, hbefore⟩ := Arena.get?_without_cases hc
    exact hnot (Arena.mem_idsOfProvider.mpr ⟨c, hbefore, heq⟩)

/-! ### The other calls -/

theorem register_steps {p : Provider} (hp : p.Fit f) (h : m.register p = .ok m') :
    Steps f m m' [] := by
  rw [register] at h
  split at h
  · exact absurd h (by simp)
  · rename_i hnew
    obtain rfl := Except.ok.inj h
    exact (Step.registered p hp (by simpa using hnew) _).steps

theorem setDefault_steps {providerId : String} (h : m.setDefault providerId = .ok m') :
    Steps f m m' [] := by
  rw [setDefault] at h
  split at h
  · obtain rfl := Except.ok.inj h
    exact .aside m.now rfl rfl rfl
  · exact absurd h (by simp)

theorem atTime_steps (m : Manager) (now : Instant) : Steps f m (m.atTime now) [] :=
  .aside now rfl rfl rfl

theorem startMaintenance_steps (m : Manager) : Steps f m m.startMaintenance [] :=
  .aside m.now rfl rfl rfl

theorem autosave_steps {count : Nat} (h : m.autosave = .ok (m', count)) : Steps f m m' [] := by
  obtain ⟨store, rfl⟩ := autosave_frame h
  exact .aside m.now rfl rfl rfl

theorem shutdown_steps (m : Manager) : Steps f m m.shutdown.1 [] := by
  have stopped : Steps f m { m with maintenance := none } [] :=
    .aside m.now rfl rfl rfl
  rw [shutdown]
  split
  · rename_i hsave
    exact stopped.trans (autosave_steps hsave)
  · exact stopped

theorem maintain_steps (hm : m.Sound f) : Steps f m m.maintain.1 m.maintain.2 := by
  have cleaned := cleanup_steps hm
  rw [maintain]
  split
  · rename_i hsave
    have := cleaned.trans (autosave_steps hsave)
    rwa [List.append_nil] at this
  · exact cleaned

theorem tick_steps (hm : m.Sound f) (seconds : Nat) :
    Steps f m (m.tick seconds).1 (m.tick seconds).2 := by
  rw [tick]
  split
  · exact .refl m
  · split
    · exact .aside m.now rfl rfl rfl
    · have waiting : Steps f m.maintain.1 { m.maintain.1 with maintenance := some 0 } [] :=
        .aside m.maintain.1.now rfl rfl rfl
      have := (maintain_steps hm).trans waiting
      rwa [List.append_nil] at this

/-- Edit a provider, if it is registered. -/
def editProvider (m : Manager) (providerId : String) (e : Provider.Edit) : Manager :=
  match m.providers.get? providerId with
  | some p => m.withProvider (p.edit e)
  | none => m

theorem editProvider_steps (hm : m.Sound f) (providerId : String) (e : Provider.Edit) :
    Steps f m (m.editProvider providerId e) [] := by
  rw [editProvider]
  cases hp : m.providers.get? providerId with
  | none => exact .refl m
  | some p =>
    obtain ⟨rfl, -⟩ := hm.registry _ _ hp
    exact (Step.edited hp e).steps

end Manager

end Parley
