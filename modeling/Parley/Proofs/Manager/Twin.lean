/-
Managers that no answer tells apart.

A manager answers by its configuration, its forum and what its providers hold.  Two managers
are a `Manager.Twin` of each other if they agree in that; the names of their providers, their
default, their store and their maintenance may differ:

* `Provider.Matches.start`, `Provider.Matches.advance` — providers that hold the same do the
  same;
* `Manager.Twin.serve` — a request is answered alike by twins, announces the same and leaves
  twins, unless it leaves the choice of a provider to the manager;
* `Manager.Twin.serveAll` — and so are requests in turn.
-/
import Parley.Proofs.Manager.Requests

namespace Parley

/-! ### Providers -/

/-- The providers have the same id, hold the same, and will draw the same samples. -/
structure Provider.Matches (p p' : Provider) : Prop where
  id : p'.id = p.id
  trees : p'.trees = p.trees
  npcTrees : p'.npcTrees = p.npcTrees
  hook : p'.hook = p.hook
  sample : p'.sample = p.sample
  taken : p'.taken = p.taken

/-- The outcomes are the same but for the name of the provider. -/
structure Outcome.Matches {α : Type} (o o' : Outcome α) : Prop where
  provider : o.provider.Matches o'.provider
  rest : o' = { o with provider := o'.provider }

namespace Provider

variable {p p' : Provider}

theorem Matches.refl (p : Provider) : p.Matches p := ⟨rfl, rfl, rfl, rfl, rfl, rfl⟩

theorem Matches.eq_named (h : p.Matches p') : p' = { p with name := p'.name } := by
  obtain ⟨id, name, trees, npcTrees, hook, sample, taken⟩ := p'
  obtain ⟨rfl, rfl, rfl, rfl, rfl, rfl⟩ := h
  rfl

theorem matches_named (p : Provider) (name : String) : p.Matches { p with name } :=
  ⟨rfl, rfl, rfl, rfl, rfl, rfl⟩

theorem Matches.refuse {α : Type} (h : p.Matches p') (f : Forum) (ps : Participants)
    (e : DialogueError) : (p.refuse (α := α) f ps e).Matches (p'.refuse f ps e) :=
  ⟨h, rfl⟩

theorem Matches.start (h : p.Matches p') (f : Forum) (ps : Participants) :
    (p.start f ps).Matches (p'.start f ps) := by
  -- The name is the only difference, and no rule of a turn reads it.
  rw [h.eq_named]
  generalize p'.name = name
  have named := p.matches_named name
  rw [Provider.start, Provider.start,
    show ({ p with name } : Provider).treeOf ps.npc.id = p.treeOf ps.npc.id from rfl]
  cases p.treeOf ps.npc.id with
  | error e => exact named.refuse f ps e
  | ok tree =>
    rw [show ({ p with name } : Provider).rules f.now = p.rules f.now from rfl]
    dsimp only
    rcases Turn.begin _ _ with ⟨play, e | response⟩
    · exact ⟨⟨rfl, rfl, rfl, rfl, rfl, rfl⟩, rfl⟩
    · exact ⟨⟨rfl, rfl, rfl, rfl, rfl, rfl⟩, rfl⟩

theorem Matches.runTurn (h : p.Matches p') (f : Forum) (ps : Participants) (tree : Tree)
    (c : Conversation) (input : String) :
    (p.runTurn f ps tree c input).Matches (p'.runTurn f ps tree c input) := by
  rw [h.eq_named]
  generalize p'.name = name
  rw [Provider.runTurn, Provider.runTurn]
  rw [show ({ p with name } : Provider).rules f.now = p.rules f.now from rfl]
  dsimp only
  rcases Turn.advance _ _ _ with ⟨play, e | response⟩
  · exact ⟨⟨rfl, rfl, rfl, rfl, rfl, rfl⟩, rfl⟩
  · exact ⟨⟨rfl, rfl, rfl, rfl, rfl, rfl⟩, rfl⟩

theorem Matches.advance (h : p.Matches p') (f : Forum) (ps : Participants) (id input : String) :
    (p.advance f ps id input).Matches (p'.advance f ps id input) := by
  rw [Provider.advance, Provider.advance]
  split
  · exact h.refuse f ps _
  · rw [h.id, h.trees]
    split
    · exact h.refuse f ps _
    · split
      · exact h.refuse f ps _
      · split
        · exact ⟨h, rfl⟩
        · split
          · exact h.refuse f ps _
          · split
            · exact h.refuse f ps _
            · exact h.runTurn f ps _ _ input

theorem Matches.finish (h : p.Matches p') (f : Forum) (id : String) :
    p'.finish f id = p.finish f id := by
  rw [Provider.finish, Provider.finish, conversation?, conversation?, h.id]

theorem Matches.canHandle (h : p.Matches p') (npcId : String) :
    p'.canHandle npcId = p.canHandle npcId := by
  rw [Provider.canHandle, Provider.canHandle, h.npcTrees]

end Provider

/-! ### Managers -/

/-- The managers agree in everything that an answer is made of. -/
structure Manager.Twin (m m' : Manager) : Prop where
  config : m'.config = m.config
  forum : m'.forum = m.forum
  providers : ∀ providerId,
    Option.Rel Provider.Matches (m.providers.get? providerId) (m'.providers.get? providerId)

/-- The same answer, from managers that are twins afterwards. -/
structure Reply.Twin {α : Type} (reply reply' : Reply α) : Prop where
  manager : reply.manager.Twin reply'.manager
  events : reply'.events = reply.events
  calls : reply'.calls = reply.calls
  result : reply'.result = reply.result

/-- The request does not leave the choice of a provider to the manager. -/
def Request.isExplicit : Request → Bool
  | .start _ providerId => providerId.isSome
  | _ => true

namespace Manager

variable {m m' : Manager}

namespace Twin

theorem refl (m : Manager) : m.Twin m := by
  refine ⟨rfl, rfl, fun providerId => ?_⟩
  cases m.providers.get? providerId with
  | none => exact .none
  | some p => exact .some (.refl p)

/-- Both have no provider of this id, or both have one, which hold the same. -/
theorem provider (h : m.Twin m') (providerId : String) :
    (m.providers.get? providerId = none ∧ m'.providers.get? providerId = none) ∨
      ∃ p p', m.providers.get? providerId = some p ∧ m'.providers.get? providerId = some p' ∧
        p.Matches p' := by
  have related := h.providers providerId
  generalize m.providers.get? providerId = found at related
  generalize m'.providers.get? providerId = found' at related
  cases related with
  | none => exact .inl ⟨rfl, rfl⟩
  | some hp => exact .inr ⟨_, _, rfl, rfl, hp⟩

theorem contains_eq (h : m.Twin m') (providerId : String) :
    m'.providers.contains providerId = m.providers.contains providerId := by
  rw [Dict.contains_eq_isSome, Dict.contains_eq_isSome]
  rcases h.provider providerId with ⟨hnone, hnone'⟩ | ⟨_, _, hsome, hsome', -⟩
  · rw [hnone, hnone']
  · rw [hsome, hsome']
    rfl

theorem arena (h : m.Twin m') : m'.arena = m.arena := congrArg Forum.arena h.forum

theorem withForum (h : m.Twin m') (forum : Forum) :
    Twin { m with forum } { m' with forum } :=
  ⟨h.config, rfl, h.providers⟩

theorem withArena (h : m.Twin m') (arena : Arena) :
    (m.withArena arena).Twin (m'.withArena arena) := by
  rw [Manager.withArena, Manager.withArena, h.forum]
  exact h.withForum _

theorem atTime (h : m.Twin m') (now : Instant) : (m.atTime now).Twin (m'.atTime now) := by
  rw [Manager.atTime, Manager.atTime, h.forum]
  exact h.withForum _

theorem withProvider (h : m.Twin m') {p p' : Provider} (hp : p.Matches p') :
    (m.withProvider p).Twin (m'.withProvider p') := by
  refine ⟨h.config, h.forum, fun providerId => ?_⟩
  show Option.Rel _ ((m.providers.modify p.id fun _ => p).get? providerId)
    ((m'.providers.modify p'.id fun _ => p').get? providerId)
  rw [Dict.get?_modify, Dict.get?_modify, hp.id]
  -- A provider is put back only where one is registered, which it is in both or in neither.
  split
  · rcases h.provider providerId with ⟨hnone, hnone'⟩ | ⟨_, _, hsome, hsome', -⟩
    · rw [hnone, hnone']
      exact .none
    · rw [hsome, hsome']
      exact .some hp
  · exact h.providers providerId

theorem settle (h : m.Twin m') {o o' : Outcome Response} (ho : o.Matches o') :
    (m.settle o).Twin (m'.settle o') := by
  rw [ho.rest]
  exact ⟨(h.withProvider ho.provider).withForum o.forum, rfl, rfl, rfl⟩

theorem refuse (h : m.Twin m') (ps : Participants) (e : DialogueError) :
    (m.refuse ps e).Twin (m'.refuse ps e) :=
  ⟨h, rfl, rfl, rfl⟩

theorem expirePlayer (h : m.Twin m') (playerId : String) :
    (m.expirePlayer playerId).1.Twin (m'.expirePlayer playerId).1 ∧
      (m'.expirePlayer playerId).2 = (m.expirePlayer playerId).2 := by
  rw [Manager.expirePlayer, Manager.expirePlayer, h.arena, Manager.now, Manager.now,
    Manager.timeout, Manager.timeout, h.forum]
  exact ⟨h.withArena _, rfl⟩

end Twin

end Manager

theorem Reply.Twin.dropCompleted {reply reply' : Reply Answer} (h : reply.Twin reply')
    (id : String) : (Manager.dropCompleted id reply).Twin (Manager.dropCompleted id reply') := by
  obtain ⟨m, events, calls, result⟩ := reply
  obtain ⟨m', _, _, _⟩ := reply'
  obtain ⟨twins, rfl, rfl, rfl⟩ := h
  rw [Manager.dropCompleted, Manager.dropCompleted, twins.arena]
  dsimp only
  split
  · split
    · exact ⟨twins.withArena _, rfl, rfl, rfl⟩
    · exact ⟨twins, rfl, rfl, rfl⟩
  · exact ⟨twins, rfl, rfl, rfl⟩

/-! ### Calls -/

namespace Manager

variable {m m' : Manager}

namespace Twin

theorem start (h : m.Twin m') (ps : Participants) (providerId : String) :
    (m.start ps (some providerId)).Twin (m'.start ps (some providerId)) := by
  obtain ⟨expired, events⟩ := h.expirePlayer ps.player.id
  rw [Manager.start, Manager.start]
  generalize m.expirePlayer ps.player.id = before at expired events
  generalize m'.expirePlayer ps.player.id = before' at expired events
  obtain ⟨m, ended⟩ := before
  obtain ⟨m', ended'⟩ := before'
  dsimp only at expired events ⊢
  rw [events, expired.config, expired.arena, expired.forum, resolve, resolve]
  -- The idle conversations are ended and announced before anything is refused.
  have announced {reply reply' : Reply Answer} (h : reply.Twin reply') :
      Reply.Twin { reply with events := ended ++ reply.events }
        { reply' with events := ended ++ reply'.events } := by
    obtain ⟨manager, events, calls, result⟩ := h
    exact ⟨manager, congrArg (ended ++ ·) events, calls, result⟩
  split
  · exact announced (expired.refuse ps _)
  · rcases expired.provider providerId with ⟨hnone, hnone'⟩ | ⟨p, p', hp, hp', same⟩
    · rw [hnone, hnone']
      exact announced (expired.refuse ps _)
    · rw [hp, hp']
      exact announced (expired.settle (same.start m.forum ps))

theorem advance (h : m.Twin m') (ps : Participants) (id input : String) :
    (m.advance ps id input).Twin (m'.advance ps id input) := by
  rw [Manager.advance, Manager.advance, h.arena, Manager.now, Manager.now, Manager.timeout,
    Manager.timeout, h.forum]
  split
  · exact h.refuse ps _
  · rename_i c _
    split
    · exact h.refuse ps _
    · split
      · exact ⟨h.withArena _, rfl, rfl, rfl⟩
      · rcases h.provider c.providerId with ⟨hnone, hnone'⟩ | ⟨p, p', hp, hp', same⟩
        · rw [hnone, hnone']
          exact h.refuse ps _
        · rw [hp, hp']
          exact (h.settle (same.advance m.forum ps id input)).dropCompleted id

theorem finish (h : m.Twin m') (id : String) : (m.finish id).Twin (m'.finish id) := by
  rw [Manager.finish, Manager.finish, h.arena]
  split
  · exact ⟨h, rfl, rfl, rfl⟩
  · rename_i c _
    rcases h.provider c.providerId with ⟨hnone, hnone'⟩ | ⟨p, p', hp, hp', same⟩
    · rw [hnone, hnone', Manager.now, Manager.now, h.forum]
      exact ⟨h.withArena _, rfl, rfl, rfl⟩
    · rw [hp, hp', h.forum]
      dsimp only
      rw [same.finish]
      exact ⟨h.withForum _, rfl, rfl, rfl⟩

theorem switchProvider (h : m.Twin m') (id providerId : String) :
    (m.switchProvider id providerId).Twin (m'.switchProvider id providerId) := by
  rw [Manager.switchProvider, Manager.switchProvider, h.arena, Manager.now, Manager.now, h.forum]
  rcases h.provider providerId with ⟨hnone, hnone'⟩ | ⟨p, p', hp, hp', same⟩
  · rw [hnone, hnone']
    exact ⟨h, rfl, rfl, rfl⟩
  · rw [hp, hp']
    dsimp only
    split
    · exact ⟨h, rfl, rfl, rfl⟩
    · rw [same.canHandle]
      split
      · exact ⟨h, rfl, rfl, rfl⟩
      · split
        · exact ⟨h, rfl, rfl, rfl⟩
        · exact ⟨h.withArena _, rfl, rfl, rfl⟩

theorem cleanup (h : m.Twin m') : m.cleanup.Twin m'.cleanup := by
  rw [Manager.cleanup, Manager.cleanup, h.arena, Manager.now, Manager.now, Manager.timeout,
    Manager.timeout, h.forum]
  exact ⟨h.withArena _, rfl, rfl, rfl⟩

/-- A request with a provider of its own choice is answered alike by twins. -/
theorem serve (h : m.Twin m') {request : Request} (hexplicit : request.isExplicit = true) :
    (m.serve request).Twin (m'.serve request) := by
  have map {α β : Type} {reply reply' : Reply α} (h : reply.Twin reply') (g : α → β) :
      (reply.map g).Twin (reply'.map g) :=
    ⟨h.manager, h.events, h.calls, congrArg g h.result⟩
  cases request with
  | start ps providerId =>
    obtain ⟨providerId, rfl⟩ := Option.isSome_iff_exists.mp hexplicit
    exact map (h.start ps providerId) _
  | advance ps id input => exact map (h.advance ps id input) _
  | finish id => exact map (h.finish id) _
  | switchProvider id providerId => exact map (h.switchProvider id providerId) _
  | conversationsOf playerId =>
    refine ⟨h, rfl, rfl, congrArg Reaction.listed ?_⟩
    rw [conversationsOf, conversationsOf, h.arena]
  | cleanup => exact map h.cleanup _

theorem served (h : m.Twin m') {request : Request} (hexplicit : request.isExplicit = true) :
    m'.served request = m.served request := by
  have same := h.serve hexplicit
  rw [Manager.served, Manager.served, same.result, same.events]

/-- Twins give the same transcript of requests, and are twins after them. -/
theorem serveAll (h : m.Twin m') {requests : List (Instant × Request)}
    (hexplicit : ∀ timed ∈ requests, timed.2.isExplicit = true) :
    (m.serveAll requests).1.Twin (m'.serveAll requests).1 ∧
      (m'.serveAll requests).2 = (m.serveAll requests).2 := by
  -- By induction on the requests: each leaves twins, and so does setting their clocks.
  induction requests generalizing m m' with
  | nil => exact ⟨h, rfl⟩
  | cons timed rest ih =>
    obtain ⟨now, request⟩ := timed
    have explicit : request.isExplicit = true := hexplicit _ List.mem_cons_self
    have timely := h.atTime now
    obtain ⟨twins, others⟩ := ih (timely.serve explicit).manager fun timed htimed =>
      hexplicit timed (List.mem_cons_of_mem _ htimed)
    rw [Manager.serveAll, Manager.serveAll]
    refine ⟨twins, ?_⟩
    show _ :: _ = _ :: _
    rw [others, timely.served explicit]

end Twin

end Manager

end Parley
