/-
What a turn does to a conversation.

* `Turn.advance_cases` — one line of input goes on to a target, takes an open
  choice, or shows the node again;
* `Turn.begin_played`, `Turn.advance_played` — on a valid tree a turn succeeds, and
  what it leaves is a `Played`: the conversation is the same one, what was announced
  belongs to it, its end comes last if it ended, and the response shows it.

Design notes: a turn does the same things in several orders, so the parts have one
lemma each, and `Play.Goes` carries what they share up to the point where the
conversation ends or the node is shown.
-/
import Parley.Proofs.Arena
import Parley.Proofs.Execution
import Parley.Proofs.Tree

namespace Parley

variable {α : Type}

/-- The same conversation, as far as a turn may not touch it. -/
structure Conversation.Continues (c c' : Conversation) : Prop where
  id : c'.id = c.id
  playerId : c'.playerId = c.playerId
  npcId : c'.npcId = c.npcId
  providerId : c'.providerId = c.providerId
  treeId : c'.treeId = c.treeId
  startedAt : c'.startedAt = c.startedAt
  lastActivity : c'.lastActivity = c.lastActivity
  turnCount : c'.turnCount = c.turnCount

theorem Conversation.Continues.refl (c : Conversation) : c.Continues c :=
  ⟨rfl, rfl, rfl, rfl, rfl, rfl, rfl, rfl⟩

theorem Conversation.Continues.trans {c c' c'' : Conversation} (h : c.Continues c')
    (h' : c'.Continues c'') : c.Continues c'' :=
  ⟨h'.id.trans h.id, h'.playerId.trans h.playerId, h'.npcId.trans h.npcId,
    h'.providerId.trans h.providerId, h'.treeId.trans h.treeId, h'.startedAt.trans h.startedAt,
    h'.lastActivity.trans h.lastActivity, h'.turnCount.trans h.turnCount⟩

/-- Who a conversation is recorded for. -/
def Conversation.ids (c : Conversation) : Context.Ids :=
  { conversation := c.id, player := c.playerId, npc := c.npcId }

theorem Conversation.Continues.ids {c c' : Conversation} (h : c.Continues c') : c'.ids = c.ids := by
  rw [Conversation.ids, Conversation.ids, h.id, h.playerId, h.npcId]

/-- What a turn has to announce at its end. -/
def Conversation.closing (c : Conversation) (now : Instant) : List Event :=
  if c.isActive then [] else [c.endEvent .completed now]

theorem Conversation.closing_active {c : Conversation} (h : c.isActive = true) (now : Instant) :
    c.closing now = [] := by
  rw [closing, if_pos h]

theorem Play.conclude_active {p : Play} (h : p.conversation.isActive = true) (now : Instant) :
    p.conclude now = { p with
      conversation := p.conversation.ended .completed
      events := p.events ++ [p.conversation.endEvent .completed now] } := by
  rw [conclude, Conversation.conclude_active h]

/-- What has ended before does not end again. -/
theorem Play.conclude_ended {p : Play} (h : p.conversation.isActive = false) (now : Instant) :
    p.conclude now = p := by
  have ended : p.conversation.finish? .completed = none := by
    rw [Conversation.finish?, h]
    rfl
  rw [conclude, Conversation.conclude, ended]
  simp only [List.append_nil]

/-- An end is all that is announced when a conversation ends. -/
theorem Play.conclude_events (p : Play) (now : Instant) :
    ∃ told, (p.conclude now).events = p.events ++ told ∧
      ∀ e ∈ told, e.occurrence = .conversationEnded .completed := by
  cases h : p.conversation.isActive with
  | true =>
    rw [conclude_active h]
    exact ⟨_, rfl, List.forall_mem_singleton.mpr rfl⟩
  | false =>
    rw [conclude_ended h]
    exact ⟨[], (List.append_nil _).symm, List.forall_mem_nil _⟩

/-- A response tells of a conversation as it is kept. -/
structure Response.Shows (r : Response) (c : Conversation) : Prop where
  conversationId : r.conversationId = c.id
  state : r.state = c
  vars : r.vars = c.vars
  isComplete : r.isComplete = !c.isActive
  choices : r.isComplete = true → r.choices = none

/-- Everything but the start and the end of a conversation. -/
def Occurrence.isInner : Occurrence → Bool
  | conversationStarted .. | conversationEnded _ => false
  | _ => true

theorem Occurrence.isInner_of_isEffect {o : Occurrence} (h : o.isEffect = true) :
    o.isInner = true := by
  cases o <;> first | rfl | exact absurd h (by simp [isEffect])

/-- A turn under way: the conversation goes on, and only inner events were added. -/
structure Play.Goes (f : Context → α) (p p' : Play) : Prop where
  continues : p.conversation.Continues p'.conversation
  isActive : p'.conversation.isActive = p.conversation.isActive
  tells : p.toScene.Tells f Occurrence.isInner p'.toScene

namespace Play.Goes

variable {f : Context → α} {p p' p'' : Play}

theorem trans (h : Goes f p p') (h' : Goes f p' p'') : Goes f p p'' :=
  ⟨h.continues.trans h'.continues, h'.isActive.trans h.isActive, h.tells.trans h'.tells⟩

/-- Only the scene changed. -/
theorem ofScene {s : Scene} (h : p.toScene.Tells f Occurrence.isInner s) :
    Goes f p { p with toScene := s } :=
  ⟨.refl _, rfl, h⟩

theorem publish (p : Play) {o : Occurrence} (ho : o.isInner = true) : Goes f p (p.publish o) :=
  ofScene (Scene.publish_tells _ ho)

theorem moveTo {hook : Option Hook} (hf : Steady f hook) (p : Play) (nodeId : String) :
    Goes f p (p.moveTo nodeId) :=
  ⟨⟨rfl, rfl, rfl, rfl, rfl, rfl, rfl, rfl⟩, rfl, .silent (hf.currentNodeId _ _) rfl⟩

end Play.Goes

/-- A turn that was played from `p` to its end, and what it answered. -/
structure Play.Played (f : Context → α) (now : Instant) (p p' : Play) (r : Response) : Prop where
  continues : p.conversation.Continues p'.conversation
  ending : p'.conversation.isActive = false → p'.conversation.endReason = some .completed
  context : f p'.context = f p.context
  events : ∃ told, p'.events = p.events ++ told ++ p'.conversation.closing now ∧
    ∀ e ∈ told, ∃ ctx o, f ctx = f p.context ∧ o.isInner = true ∧ e = Event.ofContext ctx o
  shows : r.Shows p'.conversation

theorem Play.Goes.played {f : Context → α} {now : Instant} {p p' p'' : Play} {r : Response}
    (h : p.Goes f p') (h' : p'.Played f now p'' r) : p.Played f now p'' r := by
  obtain ⟨told, hevents, htold⟩ := h.tells.events
  obtain ⟨told', hevents', htold'⟩ := h'.events
  refine ⟨h.continues.trans h'.continues, h'.ending, h'.context.trans h.tells.context,
    ⟨told ++ told', ?_, ?_⟩, h'.shows⟩
  · rw [hevents', hevents, List.append_assoc p.events]
  · intro e he
    rcases List.mem_append.mp he with he | he
    · exact htold e he
    · obtain ⟨ctx, o, hctx, ho, rfl⟩ := htold' e he
      exact ⟨ctx, o, hctx.trans h.tells.context, ho, rfl⟩

namespace Turn

variable {f : Context → α} {t : Turn} {p : Play}

/-! ### The parts of a turn -/

theorem enter_goes (hf : Steady f t.rules.hook) (p : Play) (nodeId : String) (n : Node) :
    p.Goes f (t.enter p nodeId n) := by
  have effects (s : Scene) :
      s.Tells f Occurrence.isInner (executeAll t.rules (s.setVariables n.vars) n.actions).2 :=
    ((Scene.setVariables_tells hf s n.vars).trans (executeAll_tells hf _ n.actions)).mono
      fun _ => Occurrence.isInner_of_isEffect
  have arrived := Play.Goes.moveTo hf p nodeId
  rw [enter]
  simp only
  generalize evaluateAll t.rules (p.moveTo nodeId).context n.conditions
    (p.moveTo nodeId).taken = met
  have drawn : p.Goes f { p.moveTo nodeId with taken := met.2 } :=
    arrived.trans (.ofScene (.silent rfl rfl))
  split
  · exact (drawn.trans (.ofScene (effects _))).trans (.publish _ rfl)
  · exact drawn.trans (.publish _ rfl)

/-- Showing a node writes variables and flags back and announces nothing. -/
theorem respond_played (t : Turn) {now : Instant} {n : Node}
    (hactive : p.conversation.isActive = true) :
    p.Played f now (t.respond p n).1 (t.respond p n).2 := by
  have still : (t.respond p n).1.conversation.isActive = true := hactive
  have complete : (t.respond p n).2.isComplete = !(t.respond p n).1.conversation.isActive := rfl
  refine ⟨⟨rfl, rfl, rfl, rfl, rfl, rfl, rfl, rfl⟩, fun h => ?_, rfl, ⟨[], ?_, by simp⟩,
    ⟨rfl, rfl, rfl, complete, fun h => ?_⟩⟩
  · rw [still] at h
    exact absurd h (by simp)
  · rw [Conversation.closing_active still, List.append_nil, List.append_nil]
    rfl
  · rw [complete, still] at h
    exact absurd h (by simp)

/-- The end of a conversation that is going on, with the node where it ended shown. -/
theorem respond_conclude_played (t : Turn) {now : Instant} {n : Node}
    (hactive : p.conversation.isActive = true) :
    p.Played f now (t.respond (p.conclude now) n).1 (t.respond (p.conclude now) n).2 := by
  rw [Play.conclude_active hactive]
  exact ⟨⟨rfl, rfl, rfl, rfl, rfl, rfl, rfl, rfl⟩, fun _ => rfl, rfl,
    ⟨[], by rw [List.append_nil]; rfl, by simp⟩, ⟨rfl, rfl, rfl, rfl, fun _ => rfl⟩⟩

theorem farewell_played (t : Turn) (hactive : p.conversation.isActive = true) :
    p.Played f t.rules.now (t.farewell p).1 (t.farewell p).2 := by
  have still : p.sync.conversation.isActive = true := hactive
  rw [farewell, Play.conclude_active still]
  exact ⟨⟨rfl, rfl, rfl, rfl, rfl, rfl, rfl, rfl⟩, fun _ => rfl, rfl,
    ⟨[], by rw [List.append_nil]; rfl, by simp⟩, ⟨rfl, rfl, rfl, rfl, fun _ => rfl⟩⟩

/-! ### One line of input -/

theorem node_eq {nodeId : String} {n : Node} (hn : t.tree.node? nodeId = some n) :
    t.node nodeId = .ok n := by
  rw [node]
  rw [hn]

theorem mem_openChoices {ctx : Context} {choices : List Choice} {taken : Nat} {c : Choice}
    (h : c ∈ (t.openChoices ctx choices taken).1) : c ∈ choices := by
  induction choices generalizing taken with
  | nil => exact h
  | cons head rest ih =>
    rw [openChoices] at h
    simp only at h
    split at h
    · rcases List.mem_cons.mp h with rfl | h
      · exact List.mem_cons_self
      · exact List.mem_cons_of_mem _ (ih h)
    · exact List.mem_cons_of_mem _ (ih h)

theorem selectChoice_mem {policy : NumericSelection} {input : String} {choices : List Choice}
    {c : Choice} (h : selectChoice policy input choices = some c) : c ∈ choices := by
  rw [selectChoice.eq_def] at h
  simp only at h
  split at h
  · rw [selectNumber.eq_def] at h
    split at h
    · split at h
      · exact List.mem_of_getElem? h
      · exact absurd h (by simp)
    · exact List.mem_of_find?_eq_some h
  · exact List.mem_of_find?_eq_some h

/-- What a line of input leads to at a node, the samples for its choices being drawn. -/
theorem advance_cases {n : Node} (hn : t.tree.node? p.conversation.currentNodeId = some n)
    (input : String) :
    let opened := t.openChoices p.context n.choices p.taken
    let p' : Play := { p with taken := opened.2 }
    (opened.1 = [] ∧ t.advance p input = t.proceed p' n.nextNodeId input) ∨
    (∃ c, selectChoice t.settings.numericSelection input opened.1 = some c ∧
      t.advance p input = t.take p' n c input) ∨
    (opened.1 ≠ [] ∧ selectChoice t.settings.numericSelection input opened.1 = none ∧
      t.advance p input = ((t.askAgain p' n).1, .ok (t.askAgain p' n).2)) := by
  intro opened p'
  rw [advance]
  simp only [node_eq hn]
  by_cases hempty : opened.1 = []
  · refine .inl ⟨hempty, ?_⟩
    rw [if_pos (List.isEmpty_iff.mpr hempty)]
  · rw [if_neg fun h => hempty (List.isEmpty_iff.mp h)]
    cases hselect : selectChoice t.settings.numericSelection input opened.1 with
    | some c => exact .inr (.inl ⟨c, rfl, rfl⟩)
    | none => exact .inr (.inr ⟨hempty, rfl, rfl⟩)

/-- Going on to a target that names a node or is none. -/
theorem proceed_played (hf : Steady f t.rules.hook) {target : Option String}
    (htarget : t.tree.Leads target) (hactive : p.conversation.isActive = true)
    (input : String) :
    ∃ p' r, t.proceed p target input = (p', .ok r) ∧ p.Played f t.rules.now p' r := by
  -- The node is looked up after actions have run, but a valid tree always has it.
  rw [proceed]
  cases hfilter : target.filter (!·.isEmpty) with
  | none => exact ⟨_, _, rfl, farewell_played t hactive⟩
  | some nodeId =>
    obtain ⟨n, hn⟩ := htarget nodeId hfilter
    have entered := enter_goes hf p nodeId n
    have hentered := entered.isActive.trans hactive
    simp only [node_eq hn]
    split
    · exact ⟨_, _, rfl, entered.played (respond_conclude_played t hentered)⟩
    · have published : p.Goes f ((t.enter p nodeId n).publish (.conversationContinued nodeId input)) :=
        entered.trans (.publish _ rfl)
      exact ⟨_, _, rfl, published.played (respond_played t (published.isActive.trans hactive))⟩

theorem take_played (hf : Steady f t.rules.hook) {n : Node} {c : Choice}
    (htarget : t.tree.Leads (c.nextNodeId <|> n.nextNodeId))
    (hactive : p.conversation.isActive = true) (input : String) :
    ∃ p' r, t.take p n c input = (p', .ok r) ∧ p.Played f t.rules.now p' r := by
  have chosen : p.Goes f
      ({ p with toScene := (executeAll t.rules p.toScene c.actions).2 }.publish
        (.choiceMade n.id c.id)) :=
    .trans (.ofScene ((executeAll_tells hf _ c.actions).mono
      fun _ => Occurrence.isInner_of_isEffect)) (.publish _ rfl)
  obtain ⟨p', r, hproceed, hplayed⟩ :=
    proceed_played hf htarget (chosen.isActive.trans hactive) input
  exact ⟨p', r, hproceed, chosen.played hplayed⟩

theorem askAgain_played (t : Turn) {n : Node} (hactive : p.conversation.isActive = true) :
    p.Played f t.rules.now (t.askAgain p n).1 (t.askAgain p n).2 := by
  have h : p.Played f t.rules.now (t.respond p n).1 (t.respond p n).2 := respond_played t hactive
  exact ⟨h.continues, h.ending, h.context, h.events,
    ⟨h.shows.conversationId, h.shows.state, h.shows.vars, h.shows.isComplete, h.shows.choices⟩⟩

/-- A turn on a valid tree succeeds at any node of the tree. -/
theorem advance_played (hf : Steady f t.rules.hook) (ht : t.tree.Valid) {n : Node}
    (hn : t.tree.node? p.conversation.currentNodeId = some n)
    (hactive : p.conversation.isActive = true) (input : String) :
    ∃ p' r, t.advance p input = (p', .ok r) ∧ p.Played f t.rules.now p' r := by
  -- Looking through the choices draws samples, which nothing else depends on.
  have drawn : p.Goes f { p with taken := (t.openChoices p.context n.choices p.taken).2 } :=
    .ofScene (.silent rfl rfl)
  rcases advance_cases hn input with ⟨-, h⟩ | ⟨c, hc, h⟩ | ⟨-, -, h⟩
  · obtain ⟨p', r, hproceed, hplayed⟩ := proceed_played hf (ht.leads_node hn)
      (drawn.isActive.trans hactive) input
    exact ⟨p', r, h.trans hproceed, drawn.played hplayed⟩
  · obtain ⟨p', r, htake, hplayed⟩ := take_played hf
      (ht.leads_choice hn (mem_openChoices (selectChoice_mem hc)))
      (drawn.isActive.trans hactive) input
    exact ⟨p', r, h.trans htake, drawn.played hplayed⟩
  · exact ⟨_, _, h, drawn.played (askAgain_played t (drawn.isActive.trans hactive))⟩

/-- A conversation can begin on every valid tree. -/
theorem begin_played (hf : Steady f t.rules.hook) (ht : t.tree.Valid)
    (hstart : p.conversation.currentNodeId = t.tree.startNodeId)
    (hactive : p.conversation.isActive = true) :
    ∃ p' r, t.begin p = (p', .ok r) ∧ p.Played f t.rules.now p' r := by
  obtain ⟨n, hn⟩ := ht.startNode
  rw [← hstart] at hn
  have entered := enter_goes hf p p.conversation.currentNodeId n
  have hentered := entered.isActive.trans hactive
  rw [Turn.begin]
  simp only [node_eq hn]
  split
  · exact ⟨_, _, rfl, entered.played (respond_conclude_played t hentered)⟩
  · exact ⟨_, _, rfl, entered.played (respond_played t hentered)⟩

end Turn

end Parley
