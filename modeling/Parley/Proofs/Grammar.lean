/-
The grammar of what a call announces about its conversation.

The events of a start or of a line of input form a word.  `StartWord` and `TurnWord` say
which words there are, with the condition under which each is spoken, so at most one form
fits a call:

* `Turn.begin_announces`, `Turn.advance_announces` — the words of turns on a valid tree;
* `Manager.grammar` — the words of calls that are answered, in every state, all stamped
  with the time of the call.

Design notes: some events take their id and time from the context of the turn and others
from the conversation and the clock.  `Context.stamp` is what the former take, and a custom
action that keeps it keeps the two together.
-/
import Parley.Proofs.Lifecycle
import Parley.Proofs.Manager.Turns

namespace Parley

/-- Which conversation is told of, and when. -/
structure Stamp where
  conversationId : String
  time : Instant

def Event.stamp (e : Event) : Stamp := { conversationId := e.conversationId, time := e.timestamp }

/-- The stamp of what a running turn announces. -/
def Context.stamp (ctx : Context) : Stamp :=
  { conversationId := ctx.conversation.id, time := ctx.conversation.lastActivity }

/-- A custom action leaves the id of the conversation and the time of the turn alone. -/
def Hook.KeepsStamp (run : Hook) : Prop :=
  ∀ name params ctx, (run name params ctx).1.stamp = ctx.stamp

def Provider.KeepsStamp (p : Provider) : Prop := ∀ run, p.hook = some run → run.KeepsStamp

theorem steady_stamp {hook : Option Hook} (h : ∀ run, hook = some run → run.KeepsStamp) :
    Steady Context.stamp hook :=
  ⟨fun _ _ => rfl, fun _ _ => rfl, fun _ _ => rfl, h⟩

/-! ### Words -/

/-- Any number of effects. -/
def AreEffects (word : List Occurrence) : Prop := ∀ o ∈ word, o.isEffect = true

/-- Arriving at a node, after the effects of arrival. -/
inductive ArrivalWord (nodeId : String) : List Occurrence → Prop where
  | arrive {effects : List Occurrence} (heffects : AreEffects effects) :
      ArrivalWord nodeId (effects ++ [.nodeReached nodeId])

/-- The first turn, at node `n`, which stands under `nodeId`. -/
inductive BeginWord (nodeId : String) (n : Node) : List Occurrence → Prop where
  | goesOn {arrival : List Occurrence} (harrival : ArrivalWord nodeId arrival)
      (hend : n.isEnd = false) : BeginWord nodeId n arrival
  | ends {arrival : List Occurrence} (harrival : ArrivalWord nodeId arrival)
      (hend : n.isEnd = true) : BeginWord nodeId n (arrival ++ [.conversationEnded .completed])

/-- A start on a tree with start node `n`. -/
inductive StartWord (providerId : String) (tree : Tree) (n : Node) : List Occurrence → Prop where
  | start {first : List Occurrence} (hfirst : BeginWord tree.startNodeId n first) :
      StartWord providerId tree n
        (.conversationStarted providerId tree.id tree.startNodeId :: first)

/-- Going on to a target, which may be missing or empty. -/
inductive OnwardWord (tree : Tree) (input : String) : Option String → List Occurrence → Prop where
  | farewell {target : Option String} (htarget : target.filter (!·.isEmpty) = none) :
      OnwardWord tree input target [.conversationEnded .completed]
  | ends {target : Option String} {nodeId : String} {n : Node} {arrival : List Occurrence}
      (htarget : target.filter (!·.isEmpty) = some nodeId) (hn : tree.node? nodeId = some n)
      (harrival : ArrivalWord nodeId arrival) (hend : n.isEnd = true) :
      OnwardWord tree input target (arrival ++ [.conversationEnded .completed])
  | goesOn {target : Option String} {nodeId : String} {n : Node} {arrival : List Occurrence}
      (htarget : target.filter (!·.isEmpty) = some nodeId) (hn : tree.node? nodeId = some n)
      (harrival : ArrivalWord nodeId arrival) (hend : n.isEnd = false) :
      OnwardWord tree input target (arrival ++ [.conversationContinued nodeId input])

/-- A line of input at node `n`, which stands under `nodeId`, with its open choices and the
one that the input picks. -/
inductive TurnWord (tree : Tree) (nodeId : String) (n : Node) (input : String)
    (choices : List Choice) (picked : Option Choice) : List Occurrence → Prop where
  | unheard (hchoices : choices ≠ []) (hpicked : picked = none) :
      TurnWord tree nodeId n input choices picked []
  | straight {onward : List Occurrence} (hchoices : choices = [])
      (honward : OnwardWord tree input n.nextNodeId onward) :
      TurnWord tree nodeId n input choices picked onward
  | chosen {c : Choice} {effects onward : List Occurrence} (hchoices : choices ≠ [])
      (hpicked : picked = some c) (heffects : AreEffects effects)
      (honward : OnwardWord tree input (c.nextNodeId <|> n.nextNodeId) onward) :
      TurnWord tree nodeId n input choices picked
        (effects ++ [.choiceMade nodeId c.id] ++ onward)

/-- A word of the kind `w` was announced after `events`, all of it under one stamp. -/
def Announces (stamp : Stamp) (w : List Occurrence → Prop) (events events' : List Event) : Prop :=
  ∃ told, events' = events ++ told ∧ w (told.map Event.occurrence) ∧ ∀ e ∈ told, e.stamp = stamp

namespace Announces

variable {stamp : Stamp} {w w' w'' : List Occurrence → Prop} {events events' events'' : List Event}

theorem nothing (h : w []) (events : List Event) : Announces stamp w events events :=
  ⟨[], (List.append_nil events).symm, h, fun _ he => absurd he List.not_mem_nil⟩

theorem single (e : Event) (h : w [e.occurrence]) (events : List Event) :
    Announces e.stamp w events (events ++ [e]) := by
  refine ⟨[e], rfl, h, fun e' he' => ?_⟩
  rw [List.mem_singleton.mp he']

/-- One word after the other. -/
theorem append (h : Announces stamp w events events') (h' : Announces stamp w' events' events'')
    (hw : ∀ u v, w u → w' v → w'' (u ++ v)) : Announces stamp w'' events events'' := by
  obtain ⟨told, rfl, hword, hstamp⟩ := h
  obtain ⟨told', rfl, hword', hstamp'⟩ := h'
  refine ⟨told ++ told', List.append_assoc _ _ _, ?_, fun e he => ?_⟩
  · rw [List.map_append]
    exact hw _ _ hword hword'
  · rcases List.mem_append.mp he with he | he
    · exact hstamp e he
    · exact hstamp' e he

theorem mono (h : Announces stamp w events events') (hw : ∀ u, w u → w' u) :
    Announces stamp w' events events' := by
  obtain ⟨told, hevents, hword, hstamp⟩ := h
  exact ⟨told, hevents, hw _ hword, hstamp⟩

end Announces

/-- Running effects announces effects, under the stamp of the turn. -/
theorem Scene.Tells.announces {s s' : Scene}
    (h : s.Tells Context.stamp Occurrence.isEffect s') :
    Announces s.context.stamp AreEffects s.events s'.events := by
  obtain ⟨told, hevents, htold⟩ := h.events
  refine ⟨told, hevents, fun o ho => ?_, fun e he => ?_⟩
  · obtain ⟨e, he, rfl⟩ := List.mem_map.mp ho
    obtain ⟨ctx, o, -, heffect, rfl⟩ := htold e he
    exact heffect
  · obtain ⟨ctx, o, hctx, -, rfl⟩ := htold e he
    exact hctx

/-! ### The words of a turn -/

/-- A turn of the conversation that `stamp` names, which is going on. -/
structure Play.Under (stamp : Stamp) (p : Play) : Prop where
  context : p.context.stamp = stamp
  conversation : p.conversation.id = stamp.conversationId
  isActive : p.conversation.isActive = true

theorem Play.Goes.under {stamp : Stamp} {p p' : Play} (h : p.Goes Context.stamp p')
    (hp : p.Under stamp) : p'.Under stamp :=
  ⟨h.tells.context.trans hp.context, h.continues.id.trans hp.conversation,
    h.isActive.trans hp.isActive⟩

namespace Turn

variable {t : Turn} {p : Play} {stamp : Stamp}

theorem publish_announces {o : Occurrence} (hp : p.Under stamp) :
    Announces stamp (· = [o]) p.events (p.publish o).events := by
  have told := Announces.single (w := (· = [o])) (Event.ofContext p.context o) rfl p.events
  rw [show (Event.ofContext p.context o).stamp = stamp from hp.context] at told
  exact told

theorem conclude_announces {now : Instant} (hp : p.Under stamp) (hnow : stamp.time = now) :
    Announces stamp (· = [.conversationEnded .completed]) p.events (p.conclude now).events := by
  have told := Announces.single (w := (· = [.conversationEnded .completed]))
    (p.conversation.endEvent .completed now) rfl p.events
  rw [show (p.conversation.endEvent .completed now).stamp = stamp by
    rw [← hnow]
    exact congrArg (Stamp.mk · _) hp.conversation] at told
  rw [Play.conclude_active hp.isActive]
  exact told

theorem enter_announces (hf : Steady Context.stamp t.rules.hook) (hp : p.Under stamp)
    (nodeId : String) (n : Node) :
    Announces stamp (ArrivalWord nodeId) p.events (t.enter p nodeId n).events := by
  rw [enter]
  simp only
  generalize evaluateAll t.rules (p.moveTo nodeId).context n.conditions
    (p.moveTo nodeId).taken = met
  have moved := (Play.Goes.moveTo hf p nodeId).under hp
  have arrived : ({ p.moveTo nodeId with taken := met.2 } : Play).Under stamp :=
    ⟨moved.context, moved.conversation, moved.isActive⟩
  have reached {q : Play} (hq : q.Under stamp)
      (heffects : Announces stamp AreEffects p.events q.events) :
      Announces stamp (ArrivalWord nodeId) p.events (q.publish (.nodeReached nodeId)).events := by
    refine heffects.append (publish_announces hq) ?_
    rintro effects _ heffects rfl
    exact .arrive heffects
  split
  · -- The effects of arrival run, first the variables of the node and then its actions.
    have effects := (Scene.setVariables_tells hf
      ({ p.moveTo nodeId with taken := met.2 } : Play).toScene n.vars).trans
      (executeAll_tells hf _ n.actions)
    have ran : Announces stamp AreEffects p.events
        (executeAll t.rules (({ p.moveTo nodeId with taken := met.2 } : Play).setVariables
          n.vars) n.actions).2.events := arrived.context ▸ effects.announces
    refine reached ?_ ran
    exact (Play.Goes.ofScene (effects.mono fun _ => Occurrence.isInner_of_isEffect)).under arrived
  · exact reached arrived (.nothing (fun _ ho => absurd ho List.not_mem_nil) _)

theorem begin_announces (hf : Steady Context.stamp t.rules.hook) (hp : p.Under stamp)
    (hnow : stamp.time = t.rules.now) {n : Node}
    (hn : t.tree.node? p.conversation.currentNodeId = some n) :
    Announces stamp (BeginWord p.conversation.currentNodeId n) p.events
      (t.begin p).1.events := by
  have entered := enter_announces hf hp p.conversation.currentNodeId n
  have there := (enter_goes hf p p.conversation.currentNodeId n).under hp
  rw [Turn.begin]
  simp only [node_eq hn]
  cases hend : n.isEnd with
  | true =>
    refine entered.append (conclude_announces there hnow) ?_
    rintro arrival _ harrival rfl
    exact .ends harrival hend
  | false => exact entered.mono fun _ harrival => .goesOn harrival hend

theorem proceed_announces (hf : Steady Context.stamp t.rules.hook) (hp : p.Under stamp)
    (hnow : stamp.time = t.rules.now) {target : Option String} (htarget : t.tree.Leads target)
    (input : String) :
    Announces stamp (OnwardWord t.tree input target) p.events
      (t.proceed p target input).1.events := by
  rw [proceed]
  cases hfilter : target.filter (!·.isEmpty) with
  | none =>
    have synced : p.sync.Under stamp := ⟨hp.context, hp.conversation, hp.isActive⟩
    refine (conclude_announces synced hnow).mono ?_
    rintro _ rfl
    exact .farewell hfilter
  | some nodeId =>
    obtain ⟨n, hn⟩ := htarget nodeId hfilter
    have entered := enter_announces hf hp nodeId n
    have there := (enter_goes hf p nodeId n).under hp
    simp only [node_eq hn]
    cases hend : n.isEnd with
    | true =>
      refine entered.append (conclude_announces there hnow) ?_
      rintro arrival _ harrival rfl
      exact .ends hfilter hn harrival hend
    | false =>
      refine entered.append (publish_announces there) ?_
      rintro arrival _ harrival rfl
      exact .goesOn hfilter hn harrival hend

/-- A choice is announced between its own effects and where it leads. -/
theorem take_announces (hf : Steady Context.stamp t.rules.hook) (hp : p.Under stamp)
    (hnow : stamp.time = t.rules.now) {n : Node} {c : Choice}
    (htarget : t.tree.Leads (c.nextNodeId <|> n.nextNodeId)) (input : String) :
    Announces stamp
      (fun word => ∃ effects onward, AreEffects effects ∧
        OnwardWord t.tree input (c.nextNodeId <|> n.nextNodeId) onward ∧
        word = effects ++ [.choiceMade n.id c.id] ++ onward)
      p.events (t.take p n c input).1.events := by
  have effects := executeAll_tells hf p.toScene c.actions
  let ran : Play := { p with toScene := (executeAll t.rules p.toScene c.actions).2 }
  have goes : p.Goes Context.stamp ran :=
    .ofScene (effects.mono fun _ => Occurrence.isInner_of_isEffect)
  have announced : Announces stamp
      (fun word => ∃ effects, AreEffects effects ∧ word = effects ++ [.choiceMade n.id c.id])
      p.events (ran.publish (.choiceMade n.id c.id)).events := by
    have told : Announces stamp AreEffects p.events ran.events := hp.context ▸ effects.announces
    refine told.append (publish_announces (goes.under hp)) ?_
    rintro word _ hword rfl
    exact ⟨word, hword, rfl⟩
  have there := (Play.Goes.publish ran (f := Context.stamp)
    (o := .choiceMade n.id c.id) rfl).under (goes.under hp)
  refine announced.append (proceed_announces hf there hnow htarget input) ?_
  rintro _ onward ⟨word, hword, rfl⟩ honward
  exact ⟨word, onward, hword, honward, rfl⟩

theorem advance_announces (hf : Steady Context.stamp t.rules.hook) (ht : t.tree.Valid)
    (hp : p.Under stamp) (hnow : stamp.time = t.rules.now) {n : Node}
    (hn : t.tree.node? p.conversation.currentNodeId = some n) (input : String) :
    let choices := (t.openChoices p.context n.choices p.taken).1
    Announces stamp
      (TurnWord t.tree p.conversation.currentNodeId n input choices
        (selectChoice t.settings.numericSelection input choices))
      p.events (t.advance p input).1.events := by
  intro choices
  have drawn : ({ p with taken := (t.openChoices p.context n.choices p.taken).2 } : Play).Under
      stamp := ⟨hp.context, hp.conversation, hp.isActive⟩
  rcases advance_cases hn input with ⟨hempty, h⟩ | ⟨c, hc, h⟩ | ⟨hopen, hnone, h⟩
  · rw [h]
    exact (proceed_announces hf drawn hnow (ht.leads_node hn) input).mono
      fun _ honward => .straight hempty honward
  · have hmem := selectChoice_mem hc
    rw [h]
    refine (take_announces hf drawn hnow (ht.leads_choice hn (mem_openChoices hmem)) input).mono ?_
    rintro _ ⟨effects, onward, heffects, honward, rfl⟩
    -- The node is announced by its own id, which on a valid tree is the one it stands under.
    rw [(ht.node _ n hn).id_eq]
    exact .chosen (List.ne_nil_of_mem hmem) hc heffects honward
  · rw [h]
    exact .nothing (.unheard hopen hnone) p.events

end Turn

/-! ### The words of a call -/

namespace Manager

variable {m : Manager} {ps : Participants} {r : Response}

/-- The events of a log that are addressed to one conversation. -/
def addressed (id : String) (log : List Event) : List Event := log.filter (·.conversationId == id)

/-- A sound manager whose custom actions leave the stamp of a turn alone. -/
theorem Sound.withStamp (hm : m.Sound fun _ => ())
    (hhooks : ∀ providerId p, m.providers.get? providerId = some p → p.KeepsStamp) :
    m.Sound Context.stamp :=
  hm.withSteady fun providerId p hp => steady_stamp (hhooks providerId p hp)

/-- What was announced under one stamp is addressed to its conversation. -/
theorem addressed_announced {stamp : Stamp} {log : List Event} (h : ∀ e ∈ log, e.stamp = stamp) :
    addressed stamp.conversationId log = log := by
  refine List.filter_eq_self.mpr fun e he => ?_
  rw [← h e he]
  exact beq_self_eq_true _

theorem start_word (hm : m.Sound Context.stamp) {providerId : Option String}
    (hnew : m.arena.contains m.forum.ids.next = false)
    (hr : (m.start ps providerId).result.response = .ok r) :
    ∃ p tree n, m.resolve ps.npc.id providerId = .ok p ∧ p.treeOf ps.npc.id = .ok tree ∧
      tree.startNode? = some n ∧
      StartWord p.id tree n
        ((addressed r.conversationId (m.start ps providerId).events).map Event.occurrence) ∧
      ∀ e ∈ addressed r.conversationId (m.start ps providerId).events, e.timestamp = m.now := by
  obtain ⟨p, tree, play, opens⟩ := start_ok hm hr
  obtain ⟨n, hn⟩ := (opens.valid hm).startNode
  let stamp : Stamp := { conversationId := m.forum.ids.next, time := m.now }
  have hid : r.conversationId = stamp.conversationId := opens.conversationId_eq hm
  have under : (Play.ofConversation (p.newConversation m.forum ps tree) ps p.taken).Under stamp :=
    ⟨rfl, rfl, rfl⟩
  obtain ⟨told, hevents, hword, hstamp⟩ :=
    Turn.begin_announces (t := p.turn m.forum tree) (opens.registered hm).2.steady under rfl hn
  rw [opens.begins] at hevents
  replace hevents : play.events = told := hevents
  -- The idle conversations that end first are other ones, since the id is new.
  have others : addressed stamp.conversationId (m.expirePlayer ps.player.id).2 = [] := by
    rw [expirePlayer_events hm, addressed, List.filter_eq_nil_iff]
    rintro _ hmem hto
    obtain ⟨c, hc, rfl⟩ := List.mem_map.mp hmem
    have same : c.id = m.forum.ids.next := beq_iff_eq.mp hto
    have hget := ((mem_idle hm).mp hc).1
    rw [same, Arena.get?_eq_none_iff.mpr hnew] at hget
    exact absurd hget (by simp)
  have own : ∀ e ∈ p.startEvent (m.afterExpiry ps.player.id).forum ps tree :: told,
      e.stamp = stamp := by
    rintro e he
    rcases List.mem_cons.mp he with rfl | he
    · rfl
    · exact hstamp e he
  have heard : addressed r.conversationId (m.start ps providerId).events =
      p.startEvent (m.afterExpiry ps.player.id).forum ps tree :: told := by
    rw [opens.events_eq, hevents, hid, addressed, List.filter_append]
    rw [show (m.expirePlayer ps.player.id).2.filter _ = [] from others, List.nil_append]
    exact addressed_announced own
  refine ⟨p, tree, n, opens.resolve, opens.mapped, hn, ?_, ?_⟩
  · rw [heard]
    exact .start hword
  · rw [heard]
    exact fun e he => congrArg Stamp.time (own e he)

theorem advance_word (hm : m.Sound Context.stamp) {id input : String}
    (hr : (m.advance ps id input).result.response = .ok r) :
    ∃ c p tree n, m.arena.get? id = some c ∧ m.providers.get? c.providerId = some p ∧
      p.trees.get? c.treeId = some tree ∧ tree.node? c.currentNodeId = some n ∧
      (let choices := ((p.turn m.forum tree).openChoices (Context.assemble (c.touch m.now) ps)
        n.choices p.taken).1
      TurnWord tree c.currentNodeId n input choices
        (selectChoice m.forum.settings.numericSelection input choices)
        ((addressed id (m.advance ps id input).events).map Event.occurrence)) ∧
      ∀ e ∈ addressed id (m.advance ps id input).events, e.timestamp = m.now := by
  obtain ⟨c, p, tree, n, play, proceeds⟩ := advance_ok hm hr
  have hactive : c.isActive = true := hm.arena.isActive proceeds.held
  let stamp : Stamp := { conversationId := c.id, time := m.now }
  have under : (Play.ofConversation (c.touch m.now) ps p.taken).Under stamp :=
    ⟨rfl, rfl, hactive⟩
  obtain ⟨told, hevents, hword, hstamp⟩ :=
    Turn.advance_announces (t := p.turn m.forum tree) (proceeds.registered hm).2.steady
      (proceeds.valid hm) under rfl proceeds.node input
  rw [proceeds.advances] at hevents
  replace hevents : play.events = told := hevents
  have hid : stamp.conversationId = id := hm.arena.id_eq proceeds.held
  have heard : addressed id (m.advance ps id input).events = told := by
    rw [proceeds.advance_eq hm, ← hid]
    simp only [settle, Provider.turned, hevents]
    exact addressed_announced hstamp
  refine ⟨c, p, tree, n, proceeds.held, proceeds.provider, proceeds.installed, proceeds.node,
    ?_, ?_⟩
  · rw [heard]
    exact hword
  · rw [heard]
    exact fun e he => congrArg Stamp.time (hstamp e he)

/-- What a call that is answered announces about its conversation is a word of the grammar,
all of it at the time of the call. -/
theorem grammar (hm : m.Reachable)
    (hhooks : ∀ providerId p, m.providers.get? providerId = some p → p.KeepsStamp)
    (ps : Participants) :
    (∀ providerId r, m.arena.contains m.forum.ids.next = false →
      (m.start ps providerId).result.response = .ok r →
      ∃ p tree n, m.resolve ps.npc.id providerId = .ok p ∧ p.treeOf ps.npc.id = .ok tree ∧
        tree.startNode? = some n ∧
        StartWord p.id tree n
          ((addressed r.conversationId (m.start ps providerId).events).map Event.occurrence) ∧
        ∀ e ∈ addressed r.conversationId (m.start ps providerId).events, e.timestamp = m.now) ∧
    ∀ id input r, (m.advance ps id input).result.response = .ok r →
      ∃ c p tree n, m.arena.get? id = some c ∧ m.providers.get? c.providerId = some p ∧
        p.trees.get? c.treeId = some tree ∧ tree.node? c.currentNodeId = some n ∧
        (let choices := ((p.turn m.forum tree).openChoices (Context.assemble (c.touch m.now) ps)
          n.choices p.taken).1
        TurnWord tree c.currentNodeId n input choices
          (selectChoice m.forum.settings.numericSelection input choices)
          ((addressed id (m.advance ps id input).events).map Event.occurrence)) ∧
        ∀ e ∈ addressed id (m.advance ps id input).events, e.timestamp = m.now := by
  have sound := hm.sound.withStamp hhooks
  exact ⟨fun _ _ hnew hr => start_word sound hnew hr, fun _ _ _ hr => advance_word sound hr⟩

/-- The diner is shown the menu and picks the stew, which ends the conversation. -/
theorem grammar_supper :
    let started := Inn.kitchen.start Inn.diner none
    let served := started.manager.advance Inn.diner "" "1"
    (∃ p tree n, StartWord p tree n ((addressed "" started.events).map Event.occurrence)) ∧
    started.events.map (·.occurrence.name) =
      ["CONVERSATION_STARTED", "DIALOGUE_VARIABLE_CHANGED", "DIALOGUE_NODE_REACHED"] ∧
    (∃ tree n choices picked, TurnWord tree "menu" n "1" choices picked
      ((addressed "" served.events).map Event.occurrence)) ∧
    served.events.map (·.occurrence.name) =
      ["DIALOGUE_ACTION_EXECUTED", "DIALOGUE_CHOICE_MADE", "DIALOGUE_ACTION_EXECUTED",
        "DIALOGUE_NODE_REACHED", "CONVERSATION_ENDED"] := by
  intro started served
  have keeps {m : Manager} (h : m.providers.values.all (·.hook.isNone) = true) :
      ∀ providerId p, m.providers.get? providerId = some p → p.KeepsStamp := by
    intro providerId p hp run hrun
    exact absurd hrun (hook_ne_some h hp run)
  have reachable : started.manager.Reachable :=
    .call (.start Inn.diner none) (fun _ hp => absurd hp List.not_mem_nil) Inn.kitchen_reachable
  obtain ⟨hstart, -⟩ := grammar Inn.kitchen_reachable (keeps (by decide +kernel)) Inn.diner
  obtain ⟨-, hadvance⟩ := grammar reachable (keeps (by decide +kernel)) Inn.diner
  have answered : started.result.response.isOk = true := by decide +kernel
  have answeredToo : served.result.response.isOk = true := by decide +kernel
  refine ⟨?_, by decide +kernel, ?_, by decide +kernel⟩
  · cases hr : started.result.response with
    | error e => exact absurd (hr ▸ answered) (by simp [Except.isOk, Except.toBool])
    | ok r =>
      have hid : started.result.response.toOption.map Response.conversationId = some "" := by
        decide +kernel
      rw [hr] at hid
      obtain ⟨p, tree, n, -, -, -, hword, -⟩ := hstart none r (by decide +kernel) hr
      rw [Option.some.inj hid] at hword
      exact ⟨p.id, tree, n, hword⟩
  · cases hr : served.result.response with
    | error e => exact absurd (hr ▸ answeredToo) (by simp [Except.isOk, Except.toBool])
    | ok r =>
      obtain ⟨c, p, tree, n, hc, -, -, -, hword, -⟩ := hadvance "" "1" r hr
      have hnode : (started.manager.arena.get? "").map Conversation.currentNodeId = some "menu" := by
        decide +kernel
      rw [hc] at hnode
      rw [Option.some.inj hnode] at hword
      exact ⟨tree, n, _, _, hword⟩

end Manager

end Parley
