/-
A line of input that is not understood changes nothing but the activity.

At a node with open choices a line that picks none of them has the node shown again.  The turn
has recorded the activity by then, has assembled a context and looked through the choices, and
writes the context back; all of it comes through as it was.

* `Turn.advance_missed` — the turn leaves the play as it was but for the samples it has drawn;
* `Manager.Ignores` — what such a line leaves of a whole manager;
* `Manager.Stuck` — such lines one after the other, whatever is called in between that leaves
  the conversation and its tree alone;
* `Manager.standstill` — where no choice is left to the clock or to chance, all of them are
  shown the same choices.

Design notes: the choices are looked through twice, once for the line of input and once to be
shown, and each time the conditions that are left to chance draw other samples.
-/
import Parley.Proofs.Display
import Parley.Proofs.Manager.Held

namespace Parley

/-- Writing back what is there already changes nothing. -/
theorem Play.Synced.sync_eq {p : Play} (h : p.Synced) : p.sync = p := by
  rw [Play.sync, Context.syncInto, ← h.vars, ← h.flags]

/-- `c'` is `c` but for its activity. -/
def Conversation.Waits (c c' : Conversation) : Prop :=
  c' = { c with lastActivity := c'.lastActivity, turnCount := c'.turnCount }

theorem Conversation.Waits.same {c c' : Conversation} (h : c.Waits c') :
    c'.playerId = c.playerId ∧ c'.currentNodeId = c.currentNodeId := by
  rw [h]
  exact ⟨rfl, rfl⟩

theorem Conversation.Waits.touch {c c' : Conversation} (h : c.Waits c') (now : Instant) :
    c.Waits (c'.touch now) := by
  rw [Waits] at *
  rw [h]
  rfl

namespace Turn

variable {t : Turn} {p : Play} {n : Node}

/-- While a conversation waits, the choices that are settled are the same. -/
theorem openChoices_waits {c c' : Conversation} (h : c.Waits c') (hsettled : n.IsSettled)
    (ps : Participants) (t t' : Turn) (now now' : Instant) (taken taken' : Nat) :
    (t'.openChoices (Context.assemble (c'.touch now') ps) n.choices taken').1 =
      (t.openChoices (Context.assemble (c.touch now) ps) n.choices taken).1 := by
  have same : (Context.assemble (c'.touch now') ps).view = (Context.assemble c ps).view := by
    rw [h]
    rfl
  have view : (Context.assemble (c.touch now) ps).view = (Context.assemble c ps).view := rfl
  rw [openChoices_settled hsettled same t.rules, openChoices_settled hsettled view t.rules]

/-- The node is shown as it was, and what is shown are the choices that are open by now. -/
theorem askAgain_synced (hsynced : p.Synced) (hactive : p.conversation.isActive = true) :
    (∃ taken, (t.askAgain p n).1 = { p with taken }) ∧
    (t.askAgain p n).2.isComplete = false ∧
    (t.askAgain p n).2.message =
      Placeholder.resolve p.context n.message ++ t.settings.notUnderstoodSuffix ∧
    (t.askAgain p n).2.labels =
      ((t.openChoices p.context n.choices p.taken).1.map Choice.id).zipIdx 1 := by
  have left : ∃ taken, (t.respond p n).1 = { p with taken } := by
    rw [respond, hsynced.sync_eq]
    exact ⟨_, rfl⟩
  refine ⟨left, ?_, ?_, respond_labels t n hactive⟩
  · show (!p.sync.conversation.isActive) = false
    rw [hsynced.sync_eq, hactive]
    rfl
  · rfl

/-- A line of input that picks none of the open choices. -/
theorem advance_missed (hn : t.tree.node? p.conversation.currentNodeId = some n) {input : String}
    (hopen : (t.openChoices p.context n.choices p.taken).1 ≠ [])
    (hnone : selectChoice t.settings.numericSelection input
      (t.openChoices p.context n.choices p.taken).1 = none) :
    t.advance p input =
      let asked := t.askAgain { p with taken := (t.openChoices p.context n.choices p.taken).2 } n
      (asked.1, .ok asked.2) := by
  rcases advance_cases hn input with ⟨hempty, -⟩ | ⟨c, hc, -⟩ | ⟨-, -, hgo⟩
  · exact absurd hempty hopen
  · exact absurd (hnone.symm.trans hc) nofun
  · exact hgo

end Turn

namespace Manager

/-- What a line of input leaves that was not understood at the node `n`: the participants and
all that is held are as they were, but that it counts as activity. -/
structure Ignores (m : Manager) (ps : Participants) (id : String) (c : Conversation)
    (p : Provider) (n : Node) (reply : Reply Answer) (r : Response) : Prop where
  answered : reply.result.response = .ok r
  isComplete : r.isComplete = false
  message : r.message = Placeholder.resolve (Context.assemble (c.touch m.now) ps) n.message ++
    m.forum.settings.notUnderstoodSuffix
  events : reply.events = []
  calls : reply.calls = []
  participants : reply.result.participants = ps
  state : r.state =
    { c with lastActivity := m.now, turnCount := min (c.turnCount + 1) Text.uint32Max }
  held : reply.manager.conversation? id = some r.state
  /-- The provider has only drawn samples. -/
  manager : ∃ taken, reply.manager =
    (m.withProvider { p with taken }).withArena (m.arena.update id r.state)

variable {f : Context → Unit} {m m' : Manager} {ps : Participants} {id input : String}
  {c : Conversation} {p : Provider} {tree : Tree} {n : Node}

/-- The choices that a line of input finds open at the node of the conversation. -/
def choicesAt (m : Manager) (ps : Participants) (c : Conversation) (p : Provider) (tree : Tree)
    (n : Node) : List Choice :=
  ((p.turn m.forum tree).openChoices (Context.assemble (c.touch m.now) ps) n.choices p.taken).1

section Missed

variable {play : Play} {r : Response}

/-- The turn of a line of input that picks none of the open choices. -/
theorem Proceeds.missed (hm : m.Sound f) (h : m.Proceeds ps id input c p tree n play r)
    (hopen : m.choicesAt ps c p tree n ≠ [])
    (hnone : selectChoice m.forum.settings.numericSelection input (m.choicesAt ps c p tree n) =
      none) :
    (∃ taken, play = { Play.ofConversation (c.touch m.now) ps p.taken with taken }) ∧
    r.isComplete = false ∧
    r.message = Placeholder.resolve (Context.assemble (c.touch m.now) ps) n.message ++
      m.forum.settings.notUnderstoodSuffix ∧
    ∃ taken, r.labels = (((p.turn m.forum tree).openChoices
      (Context.assemble (c.touch m.now) ps) n.choices taken).1.map Choice.id).zipIdx 1 := by
  let t : Turn := p.turn m.forum tree
  let found : Play := .ofConversation (c.touch m.now) ps p.taken
  let drawn : Play :=
    { found with taken := (t.openChoices found.context n.choices found.taken).2 }
  have missed : t.advance found input =
      ((t.askAgain drawn n).1, .ok (t.askAgain drawn n).2) :=
    Turn.advance_missed (t := t) (p := found) h.node hopen hnone
  obtain ⟨rfl, hr⟩ := Prod.mk.inj (h.advances.symm.trans missed)
  obtain rfl := Except.ok.inj hr
  have synced : drawn.Synced := ⟨rfl, rfl⟩
  have active : c.isActive = true := hm.arena.isActive h.held
  obtain ⟨hleft, hcomplete, hmessage, hlabels⟩ :=
    Turn.askAgain_synced (t := t) (n := n) synced active
  exact ⟨hleft, hcomplete, hmessage, drawn.taken, hlabels⟩

theorem Proceeds.ignores (hm : m.Sound f) (h : m.Proceeds ps id input c p tree n play r)
    (hopen : m.choicesAt ps c p tree n ≠ [])
    (hnone : selectChoice m.forum.settings.numericSelection input (m.choicesAt ps c p tree n) =
      none) :
    m.Ignores ps id c p n (m.advance ps id input) r := by
  obtain ⟨⟨taken, hplay⟩, hcomplete, hmessage, -⟩ := h.missed hm hopen hnone
  have state : r.state = c.touch m.now :=
    (h.played hm).shows.state.trans (congrArg Play.conversation hplay)
  -- It goes on, so it is put back where it was.
  have settled : m.forum.arena.settle (c.touch m.now) = m.arena.update id (c.touch m.now) := by
    rw [Arena.settle, ← hm.arena.id_eq h.held]
    exact if_pos (hm.arena.isActive h.held)
  have manager : (m.advance ps id input).manager =
      (m.withProvider { p with taken }).withArena (m.arena.update id (c.touch m.now)) := by
    rw [h.advance_eq hm, hplay, ← settled]
    rfl
  have held : (m.advance ps id input).manager.conversation? id = some (c.touch m.now) := by
    rw [manager]
    exact Arena.get?_update_self h.held _
  rw [← state] at manager held
  refine ⟨?_, hcomplete, hmessage, ?_, ?_, ?_, state, held, taken, manager⟩
  all_goals rw [h.advance_eq hm, hplay]; rfl

end Missed

/-! ### One line after the other -/

/-- The reply shows these choices and announces nothing, and the conversation has only waited. -/
def Repeats (ps : Participants) (c : Conversation) (choices : List Choice)
    (reply : Reply Answer) : Prop :=
  ∃ r, reply.result.response = .ok r ∧ reply.result.participants = ps ∧ reply.events = [] ∧
    reply.calls = [] ∧ r.isComplete = false ∧ c.Waits r.state ∧
    r.labels = (choices.map Choice.id).zipIdx 1

/-- Lines of input in time that pick none of `choices`, one after the other and for the same
participants: the manager after them, and the replies. -/
inductive Stuck (m : Manager) (ps : Participants) (id : String) (choices : List Choice) :
    Manager → List (Reply Answer) → Prop where
  | refl : Stuck m ps id choices m []
  /-- In between anything may be called that leaves the conversation and its tree alone. -/
  | meanwhile {m' : Manager} {replies : List (Reply Answer)} (call : Call)
      (h : Stuck m ps id choices m' replies) (hproviders : ∀ p ∈ call.providers, p.Authored)
      (hsame : (m'.perform call).1.conversation? id = m'.conversation? id)
      (htree : ∀ c, m'.conversation? id = some c →
        (m'.perform call).1.treeOf? c = m'.treeOf? c) :
      Stuck m ps id choices (m'.perform call).1 replies
  | again {m' : Manager} {replies : List (Reply Answer)} {input : String}
      (h : Stuck m ps id choices m' replies)
      (hlive : ∀ c, m'.conversation? id = some c → c.isExpired m'.now m'.timeout = false)
      (hnone : selectChoice m'.forum.settings.numericSelection input choices = none) :
      Stuck m ps id choices (m'.advance ps id input).manager
        (replies ++ [m'.advance ps id input])

/-- What holds from line to line. -/
structure Stuck.Kept (ps : Participants) (id : String) (c : Conversation) (tree : Tree)
    (choices : List Choice) (m' : Manager) (replies : List (Reply Answer)) : Prop where
  reachable : m'.Reachable
  held : ∃ c', m'.conversation? id = some c' ∧ c.Waits c' ∧ m'.treeOf? c' = some tree
  repeats : ∀ reply ∈ replies, Repeats ps c choices reply

variable {choices : List Choice} {replies : List (Reply Answer)}

theorem Stuck.Kept.again (h : Kept ps id c tree choices m' replies)
    (howner : c.playerId = ps.player.id) (hn : tree.node? c.currentNodeId = some n)
    (hsettled : n.IsSettled) (hchoices : m.choicesAt ps c p tree n = choices)
    (hopen : choices ≠ [])
    (hlive : ∀ c, m'.conversation? id = some c → c.isExpired m'.now m'.timeout = false)
    (hnone : selectChoice m'.forum.settings.numericSelection input choices = none) :
    Kept ps id c tree choices (m'.advance ps id input).manager
      (replies ++ [m'.advance ps id input]) := by
  have sound := h.reachable.sound
  obtain ⟨c', hc', hwaits, htree'⟩ := h.held
  obtain ⟨player, place⟩ := hwaits.same
  obtain ⟨p', play, r, proceeds⟩ := exists_proceeds sound hc' (player.trans howner)
    (hlive c' hc') htree' (place ▸ hn) input
  -- Another turn looks through the choices, and finds the same ones open.
  have same : m'.choicesAt ps c' p' tree n = choices :=
    (Turn.openChoices_waits hwaits hsettled ps ..).trans hchoices
  rw [← same] at hopen hnone
  have ignores := proceeds.ignores sound hopen hnone
  -- So it does when it looks through them once more to show them.
  obtain ⟨-, -, -, drawn, hlabels⟩ := proceeds.missed sound hopen hnone
  rw [Turn.openChoices_waits hwaits hsettled ps (p.turn m.forum tree) _ m.now _ p.taken] at hlabels
  have state : c.Waits r.state := ignores.state ▸ hwaits.touch m'.now
  have placed : (m'.advance ps id input).manager.treeOf? r.state = some tree := by
    obtain ⟨taken, hmanager⟩ := ignores.manager
    rw [hmanager, ← htree', ignores.state]
    exact treeOf?_drawn (proceeds.registered sound).1 taken c'
  refine ⟨h.reachable.perform (.advance ps id input) rfl, ⟨r.state, ignores.held, state, placed⟩,
    fun reply hreply => ?_⟩
  rcases List.mem_append.mp hreply with hreply | hreply
  · exact h.repeats reply hreply
  · obtain rfl := List.mem_singleton.mp hreply
    refine ⟨r, ignores.answered, ignores.participants, ignores.events, ignores.calls,
      ignores.isComplete, state, ?_⟩
    rw [hlabels, ← hchoices]
    rfl

theorem Stuck.kept (hm : m.Reachable) (hc : m.conversation? id = some c)
    (howner : c.playerId = ps.player.id) (htree : m.treeOf? c = some tree)
    (hn : tree.node? c.currentNodeId = some n) (hsettled : n.IsSettled)
    (hchoices : m.choicesAt ps c p tree n = choices) (hopen : choices ≠ [])
    (h : Stuck m ps id choices m' replies) : Kept ps id c tree choices m' replies := by
  induction h with
  | refl => exact ⟨hm, ⟨c, hc, rfl, htree⟩, fun _ h => absurd h List.not_mem_nil⟩
  | meanwhile call _ hproviders hsame hplaced ih =>
    obtain ⟨c', hc', hwaits, htree'⟩ := ih.held
    exact ⟨.call call hproviders ih.reachable,
      ⟨c', hsame.trans hc', hwaits, (hplaced c' hc').trans htree'⟩, ih.repeats⟩
  | again _ hlive hnone ih =>
    exact ih.again howner hn hsettled hchoices hopen hlive hnone

/-- Where choices are open and a line of input picks none of them, the node is shown again with
the suffix, nothing is announced, no custom action is called, the participants are handed back
as they came, and all that has changed is the activity of the conversation.  If no choice is left
to the clock or to chance, such lines are shown the same choices over and over. -/
theorem standstill (hm : m.Reachable) (hc : m.conversation? id = some c)
    (howner : c.playerId = ps.player.id) (hp : m.providers.get? c.providerId = some p)
    (htree : p.trees.get? c.treeId = some tree) (hn : tree.node? c.currentNodeId = some n)
    (hopen : m.choicesAt ps c p tree n ≠ []) :
    let choices := m.choicesAt ps c p tree n
    (∀ input, c.isExpired m.now m.timeout = false →
      selectChoice m.forum.settings.numericSelection input choices = none →
      ∃ r, m.Ignores ps id c p n (m.advance ps id input) r) ∧
    (n.IsSettled → ∀ m' replies, Stuck m ps id choices m' replies →
      (∀ reply ∈ replies, Repeats ps c choices reply) ∧
      ∃ c', m'.conversation? id = some c' ∧ c.Waits c') := by
  intro choices
  have placed : m.treeOf? c = some tree := (treeOf?_eq hp).trans htree
  refine ⟨fun input hlive hnone => ?_, fun hsettled m' replies hstuck => ?_⟩
  · obtain ⟨p', play, r, proceeds⟩ := exists_proceeds hm.sound hc howner hlive placed hn input
    obtain rfl : p' = p := Option.some.inj (proceeds.provider.symm.trans hp)
    exact ⟨r, proceeds.ignores hm.sound hopen hnone⟩
  · have kept := hstuck.kept hm hc howner placed hn hsettled rfl hopen
    obtain ⟨c', hc', hwaits, -⟩ := kept.held
    exact ⟨kept.repeats, c', hc', hwaits⟩

/-- The guest asks for something else, and then once more. -/
theorem standstill_supper :
    let started := Inn.kitchen.start Inn.diner none
    let ps := started.result.participants
    let first := started.manager.advance ps "" "What else?"
    let second := first.manager.advance ps "" "Fish?"
    (∃ r, first.result.response = .ok r ∧
      r.message = "There is stew." ++ started.manager.forum.settings.notUnderstoodSuffix ∧
      r.labels = [("stew", 1), ("leave", 2)]) ∧
    ∃ r, second.result.response = .ok r ∧ second.events = [] ∧
      r.labels = [("stew", 1), ("leave", 2)] := by
  intro started ps first second
  let m := started.manager
  let c : Conversation :=
    { Conversation.new "" "guest" "cook" "cook" Inn.supper Instant.epoch with
      currentNodeId := "menu"
      vars := Dict.ofList [("price", .int 3)]
      history := ["menu"] }
  have found : m.conversation? "" = some c := by decide +kernel
  have seated : m.treeOf? c = some Inn.supper := by decide +kernel
  obtain ⟨p, hp, htree⟩ := Option.bind_eq_some_iff.mp seated
  let n : Node := (Inn.supper.node? "menu").get rfl
  have unconditioned : ∀ choice ∈ n.choices, choice.condition = none := by decide +kernel
  have settled : n.IsSettled := fun choice hchoice condition hcondition =>
    absurd ((unconditioned choice hchoice).symm.trans hcondition) nofun
  have choices : m.choicesAt ps c p Inn.supper n = n.choices := rfl
  have opened : m.choicesAt ps c p Inn.supper n ≠ [] := by
    rw [choices]
    decide +kernel
  have reached : m.Reachable := Inn.kitchen_reachable.perform (.start Inn.diner none) rfl
  have here : Inn.supper.node? c.currentNodeId = some n := rfl
  obtain ⟨hignores, hstuck⟩ := standstill reached found (by decide +kernel) hp htree here opened
  rw [choices] at hignores hstuck
  have stuck : Stuck m ps "" n.choices second.manager [first, second] :=
    .again (.again .refl (by decide +kernel) (by decide +kernel)) (by decide +kernel)
      (by decide +kernel)
  have numbered : (n.choices.map Choice.id).zipIdx 1 = [("stew", 1), ("leave", 2)] := by
    decide +kernel
  obtain ⟨r, ignores⟩ := hignores "What else?" (by decide +kernel) (by decide +kernel)
  obtain ⟨hrepeats, -⟩ := hstuck settled _ _ stuck
  obtain ⟨r', hr', -, -, -, -, -, hlabels⟩ := hrepeats first (by simp)
  obtain ⟨r'', hr'', -, hevents, -, -, -, hlabels'⟩ := hrepeats second (by simp)
  obtain rfl : r = r' := Except.ok.inj (ignores.answered.symm.trans hr')
  refine ⟨⟨r, hr', ?_, hlabels.trans numbered⟩, r'', hr'', hevents, hlabels'.trans numbered⟩
  rw [ignores.message]
  congr 1
  decide +kernel

end Manager

end Parley
