/-
What is displayed is what can be picked.

Whether a choice is open is asked when its node is shown, and again from a fresh context when
the next line of input comes.  In between everything has gone through the conversation and
the player that were handed back:

* `Condition.evaluate_settled` — a condition that asks neither the clock nor chance depends
  only on the variables and the player;
* `Turn.begin_displays`, `Turn.advance_displays` — a turn shows the open choices of the node
  where it leaves the conversation, numbered from one;
* `Turn.advance_picks`, `Turn.advance_repeats`, `Turn.advance_straight` — what a line of
  input does that names an open choice, that is another number, or that finds nothing open;
* `Manager.display` — so the next line of input picks from what a call has shown.

Design notes: the NPC and the world are handed in again by the caller, and no condition looks
at them.
-/
import Parley.Proofs.Continuation
import Parley.Proofs.Lifecycle
import Parley.Proofs.Text.Numeral
import Parley.Proofs.Walk

namespace Parley

/-! ### Settled conditions -/

/-- The check asks neither the clock nor chance. -/
def Check.isSettled : Check → Bool
  | observe (.time _) _ _ | random _ => false
  | _ => true

/-- No choice of the node waits for the clock or for chance. -/
def Node.IsSettled (n : Node) : Prop :=
  ∀ c ∈ n.choices, ∀ condition, c.condition = some condition → condition.check.isSettled = true

/-- All that settled conditions read of a context. -/
def Context.view (ctx : Context) : Dict Json × Player := (ctx.conversation.vars, ctx.player)

section Settled

variable {ctx ctx' : Context}

theorem Subject.outcome_settled {subject : Subject} {op : Operator} {expected : Json}
    (h : (Check.observe subject op expected).isSettled = true) (hview : ctx.view = ctx'.view)
    (rules rules' : Rules) :
    subject.outcome rules ctx op expected = subject.outcome rules' ctx' op expected := by
  obtain ⟨hvars, hplayer⟩ := Prod.mk.inj hview
  cases subject with
  | time => exact absurd h (by simp [Check.isSettled])
  | var name => rw [outcome, outcome, hvars]
  | _ => simp only [outcome, hplayer]

theorem Condition.evaluate_settled {c : Condition} (h : c.check.isSettled = true)
    (hview : ctx.view = ctx'.view) (rules rules' : Rules) (taken taken' : Nat) :
    c.evaluate rules ctx taken = ((c.evaluate rules' ctx' taken').1, taken) := by
  rw [evaluate, evaluate]
  cases hcheck : c.check with
  | random => exact absurd (hcheck ▸ h) (by simp [Check.isSettled])
  | unknown => rfl
  | observe subject op expected =>
    simp only [Check.outcome]
    rw [Subject.outcome_settled (hcheck ▸ h) hview rules rules']

/-- The condition of a choice holds, asked when nothing has been drawn yet. -/
def Choice.passes (rules : Rules) (ctx : Context) (c : Choice) : Bool :=
  (allows rules ctx c.condition 0).1

/-- Settled choices are sorted out without drawing. -/
theorem Turn.openChoices_settled {t : Turn} {choices : List Choice}
    (h : ∀ c ∈ choices, ∀ condition, c.condition = some condition →
      condition.check.isSettled = true)
    (hview : ctx.view = ctx'.view) (rules : Rules) (taken : Nat) :
    t.openChoices ctx choices taken = (choices.filter (Choice.passes rules ctx'), taken) := by
  induction choices with
  | nil => rfl
  | cons c rest ih =>
    have asked : allows t.rules ctx c.condition taken = (c.passes rules ctx', taken) := by
      rw [Choice.passes]
      cases hcondition : c.condition with
      | none => rfl
      | some condition =>
        exact condition.evaluate_settled (h c List.mem_cons_self condition hcondition) hview
          t.rules rules taken 0
    rw [openChoices]
    simp only [asked]
    rw [ih fun c' hc' => h c' (List.mem_cons_of_mem c hc'), List.filter_cons]

end Settled

/-! ### What a response shows -/

theorem Response.Shows.isActive_of_open {r : Response} {c : Conversation} (h : r.Shows c)
    (hopen : r.isComplete = false) : c.isActive = true := by
  have complete := h.isComplete
  rw [hopen] at complete
  simpa using complete.symm

theorem Response.Shows.isActive_of_complete {r : Response} {c : Conversation} (h : r.Shows c)
    (hcomplete : r.isComplete = true) : c.isActive = false := by
  have complete := h.isComplete
  rw [hcomplete] at complete
  simpa using complete.symm

/-- The ids of the choices shown, each with its number. -/
def Response.labels (r : Response) : List (String × Nat) :=
  (r.choices.getD []).map fun v => (v.id, v.index)

theorem Turn.views_labels (ctx : Context) (index : Nat) (choices : List Choice) :
    (views ctx index choices).map (fun v => (v.id, v.index)) =
      (choices.map Choice.id).zipIdx index := by
  induction choices generalizing index with
  | nil => rfl
  | cons c rest ih => rw [views, List.map_cons, ih, List.map_cons, List.zipIdx_cons]

/-- After a turn the response shows the open choices of the node where the conversation is,
and the conversation has the variables of the context. -/
structure Turn.Displays (t : Turn) (p : Play) (r : Response) : Prop where
  vars : p.conversation.vars = p.context.conversation.vars
  views : ∃ n taken, t.tree.node? p.conversation.currentNodeId = some n ∧
    r.choices.getD [] = views p.context 1 (t.openChoices p.context n.choices taken).1

namespace Turn

variable {t : Turn} {p : Play} {r : Response}

theorem respond_views (t : Turn) (n : Node) (hactive : p.conversation.isActive = true) :
    (t.respond p n).2.choices.getD [] =
      views p.context 1 (t.openChoices p.context n.choices p.taken).1 := by
  have active : p.sync.conversation.isActive = true := hactive
  have shown : (t.respond p n).2.choices =
      if (t.openChoices p.context n.choices p.taken).1.isEmpty then none
      else some (views p.context 1 (t.openChoices p.context n.choices p.taken).1) := by
    rw [respond]
    simp only [active, if_true]
    rfl
  rw [shown]
  cases (t.openChoices p.context n.choices p.taken).1 with
  | nil => rfl
  | cons c rest => rfl

theorem respond_labels (t : Turn) (n : Node) (hactive : p.conversation.isActive = true) :
    (t.respond p n).2.labels =
      ((t.openChoices p.context n.choices p.taken).1.map Choice.id).zipIdx 1 := by
  rw [Response.labels, respond_views t n hactive, views_labels]

theorem respond_displays {n : Node} (hactive : p.conversation.isActive = true)
    (hn : t.tree.node? p.conversation.currentNodeId = some n) :
    t.Displays (t.respond p n).1 (t.respond p n).2 :=
  ⟨rfl, n, p.taken, hn, respond_views t n hactive⟩

/-- What a node shows that has just been entered. -/
theorem entered_displays {nodeId : String} {n : Node} (hn : t.tree.node? nodeId = some n)
    (hactive : p.conversation.isActive = true) {p' : Play}
    (hconversation : p'.conversation = (t.enter p nodeId n).conversation) :
    t.Displays (t.respond p' n).1 (t.respond p' n).2 := by
  obtain ⟨hplace, hentered⟩ := enter_place (t := t) hactive nodeId n
  refine respond_displays (hconversation ▸ hentered) ?_
  rw [hconversation, show (t.enter p nodeId n).conversation.currentNodeId = nodeId from
    congrArg Prod.snd hplace]
  exact hn

/-- A conversation that ends on a node shows nothing. -/
theorem respond_conclude_complete (t : Turn) (p : Play) (n : Node) :
    (t.respond (p.conclude t.rules.now) n).2.isComplete = true := by
  show (!(p.conclude t.rules.now).conversation.isActive) = true
  rw [conclude_isActive]
  rfl

theorem begin_displays (hactive : p.conversation.isActive = true)
    (h : (t.begin p).2 = .ok r) (hopen : r.isComplete = false) : t.Displays (t.begin p).1 r := by
  rw [Turn.begin] at h ⊢
  cases hn : t.tree.node? p.conversation.currentNodeId with
  | none =>
    simp only [node, hn] at h
    exact absurd h (by simp)
  | some n =>
    simp only [node_eq hn] at h ⊢
    obtain rfl := Except.ok.inj h
    cases hend : n.isEnd with
    | true =>
      simp only [hend, if_true] at hopen
      rw [respond_conclude_complete] at hopen
      exact absurd hopen (by simp)
    | false => exact entered_displays hn hactive rfl

theorem proceed_displays (hactive : p.conversation.isActive = true) {target : Option String}
    {input : String} (h : (t.proceed p target input).2 = .ok r) (hopen : r.isComplete = false) :
    t.Displays (t.proceed p target input).1 r := by
  rw [proceed] at h ⊢
  cases hfilter : target.filter (!·.isEmpty) with
  | none =>
    rw [hfilter] at h
    obtain rfl := Except.ok.inj h
    exact absurd hopen (by simp [farewell])
  | some nodeId =>
    rw [hfilter] at h
    cases hn : t.tree.node? nodeId with
    | none =>
      simp only [node, hn] at h
      exact absurd h (by simp)
    | some n =>
      simp only [node_eq hn] at h ⊢
      obtain rfl := Except.ok.inj h
      cases hend : n.isEnd with
      | true =>
        simp only [hend, if_true] at hopen
        rw [respond_conclude_complete] at hopen
        exact absurd hopen (by simp)
      | false => exact entered_displays hn hactive rfl

theorem advance_displays {n : Node} (hn : t.tree.node? p.conversation.currentNodeId = some n)
    (hactive : p.conversation.isActive = true) {input : String}
    (h : (t.advance p input).2 = .ok r) (hopen : r.isComplete = false) :
    t.Displays (t.advance p input).1 r := by
  rcases advance_cases hn input with ⟨-, hgo⟩ | ⟨c, -, hgo⟩ | ⟨-, -, hgo⟩
  · rw [hgo] at h ⊢
    refine proceed_displays ?_ h hopen
    exact hactive
  · rw [hgo] at h ⊢
    rw [take] at h ⊢
    refine proceed_displays ?_ h hopen
    exact hactive
  · rw [hgo] at h ⊢
    obtain rfl := Except.ok.inj h
    obtain ⟨hvars, hviews⟩ := respond_displays (t := t)
      (p := { p with taken := (t.openChoices p.context n.choices p.taken).2 }) hactive hn
    exact ⟨hvars, hviews⟩

end Turn

/-! ### Which choices are announced -/

/-- A choice that was made, with its node. -/
def Occurrence.choice? : Occurrence → Option (String × String)
  | choiceMade nodeId choiceId => some (nodeId, choiceId)
  | _ => none

/-- The choices that a log tells of. -/
def Event.picks (log : List Event) : List (String × String) :=
  log.filterMap fun e => e.occurrence.choice?

namespace Event

theorem picks_append (log log' : List Event) : picks (log ++ log') = picks log ++ picks log' :=
  List.filterMap_append

theorem picks_publish {s : Scene} {o : Occurrence} :
    picks (s.publish o).events = picks s.events ++ o.choice?.toList := by
  show picks (s.events ++ [Event.ofContext s.context o]) = _
  rw [picks_append]
  cases h : o.choice? <;> simp [picks, Event.ofContext, h]

/-- Effects make no choices. -/
theorem picks_tells {s s' : Scene} (h : s.Tells (fun _ => ()) Occurrence.isEffect s') :
    picks s'.events = picks s.events := by
  obtain ⟨told, hevents, htold⟩ := h.events
  have silent : picks told = [] := by
    rw [picks, List.filterMap_eq_nil_iff]
    intro e he
    obtain ⟨ctx, o, -, ho, rfl⟩ := htold e he
    show o.choice? = none
    cases o <;> first | rfl | exact absurd ho (by simp [Occurrence.isEffect])
  rw [hevents, picks_append, silent, List.append_nil]

end Event

namespace Turn

variable {t : Turn} {p : Play} {r : Response}

theorem enter_picks (p : Play) (nodeId : String) (n : Node) :
    Event.picks (t.enter p nodeId n).events = Event.picks p.events := by
  have steady := steady_unit t.rules.hook
  have reached (q : Play) : Event.picks (q.publish (.nodeReached nodeId)).events =
      Event.picks q.events := by
    rw [Play.publish, Event.picks_publish]
    exact List.append_nil _
  rw [enter]
  simp only
  generalize evaluateAll t.rules (p.moveTo nodeId).context n.conditions
    (p.moveTo nodeId).taken = met
  split
  · have effects := (Scene.setVariables_tells steady
      ({ p.moveTo nodeId with taken := met.2 } : Play).toScene n.vars).trans
      (executeAll_tells steady _ n.actions)
    have silent := Event.picks_tells effects
    rw [reached]
    exact silent
  · rw [reached]
    rfl

theorem conclude_picks (p : Play) (now : Instant) :
    Event.picks (p.conclude now).events = Event.picks p.events := by
  cases hactive : p.conversation.isActive with
  | true =>
    rw [Play.conclude_active hactive]
    show Event.picks (p.events ++ _) = _
    rw [Event.picks_append]
    exact List.append_nil _
  | false =>
    rw [Play.conclude_ended hactive]

/-- Going on to a target makes no choice. -/
theorem proceed_picks (p : Play) (target : Option String) (input : String) :
    Event.picks (t.proceed p target input).1.events = Event.picks p.events := by
  rw [proceed]
  cases target.filter (!·.isEmpty) with
  | none => exact conclude_picks p.sync t.rules.now
  | some nodeId =>
    simp only
    split
    · rfl
    · rename_i n _
      cases n.isEnd with
      | true => exact (conclude_picks _ _).trans (enter_picks p nodeId n)
      | false =>
        show Event.picks ((t.enter p nodeId n).publish _).events = _
        rw [Play.publish, Event.picks_publish]
        exact (List.append_nil _).trans (enter_picks p nodeId n)

theorem take_picks (p : Play) (n : Node) (c : Choice) (input : String) :
    Event.picks (t.take p n c input).1.events = Event.picks p.events ++ [(n.id, c.id)] := by
  rw [take]
  simp only
  rw [proceed_picks, Play.publish, Event.picks_publish,
    Event.picks_tells (executeAll_tells (steady_unit t.rules.hook) p.toScene c.actions)]
  rfl

end Turn

/-! ### The next line of input -/

/-- The response has gone on from a place to a target, or says farewell if there is none. -/
inductive Response.Follows (settings : Settings) (place : List String × String)
    (target : Option String) (r : Response) : Prop where
  | arrives {nodeId : String} (htarget : target = some nodeId) (hnonempty : nodeId ≠ "")
      (hplace : r.state.place = (place.1 ++ [nodeId], nodeId)) : Follows settings place target r
  | farewell (hnowhere : target = none ∨ target = some "") (hcomplete : r.isComplete = true)
      (hmessage : ∃ ctx, r.message = Placeholder.resolve ctx settings.farewellMessage)
      (hplace : r.state.place = place) : Follows settings place target r

/-- By position a number picks the choice with that number, and out of range it picks none. -/
theorem selectChoice_ordinal {input : String} {k : Int}
    (hk : Text.integer? (Text.lowercase (Text.trim input)) = some k) (choices : List Choice) :
    selectChoice .ordinal input choices = if 1 ≤ k then choices[k.toNat - 1]? else none := by
  rw [selectChoice]
  simp only [hk]
  rfl

namespace Turn

variable {t : Turn} {p : Play} {r : Response} {n : Node} {input : String}

theorem proceed_follows (hactive : p.conversation.isActive = true) {target : Option String}
    (h : (t.proceed p target input).2 = .ok r)
    (hstate : r.state = (t.proceed p target input).1.conversation) :
    r.Follows t.settings p.conversation.place target := by
  rcases proceed_place hactive h with
    ⟨nodeId, n, htarget, hnonempty, -, hplace, -⟩ | ⟨hnowhere, hplace, -⟩
  · exact .arrives htarget hnonempty (hstate ▸ hplace)
  · have said : t.proceed p target input = ((t.farewell p).1, .ok (t.farewell p).2) := by
      rcases hnowhere with rfl | rfl <;> rfl
    rw [said] at h
    obtain rfl := Except.ok.inj h
    exact .farewell hnowhere rfl ⟨_, rfl⟩ (hstate ▸ hplace)

section Asked

variable {choices : List Choice}
  (hasked : t.openChoices p.context n.choices p.taken = (choices, p.taken))
  (hn : t.tree.node? p.conversation.currentNodeId = some n)
include hasked hn

/-- A line of input that names an open choice announces it and goes where it leads. -/
theorem advance_picks (hactive : p.conversation.isActive = true) {c : Choice}
    (hpicked : selectChoice t.settings.numericSelection input choices = some c)
    (h : (t.advance p input).2 = .ok r) (hstate : r.state = (t.advance p input).1.conversation) :
    Event.picks (t.advance p input).1.events = Event.picks p.events ++ [(n.id, c.id)] ∧
      r.Follows t.settings p.conversation.place (c.nextNodeId <|> n.nextNodeId) := by
  have cases := advance_cases hn input
  simp only [hasked, hpicked] at cases
  rcases cases with ⟨rfl, -⟩ | ⟨c', hc', hgo⟩ | ⟨-, hnone, -⟩
  · exact absurd (selectChoice_mem hpicked) List.not_mem_nil
  · obtain rfl := Option.some.inj hc'
    rw [hgo] at h hstate ⊢
    refine ⟨take_picks p n c input, ?_⟩
    rw [take] at h hstate
    let chosen : Play := Play.publish { p with
      toScene := (executeAll t.rules p.toScene c.actions).2 } (.choiceMade n.id c.id)
    exact proceed_follows (t := t) (p := chosen) hactive h hstate
  · exact absurd hnone (by simp)

/-- A line of input that names none of several choices changes nothing that is shown. -/
theorem advance_repeats (hactive : p.conversation.isActive = true) (hopen : choices ≠ [])
    (hnone : selectChoice t.settings.numericSelection input choices = none)
    (h : (t.advance p input).2 = .ok r) :
    (t.advance p input).1.events = p.events ∧ r.isComplete = false ∧
      r.state.place = p.conversation.place ∧ r.labels = (choices.map Choice.id).zipIdx 1 := by
  have cases := advance_cases hn input
  simp only [hasked, hnone] at cases
  rcases cases with ⟨hclosed, -⟩ | ⟨c', hc', -⟩ | ⟨-, -, hgo⟩
  · exact absurd hclosed hopen
  · exact absurd hc' (by simp)
  · rw [hgo] at h ⊢
    obtain rfl := Except.ok.inj h
    have labels := respond_labels t n hactive
    rw [hasked] at labels
    refine ⟨rfl, ?_, rfl, labels⟩
    show (!p.sync.conversation.isActive) = false
    rw [show p.sync.conversation.isActive = true from hactive]
    rfl

/-- With nothing to choose every line of input goes on, and no choice is made. -/
theorem advance_straight (hactive : p.conversation.isActive = true) (hclosed : choices = [])
    (h : (t.advance p input).2 = .ok r) (hstate : r.state = (t.advance p input).1.conversation) :
    Event.picks (t.advance p input).1.events = Event.picks p.events ∧
      r.Follows t.settings p.conversation.place n.nextNodeId := by
  subst hclosed
  have cases := advance_cases hn input
  simp only [hasked] at cases
  rcases cases with ⟨-, hgo⟩ | ⟨c', hc', -⟩ | ⟨hopen, -⟩
  · rw [hgo] at h hstate ⊢
    exact ⟨proceed_picks p n.nextNodeId input, proceed_follows hactive h hstate⟩
  · exact absurd (selectChoice_mem hc') List.not_mem_nil
  · exact absurd rfl hopen

end Asked

end Turn

/-! ### Calls -/

namespace Manager

/-- A call that is answered with what a conversation shows. -/
inductive Asks (m : Manager) : Reply Answer → Prop where
  | start (ps : Participants) (providerId : Option String) : Asks m (m.start ps providerId)
  | advance (ps : Participants) (id input : String) : Asks m (m.advance ps id input)

/-- What a call has left that showed `r`, with the participants that it handed back.  The texts
were resolved in a context that settled conditions cannot tell from that of the next call. -/
structure Presents (m : Manager) (ps : Participants) (r : Response) (tree : Tree) (n : Node) :
    Prop where
  held : m.conversation? r.conversationId = some r.state
  placed : m.treeOf? r.state = some tree
  node : tree.node? r.state.currentNodeId = some n
  views : ∃ ctx : Context, ctx.view = (Context.assemble r.state ps).view ∧
    (n.IsSettled → ∀ rules, r.choices.getD [] =
      Turn.views ctx 1 (n.choices.filter (Choice.passes rules (Context.assemble r.state ps))))

/-- The player handed back is still the one of the conversation. -/
structure Shown (m : Manager) (ps : Participants) (r : Response) (tree : Tree) (n : Node) : Prop
    extends Presents m ps r tree n where
  owner : r.state.playerId = ps.player.id

variable {m : Manager} {ps : Participants} {r : Response} {play : Play} {tree : Tree}
  {p : Provider} {input : String}

/-- A provider that has drawn samples has the same trees. -/
theorem treeOf?_drawn (hp : m.providers.get? p.id = some p) (taken : Nat) (c : Conversation) :
    (m.withProvider { p with taken }).treeOf? c = m.treeOf? c := by
  rw [treeOf?, treeOf?]
  show (((m.providers.modify p.id fun _ => { p with taken }).get? c.providerId).bind _) = _
  rw [Dict.get?_modify]
  split
  · rename_i heq
    rw [← heq, hp]
    rfl
  · rfl

theorem Presents.labels {n : Node} (h : m.Presents ps r tree n) (hsettled : n.IsSettled)
    (rules : Rules) : r.labels =
      ((n.choices.filter (Choice.passes rules (Context.assemble r.state ps))).map
        Choice.id).zipIdx 1 := by
  obtain ⟨ctx, -, hviews⟩ := h.views
  rw [Response.labels, hviews hsettled rules, Turn.views_labels]

section Played

variable {α : Type} {f : Context → α} {now : Instant} {c : Conversation} {taken : Nat}

/-- What a turn shows is what the state and the player that it hands back make open. -/
theorem presents_of_played {m' : Manager} {t : Turn}
    (hplayed : (Play.ofConversation c ps taken).Played f now play r)
    (hdisplays : t.Displays play r) (htree : t.tree = tree)
    (hheld : m'.conversation? r.conversationId = some play.conversation)
    (hplaced : m'.treeOf? play.conversation = some tree) :
    ∃ n, m'.Presents (play.context.releasePlayer ps) r tree n := by
  obtain ⟨hvars, n, drawn, hn, hviews⟩ := hdisplays
  have hstate : r.state = play.conversation := hplayed.shows.state
  have view : play.context.view =
      (Context.assemble r.state (play.context.releasePlayer ps)).view := by
    rw [hstate]
    exact congrArg (·, play.context.player) hvars.symm
  refine ⟨n, hstate ▸ hheld, hstate ▸ hplaced, ?_, play.context, view, fun hsettled rules => ?_⟩
  · rw [hstate, ← htree]
    exact hn
  · rw [hviews, Turn.openChoices_settled hsettled view rules]

theorem owner_of_played (hplayed : (Play.ofConversation c ps taken).Played Context.ids now play r)
    (howner : c.playerId = ps.player.id) :
    r.state.playerId = (play.context.releasePlayer ps).player.id := by
  have hplayer : play.context.player.id = ps.player.id :=
    congrArg Context.Ids.player hplayed.context
  rw [hplayed.shows.state]
  exact (hplayed.continues.playerId.trans howner).trans hplayer.symm

theorem Opens.presents (hm : m.Sound f) {providerId : Option String}
    (h : m.Opens ps providerId p tree play r) (hopen : r.isComplete = false) :
    ∃ n, (m.start ps providerId).manager.Presents (m.start ps providerId).result.participants
      r tree n := by
  have played := h.played hm
  have hactive := played.shows.isActive_of_open hopen
  obtain ⟨hp, hfit⟩ := h.registered hm
  have displays := Turn.begin_displays (t := p.turn m.forum tree)
    (p := .ofConversation (p.newConversation m.forum ps tree) ps p.taken) (r := r) rfl
    (congrArg Prod.snd h.begins) hopen
  rw [h.begins] at displays
  have held : (m.start ps providerId).manager.conversation? r.conversationId =
      some play.conversation := by
    rw [conversation?, h.arena_eq, if_pos hactive, Arena.get?_insert,
      if_pos played.shows.conversationId.symm]
  have placed : (m.start ps providerId).manager.treeOf? play.conversation = some tree := by
    obtain ⟨treeId, hmem⟩ := Provider.treeOf_mem h.mapped
    obtain ⟨-, hid⟩ := hfit.authored.holdsValid treeId tree hmem
    have hprovider : play.conversation.providerId = p.id := played.continues.providerId
    have htreeId : play.conversation.treeId = tree.id := played.continues.treeId
    rw [h.start_eq]
    refine (treeOf?_drawn hp play.taken play.conversation).trans ?_
    rw [treeOf?_eq (hprovider ▸ hp), htreeId, hid]
    exact hmem
  rw [h.start_eq] at held placed ⊢
  exact presents_of_played played displays rfl held placed

theorem Opens.owner (hm : m.Sound Context.ids) {providerId : Option String}
    (h : m.Opens ps providerId p tree play r) :
    r.state.playerId = (m.start ps providerId).result.participants.player.id := by
  rw [h.start_eq]
  exact owner_of_played (h.played hm) rfl

theorem Proceeds.presents (hm : m.Sound f) {id : String} {c : Conversation} {n : Node}
    (h : m.Proceeds ps id input c p tree n play r) (hopen : r.isComplete = false) :
    ∃ n', (m.advance ps id input).manager.Presents (m.advance ps id input).result.participants
      r tree n' := by
  have played := h.played hm
  have hactive := played.shows.isActive_of_open hopen
  obtain ⟨hp, -⟩ := h.registered hm
  have going : c.isActive = true := hm.arena.isActive h.held
  have displays := Turn.advance_displays (t := p.turn m.forum tree)
    (p := .ofConversation (c.touch m.now) ps p.taken) (r := r) h.node going
    (congrArg Prod.snd h.advances) hopen
  rw [h.advances] at displays
  have same : play.conversation.id = c.id := played.continues.id
  have present : m.arena.contains play.conversation.id = true := by
    rw [same, hm.arena.id_eq h.held]
    exact Arena.contains_of_get? h.held
  have held : (m.advance ps id input).manager.conversation? r.conversationId =
      some play.conversation := by
    rw [h.advance_eq hm, played.shows.conversationId]
    show (m.arena.settle play.conversation).get? play.conversation.id = _
    rw [Arena.get?_settle present, if_pos rfl, if_pos hactive]
  have placed : (m.advance ps id input).manager.treeOf? play.conversation = some tree := by
    have hprovider : play.conversation.providerId = c.providerId := played.continues.providerId
    have htreeId : play.conversation.treeId = c.treeId := played.continues.treeId
    rw [h.advance_eq hm]
    refine (treeOf?_drawn hp play.taken play.conversation).trans ?_
    rw [treeOf?_eq (hprovider ▸ h.provider), htreeId]
    exact h.installed
  rw [h.advance_eq hm] at held placed ⊢
  exact presents_of_played played displays rfl held placed

theorem Proceeds.kept_owner (hm : m.Sound Context.ids) {id : String} {c : Conversation} {n : Node}
    (h : m.Proceeds ps id input c p tree n play r) :
    r.state.playerId = (m.advance ps id input).result.participants.player.id := by
  rw [h.advance_eq hm]
  exact owner_of_played (h.played hm) h.owner

variable {reply : Reply Answer}

theorem Asks.presents (hm : m.Sound f) (h : m.Asks reply)
    (hr : reply.result.response = .ok r) (hopen : r.isComplete = false) :
    ∃ tree n, reply.manager.Presents reply.result.participants r tree n := by
  cases h with
  | start ps providerId =>
    obtain ⟨p, tree, play, opens⟩ := start_ok hm hr
    exact ⟨tree, opens.presents hm hopen⟩
  | advance ps id input =>
    obtain ⟨c, p, tree, n, play, proceeds⟩ := advance_ok hm hr
    exact ⟨tree, proceeds.presents hm hopen⟩

theorem Asks.owner (hm : m.Sound Context.ids) (h : m.Asks reply)
    (hr : reply.result.response = .ok r) :
    r.state.playerId = reply.result.participants.player.id := by
  cases h with
  | start ps providerId =>
    obtain ⟨p, tree, play, opens⟩ := start_ok hm hr
    exact opens.owner hm
  | advance ps id input =>
    obtain ⟨c, p, tree, n, play, proceeds⟩ := advance_ok hm hr
    exact proceeds.kept_owner hm

theorem Asks.shown (hm : m.Sound Context.ids) (h : m.Asks reply)
    (hr : reply.result.response = .ok r) (hopen : r.isComplete = false) :
    ∃ tree n, reply.manager.Shown reply.result.participants r tree n := by
  obtain ⟨tree, n, presents⟩ := h.presents hm hr hopen
  exact ⟨tree, n, presents, h.owner hm hr⟩

end Played

/-- A line of input that passes all checks is a whole turn. -/
theorem exists_proceeds {f : Context → Unit} (hm : m.Sound f) {id : String} {c : Conversation}
    {n : Node} (hc : m.conversation? id = some c) (howner : c.playerId = ps.player.id)
    (hlive : c.isExpired m.now m.timeout = false) (htree : m.treeOf? c = some tree)
    (hn : tree.node? c.currentNodeId = some n) (input : String) :
    ∃ p play r, m.Proceeds ps id input c p tree n play r := by
  obtain ⟨p, hp, hinstalled⟩ := Option.bind_eq_some_iff.mp htree
  obtain ⟨-, hfit⟩ := hm.registry _ _ hp
  obtain ⟨play, r, hadvance, -⟩ := Provider.turn_played hfit m.forum ps
    (hfit.authored.holdsValid _ _ hinstalled).1 (hm.arena.isActive hc) hn input
  exact ⟨p, play, r, hc, howner, hlive, hp, hinstalled, hn, hadvance⟩

/-- What is answered, left and announced is what the turn makes of the line of input. -/
theorem Proceeds.turn_eq {α : Type} {f : Context → α} (hm : m.Sound f) {id : String}
    {c : Conversation} {n : Node} (h : m.Proceeds ps id input c p tree n play r) :
    let turn := (p.turn m.forum tree).advance (.ofConversation (c.touch m.now) ps p.taken) input
    turn.2 = .ok r ∧ r.state = turn.1.conversation ∧
      (m.advance ps id input).events = turn.1.events := by
  intro turn
  have left : turn.1 = play := congrArg Prod.fst h.advances
  rw [left, h.advance_eq hm]
  exact ⟨congrArg Prod.snd h.advances, (h.played hm).shows.state, rfl⟩

/-- What a line of input does after `r` has shown the open choices of its node `n`: a number
picks the choice that has it, any other number has them shown again, and when nothing was
shown whatever is said goes on. -/
structure Heeds (settings : Settings) (r : Response) (n : Node) (choices : List Choice)
    (input : String) (events : List Event) (r' : Response) : Prop where
  picks : ∀ k, Text.integer? (Text.lowercase (Text.trim input)) = some k → 1 ≤ k →
    k ≤ choices.length → ∃ c, choices[k.toNat - 1]? = some c ∧
      Event.picks events = [(r.state.currentNodeId, c.id)] ∧
      r'.Follows settings r.state.place (c.nextNodeId <|> n.nextNodeId)
  repeats : ∀ k, Text.integer? (Text.lowercase (Text.trim input)) = some k → choices ≠ [] →
    k < 1 ∨ choices.length < k →
      events = [] ∧ r'.isComplete = false ∧ r'.state.place = r.state.place ∧
      r'.labels = (choices.map Choice.id).zipIdx 1
  straight : choices = [] → Event.picks events = [] ∧ r'.Follows settings r.state.place n.nextNodeId

theorem Proceeds.heeds {f : Context → Unit} (hm : m.Sound f) {r' : Response} {n : Node}
    (h : m.Proceeds ps r.conversationId input r.state p tree n play r')
    (hpolicy : m.forum.settings.numericSelection = .ordinal) (hsettled : n.IsSettled)
    (rules : Rules) :
    Heeds m.forum.settings r n
      (n.choices.filter (Choice.passes rules (Context.assemble r.state ps))) input
      (m.advance ps r.conversationId input).events r' := by
  have going : r.state.isActive = true := hm.arena.isActive h.held
  let t : Turn := p.turn m.forum tree
  let found : Play := .ofConversation (r.state.touch m.now) ps p.taken
  have view : found.context.view = (Context.assemble r.state ps).view := rfl
  have asked := Turn.openChoices_settled (t := t) hsettled view rules found.taken
  have here : t.tree.node? found.conversation.currentNodeId = some n := h.node
  have ordinal : t.settings.numericSelection = .ordinal := hpolicy
  obtain ⟨answered, kept, events⟩ := h.turn_eq hm
  rw [events]
  generalize n.choices.filter (Choice.passes rules (Context.assemble r.state ps)) = choices
    at asked ⊢
  refine ⟨fun k hk hlow hhigh => ?_, fun k hk hsome hout => ?_, fun hnone => ?_⟩
  · have inside : k.toNat - 1 < choices.length := by omega
    have picked : selectChoice t.settings.numericSelection input choices =
        some choices[k.toNat - 1] := by
      rw [ordinal, selectChoice_ordinal hk, if_pos hlow, List.getElem?_eq_getElem inside]
    obtain ⟨hpicks, hfollows⟩ := Turn.advance_picks asked here going picked answered kept
    refine ⟨_, List.getElem?_eq_getElem inside, ?_, hfollows⟩
    rw [hpicks, ((h.valid hm).node _ n h.node).id_eq]
    rfl
  · have unpicked : selectChoice t.settings.numericSelection input choices = none := by
      rw [ordinal, selectChoice_ordinal hk]
      split
      · exact List.getElem?_eq_none (by omega)
      · rfl
    exact Turn.advance_repeats asked here going hsome unpicked answered
  · exact Turn.advance_straight asked here going hnone answered kept

/-- A call that leaves a conversation going has shown the choices of its node that are open to
the player handed back, numbered from one.  Until its state, its tree or the clock say
otherwise, the next line of input by that player is heeded accordingly. -/
theorem display (hm : m.Reachable)
    (hhooks : ∀ providerId p, m.providers.get? providerId = some p → p.KeepsIds)
    {reply : Reply Answer} (hreply : m.Asks reply) (hr : reply.result.response = .ok r)
    (hopen : r.isComplete = false) :
    let ps := reply.result.participants
    (∃ tree n, reply.manager.conversation? r.conversationId = some r.state ∧
      reply.manager.treeOf? r.state = some tree ∧
      tree.node? r.state.currentNodeId = some n ∧
      (n.IsSettled → ∀ rules,
        let choices := n.choices.filter (Choice.passes rules (Context.assemble r.state ps))
        r.labels = (choices.map Choice.id).zipIdx 1 ∧
        ∀ (next : Manager) (input : String), next.Reachable →
          next.conversation? r.conversationId = some r.state →
          next.treeOf? r.state = some tree →
          r.state.isExpired next.now next.timeout = false →
          next.forum.settings.numericSelection = .ordinal →
          ∃ r', (next.advance ps r.conversationId input).result.response = .ok r' ∧
            Heeds next.forum.settings r n choices input
              (next.advance ps r.conversationId input).events r')) ∧
    ∀ k : Int, Text.int64Min ≤ k → k ≤ Text.int64Max →
      Text.integer? (Text.lowercase (Text.trim (toString k))) = some k := by
  intro ps
  obtain ⟨tree, n, shown⟩ := hreply.shown (hm.sound.withIds hhooks) hr hopen
  refine ⟨⟨tree, n, shown.held, shown.placed, shown.node, fun hsettled rules =>
    ⟨shown.labels hsettled rules, ?_⟩⟩, fun k hlow hhigh => ?_⟩
  · intro next input hnext hheld hplaced hlive hpolicy
    have sound := hnext.sound
    obtain ⟨p, play, r', proceeds⟩ := exists_proceeds sound hheld shown.owner hlive hplaced
      shown.node input
    refine ⟨r', ?_, proceeds.heeds sound hpolicy hsettled rules⟩
    rw [proceeds.advance_eq sound]
    rfl
  · rw [Text.trim_numeral, Text.lowercase_numeral, Text.integer?_toString hlow hhigh]

theorem display_supper :
    let started := Inn.kitchen.start Inn.diner none
    let served := started.manager.advance started.result.participants "" "1"
    ∃ r, started.result.response = .ok r ∧ r.labels = [("stew", 1), ("leave", 2)] ∧
      Event.picks served.events = [("menu", "stew")] := by
  intro started served
  have shows : started.result.response.toOption.map
      (fun r => (r.conversationId, r.isComplete, r.state.currentNodeId, r.labels)) =
      some ("", false, "menu", [("stew", 1), ("leave", 2)]) := by
    decide +kernel
  have seated : (started.manager.conversation? "").map (fun c =>
      (started.manager.treeOf? c, c.isExpired started.manager.now started.manager.timeout)) =
      some (some Inn.supper, false) := by
    decide +kernel
  have settled : ∀ n, Inn.supper.node? "menu" = some n → n.IsSettled := by
    intro n hn
    obtain rfl := Option.some.inj hn
    simp [Node.IsSettled]
  have hooks : ∀ providerId p, Inn.kitchen.providers.get? providerId = some p → p.KeepsIds := by
    intro providerId p hp run hrun
    exact absurd hrun (hook_ne_some (by decide +kernel) hp run)
  have reached : started.manager.Reachable :=
    .call (.start Inn.diner none) (fun _ hp => absurd hp List.not_mem_nil) Inn.kitchen_reachable
  cases hr : started.result.response with
  | error e => exact absurd (hr ▸ shows) (by simp [Except.toOption])
  | ok r =>
    rw [hr] at shows
    obtain ⟨hid, hopen, hmenu, hlabels⟩ :
        r.conversationId = "" ∧ r.isComplete = false ∧ r.state.currentNodeId = "menu" ∧
          r.labels = [("stew", 1), ("leave", 2)] := by
      simpa [Except.toOption] using shows
    obtain ⟨⟨tree, n, hheld, hplaced, hn, hshown⟩, hnumerals⟩ :=
      display Inn.kitchen_reachable hooks (.start Inn.diner none) hr hopen
    rw [hid] at hheld
    rw [hheld, Option.map_some, hplaced] at seated
    obtain ⟨rfl, hlive⟩ : tree = Inn.supper ∧
        r.state.isExpired started.manager.now started.manager.timeout = false := by
      simpa using seated
    obtain ⟨hnumbered, hnext⟩ := hshown (settled n (hmenu ▸ hn))
      (Inn.cook.turn started.manager.forum Inn.supper).rules
    obtain ⟨r', -, heeds⟩ := hnext started.manager "1" reached (hid ▸ hheld) hplaced hlive
      (by decide +kernel)
    obtain ⟨hlow, hhigh⟩ : Text.int64Min ≤ 1 ∧ (1 : Int) ≤ Text.int64Max := by decide
    generalize n.choices.filter _ = choices at hnumbered heeds
    have two : ["stew", "leave"] = choices.map Choice.id := by
      have ids := congrArg (List.map Prod.fst) (hlabels.symm.trans hnumbered)
      simpa using ids
    obtain ⟨c, hc, hpicks, -⟩ := heeds.picks 1 (hnumerals 1 hlow hhigh) (by decide) (by
      have many := congrArg List.length two
      simp at many
      omega)
    have stew : c.id = "stew" := by
      have here : choices[0]? = some c := hc
      have first := congrArg (·[0]?) two
      simpa [here] using first.symm
    rw [hmenu, stew, hid] at hpicks
    exact ⟨r, rfl, hlabels, hpicks⟩

end Manager

end Parley
