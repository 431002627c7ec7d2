/-
The history of a conversation is a walk of its tree.

A turn keeps the position of a conversation in its history, in the conversation and in the
context, and finds the next one by a choice, whose own target may be missing or empty, or by
the node.  `Tree.Walk` says how a history grows, each step by a line of input that led there:

* `Line.Leads` — where a line of input leads from a node;
* `Turn.advance_moves` — a turn stays where it is, arrives where its line leads, or ends
  where its line leads nowhere;
* `Manager.Opens.place`, `Manager.Proceeds.moves` — so it is with the turns of calls;
* `Manager.Journey` — a run of turns of one conversation on one tree;
* `Manager.walk` — its history is a walk of the tree that has come to the current node, which
  is an end only when the conversation is over.

Design notes: what was open to the player when a line came is known only from the play that
the turn began with, so a walk remembers its lines together with their plays.
-/
import Parley.Proofs.Continuation
import Parley.Proofs.Manager.Turns

namespace Parley

/-- A line of input, the turn that it was given to and the play that it found. -/
structure Line where
  turn : Turn
  play : Play
  input : String

namespace Line

/-- The choices of a node that were open when the line came. -/
def openChoices (l : Line) (n : Node) : List Choice :=
  (l.turn.openChoices l.play.context n.choices l.play.taken).1

/-- Where a line leads from a node: to the target of the choice that it picked, or, when no
choice was open, straight on. -/
inductive Leads (l : Line) (n : Node) : Option String → Prop where
  | chosen {c : Choice} (hmem : c ∈ n.choices)
      (hpicked : selectChoice l.turn.settings.numericSelection l.input (l.openChoices n) =
        some c) : Leads l n (c.nextNodeId <|> n.nextNodeId)
  | straight (hclosed : l.openChoices n = []) : Leads l n n.nextNodeId

end Line

/-- The nodes that were entered, and the one where the conversation is. -/
def Conversation.place (c : Conversation) : List String × String := (c.history, c.currentNodeId)

/-- What a line does to the place of a conversation at `n`. -/
inductive Line.Moves (l : Line) (n : Node) (c : Conversation) : Prop where
  | stays (hplace : c.place = l.play.conversation.place) (hactive : c.isActive = true)
  | arrives {target : String} {n' : Node} (hleads : l.Leads n (some target))
      (hnonempty : target ≠ "") (hn : l.turn.tree.node? target = some n')
      (hplace : c.place = (l.play.conversation.history ++ [target], target))
      (hactive : c.isActive = !n'.isEnd)
  | departs {target : Option String} (hleads : l.Leads n target)
      (hnowhere : target = none ∨ target = some "")
      (hplace : c.place = l.play.conversation.place) (hactive : c.isActive = false)

/-! ### One turn -/

namespace Turn

variable {t : Turn} {p : Play} {r : Response}

theorem enter_conversation (p : Play) (nodeId : String) (n : Node) :
    (t.enter p nodeId n).conversation = (p.moveTo nodeId).conversation := by
  rw [enter]
  simp only
  split <;> rfl

theorem conclude_place (p : Play) (now : Instant) :
    (p.conclude now).conversation.place = p.conversation.place := by
  rw [Play.conclude, Conversation.conclude.eq_def, Conversation.finish?]
  cases p.conversation.isActive <;> rfl

theorem conclude_isActive (p : Play) (now : Instant) :
    (p.conclude now).conversation.isActive = false := by
  rw [Play.conclude, Conversation.conclude.eq_def, Conversation.finish?]
  cases h : p.conversation.isActive with
  | true => rfl
  | false => exact h

theorem farewell_place (t : Turn) (p : Play) :
    (t.farewell p).1.conversation.place = p.conversation.place :=
  conclude_place p.sync t.rules.now

/-- A node that is entered is the last of the history and the current one, and the
conversation goes on unless it is an end. -/
theorem enter_place (hactive : p.conversation.isActive = true) (nodeId : String) (n : Node) :
    (t.enter p nodeId n).conversation.place = (p.conversation.history ++ [nodeId], nodeId) ∧
      (t.enter p nodeId n).conversation.isActive = true := by
  rw [enter_conversation]
  exact ⟨rfl, hactive⟩

theorem target_eq_none {target : Option String} (h : target.filter (!·.isEmpty) = none) :
    target = none ∨ target = some "" := by
  cases target with
  | none => exact .inl rfl
  | some nodeId =>
    have hempty := Option.filter_eq_none_iff.mp h nodeId rfl
    rw [Bool.not_eq_true, Bool.not_eq_false', String.isEmpty_iff] at hempty
    exact .inr (congrArg some hempty)

theorem target_eq_some {target : Option String} {nodeId : String}
    (h : target.filter (!·.isEmpty) = some nodeId) : target = some nodeId ∧ nodeId ≠ "" := by
  obtain ⟨hsome, hnonempty⟩ := Option.filter_eq_some_iff.mp h
  refine ⟨hsome, fun hempty => ?_⟩
  subst hempty
  exact absurd hnonempty (by decide)

/-- Going on to a target arrives there, unless there is none. -/
theorem proceed_place (hactive : p.conversation.isActive = true) {target : Option String}
    {input : String} (h : (t.proceed p target input).2 = .ok r) :
    (∃ nodeId n, target = some nodeId ∧ nodeId ≠ "" ∧ t.tree.node? nodeId = some n ∧
      (t.proceed p target input).1.conversation.place =
        (p.conversation.history ++ [nodeId], nodeId) ∧
      (t.proceed p target input).1.conversation.isActive = !n.isEnd) ∨
    (target = none ∨ target = some "") ∧
      (t.proceed p target input).1.conversation.place = p.conversation.place ∧
      (t.proceed p target input).1.conversation.isActive = false := by
  rw [proceed] at h ⊢
  cases hfilter : target.filter (!·.isEmpty) with
  | none =>
    exact .inr ⟨target_eq_none hfilter, farewell_place t p, conclude_isActive p.sync t.rules.now⟩
  | some nodeId =>
    obtain ⟨htarget, hnonempty⟩ := target_eq_some hfilter
    rw [hfilter] at h
    cases hn : t.tree.node? nodeId with
    | none =>
      simp only [node, hn] at h
      exact absurd h (by simp)
    | some n =>
      obtain ⟨hplace, hentered⟩ := enter_place (t := t) hactive nodeId n
      refine .inl ⟨nodeId, n, htarget, hnonempty, hn, ?_⟩
      simp only [node_eq hn]
      cases n.isEnd with
      | true => exact ⟨(conclude_place _ _).trans hplace, conclude_isActive _ _⟩
      | false => exact ⟨hplace, hentered⟩

/-- A new conversation is at the start node. -/
theorem begin_place (hactive : p.conversation.isActive = true)
    (h : (t.begin p).2 = .ok r) :
    ∃ n, t.tree.node? p.conversation.currentNodeId = some n ∧
      (t.begin p).1.conversation.place =
        (p.conversation.history ++ [p.conversation.currentNodeId],
          p.conversation.currentNodeId) ∧
      (t.begin p).1.conversation.isActive = !n.isEnd := by
  rw [Turn.begin] at h ⊢
  cases hn : t.tree.node? p.conversation.currentNodeId with
  | none =>
    simp only [node, hn] at h
    exact absurd h (by simp)
  | some n =>
    obtain ⟨hplace, hentered⟩ := enter_place (t := t) hactive p.conversation.currentNodeId n
    refine ⟨n, rfl, ?_⟩
    simp only [node_eq hn]
    cases n.isEnd with
    | true => exact ⟨(conclude_place _ _).trans hplace, conclude_isActive _ _⟩
    | false => exact ⟨hplace, hentered⟩

/-- Going on to where a line leads. -/
theorem proceed_moves {l : Line} {n : Node} {target : Option String} {input : String}
    (hleads : l.Leads n target) (htree : l.turn.tree = t.tree)
    (hplace : p.conversation.place = l.play.conversation.place)
    (hactive : p.conversation.isActive = true) (h : (t.proceed p target input).2 = .ok r) :
    l.Moves n (t.proceed p target input).1.conversation := by
  have history : p.conversation.history = l.play.conversation.history := congrArg Prod.fst hplace
  rcases proceed_place hactive h with
    ⟨nodeId, n', rfl, hnonempty, hn', hgo, hgoes⟩ | ⟨hnowhere, hstay, hends⟩
  · rw [history] at hgo
    exact .arrives hleads hnonempty (htree ▸ hn') hgo hgoes
  · exact .departs hleads hnowhere (hstay.trans hplace) hends

theorem advance_moves {n : Node} (hn : t.tree.node? p.conversation.currentNodeId = some n)
    (hactive : p.conversation.isActive = true) {input : String}
    (h : (t.advance p input).2 = .ok r) :
    Line.Moves ⟨t, p, input⟩ n (t.advance p input).1.conversation := by
  rcases advance_cases hn input with ⟨hclosed, hgo⟩ | ⟨c, hpicked, hgo⟩ | ⟨-, -, hgo⟩
  · rw [hgo] at h ⊢
    exact proceed_moves (l := ⟨t, p, input⟩) (.straight hclosed) rfl rfl hactive h
  · rw [hgo] at h ⊢
    exact proceed_moves (l := ⟨t, p, input⟩)
      (.chosen (mem_openChoices (selectChoice_mem hpicked)) hpicked) rfl rfl hactive h
  · rw [hgo]
    exact .stays rfl hactive

end Turn

/-! ### Walks -/

/-- A history that begins at the start node and has come to a node, each step by one of the
lines, which found the history up to there. -/
inductive Tree.Walk (tree : Tree) (lines : List Line) : List String → String → Prop where
  | start {n : Node} (hn : tree.node? tree.startNodeId = some n) :
      Walk tree lines [tree.startNodeId] tree.startNodeId
  | step {history : List String} {nodeId target : String} {n n' : Node} {l : Line}
      (h : Walk tree lines history nodeId) (hn : tree.node? nodeId = some n)
      (hend : n.isEnd = false) (hl : l ∈ lines) (htree : l.turn.tree = tree)
      (hplace : l.play.conversation.place = (history, nodeId))
      (hleads : l.Leads n (some target)) (hnonempty : target ≠ "")
      (hn' : tree.node? target = some n') :
      Walk tree lines (history ++ [target]) target

namespace Tree.Walk

variable {tree : Tree} {lines lines' : List Line} {history : List String} {nodeId : String}

theorem mono (h : tree.Walk lines history nodeId) (hsub : lines ⊆ lines') :
    tree.Walk lines' history nodeId := by
  induction h with
  | start hn => exact .start hn
  | step _ hn hend hl htree hplace hleads hnonempty hn' ih =>
    exact .step ih hn hend (hsub hl) htree hplace hleads hnonempty hn'

theorem head? (h : tree.Walk lines history nodeId) :
    history.head? = some tree.startNodeId := by
  induction h with
  | start => rfl
  | step _ _ _ _ _ _ _ _ _ ih => rw [List.head?_append, ih, Option.some_or]

theorem getLast? (h : tree.Walk lines history nodeId) : history.getLast? = some nodeId := by
  cases h with
  | start => rfl
  | step => exact List.getLast?_concat

theorem node (h : tree.Walk lines history nodeId) :
    ∀ visited ∈ history, ∃ n, tree.node? visited = some n := by
  induction h with
  | start hn =>
    intro visited hvisited
    obtain rfl := List.mem_singleton.mp hvisited
    exact ⟨_, hn⟩
  | step _ _ _ _ _ _ _ _ hn' ih =>
    intro visited hvisited
    rcases List.mem_append.mp hvisited with hvisited | hvisited
    · exact ih visited hvisited
    · obtain rfl := List.mem_singleton.mp hvisited
      exact ⟨_, hn'⟩

/-- Between two nodes of a walk there was a line that led from the one to the other. -/
theorem between (h : tree.Walk lines history nodeId) {before after : List String} {a b : String}
    (heq : history = before ++ a :: b :: after) :
    ∃ n, tree.node? a = some n ∧ n.isEnd = false ∧
      ∃ l ∈ lines, l.turn.tree = tree ∧ l.play.conversation.history = before ++ [a] ∧
        l.Leads n (some b) ∧ b ≠ "" := by
  induction h generalizing after with
  | start =>
    have lengths := congrArg List.length heq
    rw [List.length_singleton, List.length_append, List.length_cons, List.length_cons] at lengths
    omega
  | @step history nodeId target n n' l h hn hend hl htree hplace hleads hnonempty _ ih =>
    -- The step asked for is the last one or was taken before.
    rcases List.eq_nil_or_concat after with rfl | ⟨after, last, rfl⟩
    · rw [List.append_cons before a] at heq
      obtain ⟨hhistory, hlast⟩ := List.append_inj' heq rfl
      obtain rfl := List.singleton_inj.mp hlast
      have here := h.getLast?
      rw [hhistory, List.getLast?_concat] at here
      obtain rfl := Option.some.inj here
      exact ⟨n, hn, hend, l, hl, htree, (congrArg Prod.fst hplace).trans hhistory, hleads,
        hnonempty⟩
    · rw [List.concat_eq_append, ← List.cons_append, ← List.cons_append, ← List.append_assoc]
        at heq
      exact ih (List.append_inj' heq rfl).1

end Tree.Walk

/-! ### Runs of turns -/

namespace Manager

section Turns

variable {α : Type} {f : Context → α} {m : Manager} {ps : Participants} {p : Provider}
  {tree : Tree} {play : Play} {r : Response}

/-- The first turn of a conversation comes to the start node. -/
theorem Opens.place {providerId : Option String} (h : m.Opens ps providerId p tree play r) :
    ∃ n, tree.node? tree.startNodeId = some n ∧
      play.conversation.place = ([tree.startNodeId], tree.startNodeId) ∧
      play.conversation.isActive = !n.isEnd := by
  have begun := Turn.begin_place (t := p.turn m.forum tree)
    (p := .ofConversation (p.newConversation m.forum ps tree) ps p.taken) (r := r) rfl
    (congrArg Prod.snd h.begins)
  rwa [h.begins] at begun

/-- A later turn goes where its line of input leads. -/
theorem Proceeds.moves (hm : m.Sound f) {id input : String} {c : Conversation} {n : Node}
    (h : m.Proceeds ps id input c p tree n play r) :
    Line.Moves ⟨p.turn m.forum tree, .ofConversation (c.touch m.now) ps p.taken, input⟩ n
      play.conversation := by
  have going : c.isActive = true := hm.arena.isActive h.held
  have advanced := Turn.advance_moves (t := p.turn m.forum tree)
    (p := .ofConversation (c.touch m.now) ps p.taken) (r := r) h.node going
    (congrArg Prod.snd h.advances)
  rwa [h.advances] at advanced

end Turns

/-- A run of turns of one conversation on `tree`: the manager after it, the last response and
the lines of input that were answered. -/
inductive Journey (tree : Tree) : Manager → Response → List Line → Prop where
  | start {m : Manager} {ps : Participants} {providerId : Option String} {p : Provider}
      {r : Response} (hm : m.Reachable) (hnew : m.arena.contains m.forum.ids.next = false)
      (hresolve : m.resolve ps.npc.id providerId = .ok p)
      (htree : p.treeOf ps.npc.id = .ok tree)
      (hr : (m.start ps providerId).result.response = .ok r) :
      Journey tree (m.start ps providerId).manager r []
  /-- Between the turns anything may be called that leaves the conversation as it is, or ends
  it. -/
  | meanwhile {m : Manager} {r : Response} {lines : List Line} (c : Call)
      (h : Journey tree m r lines) (hc : ∀ p ∈ c.providers, p.Authored)
      (hsame : ∀ c', (m.perform c).1.conversation? r.conversationId = some c' →
        m.conversation? r.conversationId = some c') :
      Journey tree (m.perform c).1 r lines
  /-- The next line of input finds the conversation with a provider that has `tree` for it. -/
  | turn {m : Manager} {r r' : Response} {lines : List Line} {ps : Participants}
      {input : String} {c : Conversation} {p : Provider} (h : Journey tree m r lines)
      (hc : m.conversation? r.conversationId = some c)
      (hp : m.providers.get? c.providerId = some p) (htree : p.trees.get? c.treeId = some tree)
      (hr' : (m.advance ps r.conversationId input).result.response = .ok r') :
      Journey tree (m.advance ps r.conversationId input).manager r'
        (lines ++ [⟨p.turn m.forum tree, .ofConversation (c.touch m.now) ps p.taken, input⟩])

variable {m : Manager} {tree : Tree} {r : Response} {lines : List Line}

/-- How a conversation has ended where it is: at an end, or by a line that led nowhere. -/
def Stops (tree : Tree) (lines : List Line) (c : Conversation) (n : Node) : Prop :=
  n.isEnd = true ∨ ∃ l ∈ lines, l.turn.tree = tree ∧ l.play.conversation.place = c.place ∧
    ∃ target, l.Leads n target ∧ (target = none ∨ target = some "")

/-- What holds of a journey between its turns. -/
structure Journey.Kept (tree : Tree) (m : Manager) (r : Response) (lines : List Line) :
    Prop where
  reachable : m.Reachable
  held : ∀ c, m.conversation? r.conversationId = some c → c = r.state
  path : tree.Walk lines r.state.history r.state.currentNodeId
  node : ∃ n, tree.node? r.state.currentNodeId = some n ∧
    (r.state.isActive = true → n.isEnd = false) ∧
    (r.state.isActive = false → Stops tree lines r.state n)
  complete : r.isComplete = !r.state.isActive

theorem Journey.Kept.start {ps : Participants} {providerId : Option String} {p : Provider}
    (hm : m.Reachable) (hnew : m.arena.contains m.forum.ids.next = false)
    (hresolve : m.resolve ps.npc.id providerId = .ok p) (htree : p.treeOf ps.npc.id = .ok tree)
    (hr : (m.start ps providerId).result.response = .ok r) :
    Kept tree (m.start ps providerId).manager r [] := by
  have reachable : (m.start ps providerId).manager.Reachable :=
    hm.perform (.start ps providerId) rfl
  obtain ⟨p', tree', play, opens⟩ := start_ok hm.sound hr
  obtain rfl : p' = p := Except.ok.inj (opens.resolve.symm.trans hresolve)
  obtain rfl : tree' = tree := Except.ok.inj (opens.mapped.symm.trans htree)
  have played := opens.played hm.sound
  have shown : r.state = play.conversation := played.shows.state
  obtain ⟨n, hn, hplace, hactive⟩ := shown ▸ opens.place
  obtain ⟨hhistory, hcurrent⟩ := Prod.mk.inj hplace
  refine ⟨reachable, fun c hc => ?_, ?_, ⟨n, ?_, fun hgoes => ?_, fun hends => .inl ?_⟩,
    shown ▸ played.shows.isComplete⟩
  · rw [shown]
    exact opens.eq_of_held hm.sound hnew hc
  · rw [hhistory, hcurrent]
    exact .start hn
  · rw [hcurrent]
    exact hn
  · rw [hgoes] at hactive
    exact Bool.not_eq_true' _ ▸ hactive.symm
  · rw [hends] at hactive
    simpa using hactive

theorem Journey.Kept.turn (h : Kept tree m r lines) {ps : Participants} {input : String}
    {c : Conversation} {p : Provider} {r' : Response}
    (hc : m.conversation? r.conversationId = some c)
    (hp : m.providers.get? c.providerId = some p) (htree : p.trees.get? c.treeId = some tree)
    (hr' : (m.advance ps r.conversationId input).result.response = .ok r') :
    Kept tree (m.advance ps r.conversationId input).manager r'
      (lines ++ [⟨p.turn m.forum tree, .ofConversation (c.touch m.now) ps p.taken, input⟩]) := by
  have sound := h.reachable.sound
  have reachable : (m.advance ps r.conversationId input).manager.Reachable :=
    h.reachable.perform (.advance ps r.conversationId input) rfl
  obtain ⟨c', p', tree', n, play, proceeds⟩ := advance_ok sound hr'
  obtain rfl : c' = c := Option.some.inj (proceeds.held.symm.trans hc)
  obtain rfl : p' = p := Option.some.inj (proceeds.provider.symm.trans hp)
  obtain rfl : tree' = tree := Option.some.inj (proceeds.installed.symm.trans htree)
  obtain rfl : c' = r.state := h.held c' hc
  have played := proceeds.played sound
  have shown : r'.state = play.conversation := played.shows.state
  obtain ⟨n', hn', hgoes, -⟩ := h.node
  obtain rfl : n' = n := Option.some.inj (hn'.symm.trans proceeds.node)
  have going : r.state.isActive = true := sound.arena.isActive proceeds.held
  have live : n'.isEnd = false := hgoes going
  let l : Line := ⟨p'.turn m.forum tree', .ofConversation (r.state.touch m.now) ps p'.taken, input⟩
  have moves : l.Moves n' r'.state := shown ▸ proceeds.moves sound
  have longer := h.path.mono (List.subset_append_left lines [l])
  have last : l ∈ lines ++ [l] := List.mem_append_right _ List.mem_cons_self
  refine ⟨reachable, fun c hc => shown.symm ▸ proceeds.eq_of_held sound hc, ?_, ?_,
    shown ▸ played.shows.isComplete⟩
  · cases moves with
    | stays hplace | departs _ _ hplace =>
      obtain ⟨hhistory, hcurrent⟩ := Prod.mk.inj hplace
      rw [hhistory, hcurrent]
      exact longer
    | arrives hleads hnonempty hn hplace =>
      obtain ⟨hhistory, hcurrent⟩ := Prod.mk.inj hplace
      rw [hhistory, hcurrent]
      exact .step longer hn' live last rfl rfl hleads hnonempty hn
  · cases moves with
    | stays hplace hactive =>
      obtain ⟨-, hcurrent⟩ := Prod.mk.inj hplace
      refine ⟨n', hcurrent ▸ hn', fun _ => live, fun hends => ?_⟩
      rw [hactive] at hends
      exact absurd hends (by simp)
    | @arrives target n'' _ _ hn hplace hactive =>
      obtain ⟨-, hcurrent⟩ := Prod.mk.inj hplace
      refine ⟨n'', hcurrent ▸ hn, fun hgoes => ?_, fun hends => .inl ?_⟩
      · rw [hgoes] at hactive
        simpa using hactive.symm
      · rw [hends] at hactive
        simpa using hactive
    | departs hleads hnowhere hplace hactive =>
      obtain ⟨-, hcurrent⟩ := Prod.mk.inj hplace
      refine ⟨n', hcurrent ▸ hn', fun _ => live, fun _ => .inr ⟨l, last, rfl, hplace.symm, ?_⟩⟩
      exact ⟨_, hleads, hnowhere⟩

theorem Journey.kept (h : Journey tree m r lines) : Kept tree m r lines := by
  induction h with
  | start hm hnew hresolve htree hr => exact .start hm hnew hresolve htree hr
  | meanwhile c _ hc hsame ih =>
    exact ⟨.call c hc ih.reachable, fun c' hc' => ih.held c' (hsame c' hc'), ih.path, ih.node,
      ih.complete⟩
  | turn _ hc hp htree hr' ih => exact ih.turn hc hp htree hr'

/-- The history of a conversation begins at the start node and ends at the current one.  All
its nodes are of the tree, and from each to the next a line of input led that found the
history up to there.  Every node but the last is left behind, so it is no end; the last is
none either while the conversation goes on, and when it is over the last is an end or was
left for nowhere. -/
theorem walk (h : Journey tree m r lines) :
    r.state.history.head? = some tree.startNodeId ∧
    r.state.history.getLast? = some r.state.currentNodeId ∧
    (∀ nodeId ∈ r.state.history, ∃ n, tree.node? nodeId = some n) ∧
    (∀ before a b after, r.state.history = before ++ a :: b :: after →
      ∃ n, tree.node? a = some n ∧ n.isEnd = false ∧
        ∃ l ∈ lines, l.turn.tree = tree ∧ l.play.conversation.history = before ++ [a] ∧
          l.Leads n (some b) ∧ b ≠ "") ∧
    (∃ n, tree.node? r.state.currentNodeId = some n ∧
      (r.isComplete = false → n.isEnd = false) ∧
      (r.isComplete = true → n.isEnd = true ∨
        ∃ l ∈ lines, l.turn.tree = tree ∧ l.play.conversation.history = r.state.history ∧
          ∃ target, l.Leads n target ∧ (target = none ∨ target = some ""))) ∧
    ∀ c, m.conversation? r.conversationId = some c → c = r.state := by
  have kept := h.kept
  obtain ⟨n, hn, hgoes, hends⟩ := kept.node
  have complete : r.isComplete = !r.state.isActive := kept.complete
  refine ⟨kept.path.head?, kept.path.getLast?, kept.path.node,
    fun _ _ _ _ heq => kept.path.between heq, ⟨n, hn, fun hopen => ?_, fun hover => ?_⟩, kept.held⟩
  · exact hgoes (by simpa [complete] using hopen)
  · rcases hends (by simpa [complete] using hover) with hend | ⟨l, hl, htree, hplace, hleads⟩
    · exact .inl hend
    · exact .inr ⟨l, hl, htree, congrArg Prod.fst hplace, hleads⟩

/-- The guest orders the stew and is led to the table, where the supper ends. -/
theorem walk_supper :
    let started := Inn.kitchen.start Inn.diner none
    let served := started.manager.advance started.result.participants "" "1"
    ∃ r, served.result.response = .ok r ∧ r.state.history = ["menu", "table"] ∧
      ∃ l : Line, l.input = "1" ∧ l.play.conversation.history = ["menu"] ∧
        ∃ n, Inn.supper.node? "menu" = some n ∧ l.Leads n (some "table") := by
  intro started served
  have named : started.result.response.toOption.map Response.conversationId = some "" := by
    decide +kernel
  have seated : (started.manager.conversation? "").bind started.manager.treeOf? =
      some Inn.supper := by
    decide +kernel
  have visited : served.result.response.toOption.map (·.state.history) =
      some ["menu", "table"] := by
    decide +kernel
  obtain ⟨c, hc, hseated⟩ := Option.bind_eq_some_iff.mp seated
  obtain ⟨p, hp, htree⟩ := Option.bind_eq_some_iff.mp hseated
  cases hr : started.result.response with
  | error e => exact absurd (hr ▸ named) (by simp [Except.toOption])
  | ok r =>
    cases hr' : served.result.response with
    | error e => exact absurd (hr' ▸ visited) (by simp [Except.toOption])
    | ok r' =>
      rw [hr] at named
      rw [hr'] at visited
      have hid : r.conversationId = "" := Option.some.inj named
      have begun : Journey Inn.supper started.manager r [] :=
        .start (p := Inn.cook) Inn.kitchen_reachable (by decide +kernel) rfl (by decide +kernel) hr
      have found : started.manager.conversation? r.conversationId = some c := by
        rw [hid]
        exact hc
      have answered : (started.manager.advance started.result.participants r.conversationId
          "1").result.response = .ok r' := by
        rw [hid]
        exact hr'
      have gone := begun.turn found hp htree answered
      have history : r'.state.history = ["menu", "table"] := Option.some.inj visited
      obtain ⟨-, -, -, hstep, -⟩ := walk gone
      obtain ⟨n, hn, -, l, hl, -, hmenu, hleads, -⟩ := hstep [] "menu" "table" [] history
      obtain rfl := List.mem_singleton.mp hl
      exact ⟨r', rfl, history, _, rfl, hmenu, n, hn, hleads⟩

end Manager

end Parley
