/-
Providers of dialogue: authored trees, and which NPC speaks from which.

A provider holds only content.  The conversations, the clock and the settings are
shared by all providers in a `Forum`, and every call gives back what it changed
together with the events it announced, in order.

* `Provider.replaceTree` — only valid trees are installed;
* `Provider.prepare` — loads a directory; the configuration has the last word on
  which tree an NPC speaks from;
* `Provider.start`, `Provider.advance` — a conversation begins, or goes on by one
  line of input.

Design notes: a turn that cannot run must not count as activity, so everything is
looked up before the conversation is touched.
-/
import Parley.Arena
import Parley.Config
import Parley.Content

namespace Parley

inductive ProviderKind where
  | cannedBranching
  | generative
  | custom
  deriving DecidableEq, Inhabited

namespace ProviderKind

def name : ProviderKind → String
  | cannedBranching => "canned_branching"
  | generative => "generative"
  | custom => "custom"

def ofName? (s : String) : Option ProviderKind :=
  [cannedBranching, generative, custom].find? (·.name = s)

def toJson (k : ProviderKind) : Json := .str k.name

def decode (d : Document) : Option ProviderKind := d.caseName?.bind ofName?

end ProviderKind

/-- Ids for new conversations: the next one is the name of the number issued. -/
structure IdSupply where
  name : Nat → String
  issued : Nat := 0

namespace IdSupply

def next (ids : IdSupply) : String := ids.name ids.issued

def advance (ids : IdSupply) : IdSupply := { ids with issued := ids.issued + 1 }

end IdSupply

/-- What all providers share. -/
structure Forum where
  arena : Arena := {}
  ids : IdSupply
  now : Instant
  settings : Settings

/-- A provider of authored dialogue. -/
structure Provider where
  id : String := "canned"
  name : String := "Canned Branching Dialogue"
  trees : Dict Tree := ∅
  /-- Trees of NPCs, by id. -/
  npcTrees : Dict String := ∅
  hook : Option Hook := none
  /-- The random samples, and how many have been taken. -/
  sample : Nat → Float := fun _ => 0.5
  taken : Nat := 0

/-- What a call of a provider changed, and its result. -/
structure Outcome (α : Type) where
  provider : Provider
  forum : Forum
  participants : Participants
  events : List Event
  calls : List (String × Json)
  result : Except DialogueError α

namespace Provider

def kind (_ : Provider) : ProviderKind := .cannedBranching

/-- The samples of a list, over and over; one half throughout if it is empty. -/
def cycle (samples : List Float) (n : Nat) : Float :=
  (samples[n % samples.length]?).getD 0.5

section Trees

/-- Install a valid tree, in place of any with the same id, which is given back. -/
def replaceTree (p : Provider) (t : Tree) : Except ContentError (Provider × Option Tree) :=
  t.validate.map fun _ => ({ p with trees := p.trees.insert t.id t }, p.trees.get? t.id)

def mapNpc (p : Provider) (npcId treeId : String) : Provider :=
  { p with npcTrees := p.npcTrees.insert npcId treeId }

/-- Forget the tree of an NPC, which is given back. -/
def unmapNpc (p : Provider) (npcId : String) : Provider × Option String :=
  ({ p with npcTrees := p.npcTrees.erase npcId }, p.npcTrees.get? npcId)

def canHandle (p : Provider) (npcId : String) : Bool := p.npcTrees.contains npcId

def treeOf (p : Provider) (npcId : String) : Except DialogueError Tree :=
  match p.npcTrees.get? npcId with
  | none => .error (.noTreeMapped npcId)
  | some treeId =>
    match p.trees.get? treeId with
    | none => .error (.treeNotFound treeId)
    | some t => .ok t

/-- Install a tree and give it the NPCs it claims. -/
def adopt (p : Provider) (t : Tree) : Provider :=
  let p := t.declaredNpcs.foldl (fun p npcId => p.mapNpc npcId t.id) p
  -- Trees that have been loaded are valid, so this one is always installed.
  match p.replaceTree t with
  | .ok (p, _) => p
  | .error _ => p

/-- Load content and apply the configuration; a missing directory holds nothing. -/
def prepare (p : Provider) (config : Config) (content : Option Directory) : Provider :=
  let trees := match content with
    | some d => d.load.1
    | none => []
  config.npcTrees.entries.foldl (fun p (npcId, treeId) => p.mapNpc npcId treeId)
    (trees.foldl adopt p)

end Trees

section Conversations

def rules (p : Provider) (now : Instant) : Rules := { now, sample := p.sample, hook := p.hook }

/-- Nothing has changed. -/
def refuse {α : Type} (p : Provider) (f : Forum) (ps : Participants) (e : DialogueError) :
    Outcome α :=
  { provider := p, forum := f, participants := ps, events := [], calls := [], result := .error e }

/-- Begin a conversation; it is held only if it is still going on. -/
def start (p : Provider) (f : Forum) (ps : Participants) : Outcome Response :=
  match p.treeOf ps.npc.id with
  | .error e => p.refuse f ps e
  | .ok tree =>
    let c := Conversation.new f.ids.next ps.player.id ps.npc.id p.id tree f.now
    let started := Event.ofConversation c f.now (.conversationStarted p.id tree.id tree.startNodeId)
    let turn : Turn := { tree, rules := p.rules f.now, settings := f.settings }
    let (play, result) := turn.begin (Play.ofConversation c ps p.taken)
    -- The id is spent whether or not the turn can run.
    let f := { f with ids := f.ids.advance }
    let p := { p with taken := play.taken }
    -- The start is announced before anything that happens at the start node.
    let events := started :: play.events
    match result with
    | .error e => { p.refuse f ps e with events, calls := play.calls }
    | .ok response =>
      let f := if play.conversation.isActive then
          { f with arena := f.arena.insert play.conversation }
        else f
      { provider := p
        forum := f
        participants := play.context.releasePlayer ps
        events
        calls := play.calls
        result := .ok response }

/-- Apply a line of input to a conversation that can take it. -/
def runTurn (p : Provider) (f : Forum) (ps : Participants) (tree : Tree) (c : Conversation)
    (input : String) : Outcome Response :=
  let turn : Turn := { tree, rules := p.rules f.now, settings := f.settings }
  -- Any line counts as activity, also one that is not understood.
  let (play, result) := turn.advance (Play.ofConversation (c.touch f.now) ps p.taken) input
  let p := { p with taken := play.taken }
  let arena := f.arena.update c.id play.conversation
  match result with
  | .error e =>
    { p.refuse { f with arena } ps e with events := play.events, calls := play.calls }
  | .ok response =>
    let arena := if play.conversation.isActive then arena else arena.remove c.id
    { provider := p
      forum := { f with arena }
      participants := play.context.releasePlayer ps
      events := play.events
      calls := play.calls
      result := .ok response }

/-- One line of input for a conversation of this provider. -/
def advance (p : Provider) (f : Forum) (ps : Participants) (id input : String) :
    Outcome Response :=
  match f.arena.get? id with
  | none => p.refuse f ps (.conversationNotFound id)
  | some c =>
    -- A conversation of another provider is as good as none.
    if !c.isActive || c.providerId != p.id then p.refuse f ps (.conversationNotFound id)
    else if c.playerId != ps.player.id then p.refuse f ps (.ownershipMismatch id ps.player.id)
    else if c.isExpired f.now f.settings.timeout then
      { p.refuse { f with arena := f.arena.remove id } ps (.timeout id) with
        events := (c.conclude .timeout f.now).2 }
    else
      match p.trees.get? c.treeId with
      | none => p.refuse f ps (.treeNotFound c.treeId)
      | some tree =>
        if (tree.node? c.currentNodeId).isNone then
          p.refuse f ps (.nodeNotFound tree.id c.currentNodeId)
        else p.runTurn f ps tree c input

/-- The conversation, if it is one of this provider. -/
def conversation? (p : Provider) (f : Forum) (id : String) : Option Conversation :=
  (f.arena.get? id).filter fun c => c.providerId == p.id

/-- End a conversation of this provider; whether there was one. -/
def finish (p : Provider) (f : Forum) (id : String) : Forum × List Event × Bool :=
  match p.conversation? f id with
  | none => (f, [], false)
  | some _ =>
    match f.arena.finish id .explicit f.now with
    | some (arena, _, events) => ({ f with arena }, events, true)
    | none => (f, [], false)

end Conversations

end Provider

end Parley
