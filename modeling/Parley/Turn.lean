/-
Turns of a conversation.

A turn enters nodes, picks choices and ends the conversation.  It works on a
`Play`: the conversation as it is kept, and the scene in which actions run.

* `Turn.begin` — enters the start node;
* `Turn.advance` — one line of input;
* `Conversation.conclude` — the one way a conversation ends: it is announced,
  once.

Design notes: a turn that cannot run leaves the conversation as it was.  It can
fail only at a node that the tree does not have, so never on a valid tree.
-/
import Parley.Error
import Parley.Execution
import Parley.Placeholder
import Parley.Response
import Parley.Selection

namespace Parley

/-- The part of the configuration that turns read. -/
structure Settings where
  /-- Idle time in milliseconds after which a conversation ends. -/
  timeout : Int
  numericSelection : NumericSelection
  notUnderstoodSuffix : String
  farewellMessage : String
  deriving DecidableEq, Inhabited

/-- End a conversation and announce it, unless it has ended before. -/
def Conversation.conclude (c : Conversation) (reason : EndReason) (now : Instant) :
    Conversation × List Event :=
  match c.finish? reason with
  | some ended => (ended, [Event.ofConversation ended now (.conversationEnded reason)])
  | none => (c, [])

structure Play extends Scene where
  conversation : Conversation

structure Turn where
  tree : Tree
  rules : Rules
  settings : Settings

/-- The context of a turn before anything has happened in it. -/
def Play.ofConversation (c : Conversation) (p : Participants) (taken : Nat) : Play :=
  { conversation := c, context := Context.assemble c p, taken }

namespace Play

def publish (p : Play) (o : Occurrence) : Play := { p with toScene := p.toScene.publish o }

def conclude (p : Play) (now : Instant) : Play :=
  let (conversation, events) := p.conversation.conclude .completed now
  { p with conversation, events := p.events ++ events }

/-- Write variables and flags back to the conversation. -/
def sync (p : Play) : Play := { p with conversation := p.context.syncInto p.conversation }

/-- Be at a node, in the conversation and in the context. -/
def moveTo (p : Play) (nodeId : String) : Play :=
  { p with
    conversation := { p.conversation with
      currentNodeId := nodeId
      history := p.conversation.history ++ [nodeId] }
    context := { p.context with
      conversation := { p.context.conversation with currentNodeId := nodeId } } }

end Play

namespace Turn

def node (t : Turn) (nodeId : String) : Except DialogueError Node :=
  match t.tree.node? nodeId with
  | some n => .ok n
  | none => .error (.nodeNotFound t.tree.id nodeId)

/-- The choices whose conditions hold, in order. -/
def openChoices (t : Turn) (ctx : Context) : List Choice → Nat → List Choice × Nat
  | [], taken => ([], taken)
  | c :: rest, taken =>
    let (isOpen, taken) := allows t.rules ctx c.condition taken
    let (others, taken) := t.openChoices ctx rest taken
    (if isOpen then c :: others else others, taken)

/-- Move to a node and run the effects of arrival if its conditions hold. -/
def enter (t : Turn) (p : Play) (nodeId : String) (n : Node) : Play :=
  let p := p.moveTo nodeId
  -- The conditions do not see the variables that the node itself sets.
  let (met, taken) := evaluateAll t.rules p.context n.conditions p.taken
  let p := { p with taken }
  let p :=
    if met then
      { p with toScene := (executeAll t.rules (p.toScene.setVariables n.vars) n.actions).2 }
    else p
  p.publish (.nodeReached nodeId)

/-- The choices as shown, numbered from `index`. -/
def views (ctx : Context) : Nat → List Choice → List ChoiceView
  | _, [] => []
  | index, c :: rest =>
    { id := c.id, text := Placeholder.resolve ctx c.text, index } :: views ctx (index + 1) rest

/-- Show a node; a conversation that has ended shows no choices. -/
def respond (t : Turn) (p : Play) (n : Node) : Play × Response :=
  let p := p.sync
  let message := Placeholder.resolve p.context n.message
  let (choices, taken) :=
    if p.conversation.isActive then
      let (choices, taken) := t.openChoices p.context n.choices p.taken
      (if choices.isEmpty then none else some (views p.context 1 choices), taken)
    else (none, p.taken)
  ({ p with taken },
    { conversationId := p.conversation.id
      message
      choices
      isComplete := !p.conversation.isActive
      state := p.conversation
      vars := p.conversation.vars })

/-- End at an empty target. -/
def farewell (t : Turn) (p : Play) : Play × Response :=
  let p := p.sync.conclude t.rules.now
  (p,
    { conversationId := p.conversation.id
      message := Placeholder.resolve p.context t.settings.farewellMessage
      choices := none
      isComplete := true
      state := p.conversation
      vars := p.conversation.vars })

/-- Enter the start node of a new conversation. -/
def begin (t : Turn) (p : Play) : Play × Except DialogueError Response :=
  let start := p.conversation.currentNodeId
  match t.node start with
  | .error e => (p, .error e)
  | .ok n =>
    let p := t.enter p start n
    let p := if n.isEnd then p.conclude t.rules.now else p
    let (p, response) := t.respond p n
    (p, .ok response)

/-- Go on to a target, which may be missing or empty. -/
def proceed (t : Turn) (p : Play) (target : Option String) (input : String) :
    Play × Except DialogueError Response :=
  match target.filter (!·.isEmpty) with
  | none =>
    let (p, response) := t.farewell p
    (p, .ok response)
  | some target =>
    match t.node target with
    | .error e => (p, .error e)
    | .ok n =>
      let p := t.enter p target n
      let p :=
        if n.isEnd then p.conclude t.rules.now
        else p.publish (.conversationContinued target input)
      let (p, response) := t.respond p n
      (p, .ok response)

/-- Take a choice: run its actions, announce it and go on. -/
def take (t : Turn) (p : Play) (n : Node) (c : Choice) (input : String) :
    Play × Except DialogueError Response :=
  let p := { p with toScene := (executeAll t.rules p.toScene c.actions).2 }
  let p := p.publish (.choiceMade n.id c.id)
  -- A choice without a target goes where its node goes.
  t.proceed p (c.nextNodeId <|> n.nextNodeId) input

/-- Show the node again, saying that the input was not understood. -/
def askAgain (t : Turn) (p : Play) (n : Node) : Play × Response :=
  let (p, response) := t.respond p n
  (p, { response with message := response.message ++ t.settings.notUnderstoodSuffix })

/-- Apply one line of input. -/
def advance (t : Turn) (p : Play) (input : String) : Play × Except DialogueError Response :=
  match t.node p.conversation.currentNodeId with
  | .error e => (p, .error e)
  | .ok n =>
    let (choices, taken) := t.openChoices p.context n.choices p.taken
    let p := { p with taken }
    -- With nothing to choose, any input goes on.
    if choices.isEmpty then t.proceed p n.nextNodeId input
    else
      match selectChoice t.settings.numericSelection input choices with
      | some c => t.take p n c input
      | none =>
        let (p, response) := t.askAgain p n
        (p, .ok response)

end Turn

end Parley
