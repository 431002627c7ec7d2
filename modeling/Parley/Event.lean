/-
Events that the engine announces.

* `Event.ofConversation` — addressed from a conversation, at a given time;
* `Event.ofContext` — addressed from the context of a running turn, at the time
  of the turn's activity.

Design notes: an absent previous value of a variable is kept apart from null,
although both are written as null.
-/
import Parley.Context

namespace Parley

inductive Occurrence where
  | conversationStarted (providerId treeId nodeId : String)
  | conversationContinued (nodeId input : String)
  | conversationEnded (reason : EndReason)
  | nodeReached (nodeId : String)
  | choiceMade (nodeId choiceId : String)
  /-- An action ran; the context is the one right after it. -/
  | actionExecuted (action : Action) (context : Json)
  | variableChanged (name : String) (previous : Option Json) (value : Json)
  | providerSwitched (source target : String)
  deriving DecidableEq, Inhabited

structure Event where
  conversationId : String
  playerId : String
  npcId : String
  timestamp : Instant
  occurrence : Occurrence
  deriving DecidableEq, Inhabited

namespace Occurrence

def name : Occurrence → String
  | conversationStarted .. => "CONVERSATION_STARTED"
  | conversationContinued .. => "CONVERSATION_CONTINUED"
  | conversationEnded _ => "CONVERSATION_ENDED"
  | nodeReached _ => "DIALOGUE_NODE_REACHED"
  | choiceMade .. => "DIALOGUE_CHOICE_MADE"
  | actionExecuted .. => "DIALOGUE_ACTION_EXECUTED"
  | variableChanged .. => "DIALOGUE_VARIABLE_CHANGED"
  | providerSwitched .. => "PROVIDER_SWITCHED"

def payload : Occurrence → Json
  | conversationStarted providerId treeId nodeId =>
    .obj [("nodeId", .str nodeId), ("providerId", .str providerId), ("treeId", .str treeId)]
  | conversationContinued nodeId input => .obj [("input", .str input), ("nodeId", .str nodeId)]
  | conversationEnded reason => .obj [("reason", reason.toJson)]
  | nodeReached nodeId => .obj [("nodeId", .str nodeId)]
  | choiceMade nodeId choiceId => .obj [("choiceId", .str choiceId), ("nodeId", .str nodeId)]
  | actionExecuted action context => .obj [("action", action.toJson), ("context", context)]
  | variableChanged name previous value =>
    .obj [("name", .str name), ("previous", Json.ofOption id previous), ("value", value)]
  | providerSwitched source target => .obj [("from", .str source), ("to", .str target)]

def toJson (o : Occurrence) : Json := .obj [("payload", o.payload), ("type", .str o.name)]

/-- The fields of a payload.  Members to skip must be readable where the payload
was held back until its kind was known. -/
def payloadFields (held : Bool) (names : List String) (d : Document) : Option Fields :=
  if held then d.strictObject? names else d.object? names

/-- The occurrence of a kind, from its payload. -/
def decodePayload (held : Bool) (kind : String) (d : Document) : Option Occurrence :=
  match kind with
  | "CONVERSATION_STARTED" => do
    let fields ← payloadFields held ["providerId", "treeId", "nodeId"] d
    return conversationStarted
      (← fields.required "providerId" Document.string?)
      (← fields.required "treeId" Document.string?)
      (← fields.required "nodeId" Document.string?)
  | "CONVERSATION_CONTINUED" => do
    let fields ← payloadFields held ["nodeId", "input"] d
    return conversationContinued
      (← fields.required "nodeId" Document.string?)
      (← fields.required "input" Document.string?)
  | "CONVERSATION_ENDED" => do
    let fields ← payloadFields held ["reason"] d
    return conversationEnded
      (← fields.required "reason" (if held then EndReason.decodeHeld else EndReason.decode))
  | "DIALOGUE_NODE_REACHED" => do
    let fields ← payloadFields held ["nodeId"] d
    return nodeReached (← fields.required "nodeId" Document.string?)
  | "DIALOGUE_CHOICE_MADE" => do
    let fields ← payloadFields held ["nodeId", "choiceId"] d
    return choiceMade
      (← fields.required "nodeId" Document.string?)
      (← fields.required "choiceId" Document.string?)
  | "DIALOGUE_ACTION_EXECUTED" => do
    let fields ← payloadFields held ["action", "context"] d
    return actionExecuted
      (← fields.required "action" Action.decode)
      (← fields.required "context" Document.toJson?)
  | "DIALOGUE_VARIABLE_CHANGED" => do
    let fields ← payloadFields held ["name", "previous", "value"] d
    return variableChanged
      (← fields.required "name" Document.string?)
      (← fields.nullable "previous" Document.toJson?)
      (← fields.required "value" Document.toJson?)
  | "PROVIDER_SWITCHED" => do
    let fields ← payloadFields held ["from", "to"] d
    return providerSwitched
      (← fields.required "from" Document.string?)
      (← fields.required "to" Document.string?)
  | _ => none

/-- An occurrence on its own: an object with its kind and payload, or the list of
the kind's name and the payload.  A payload that comes first is held back until
its kind is known. -/
def decode (d : Document) : Option Occurrence :=
  match d with
  | .arr [.str kind, payload] => decodePayload false kind payload
  | d => do
    let fields ← d.object? ["type", "payload"]
    let kind ← fields.required "type" Document.caseName?
    fields.required "payload" (decodePayload (fields.entries.head?.any (·.1 = "payload")) kind)

end Occurrence

namespace Event

def ofConversation (c : Conversation) (timestamp : Instant) (occurrence : Occurrence) : Event :=
  { conversationId := c.id, playerId := c.playerId, npcId := c.npcId, timestamp, occurrence }

def ofContext (ctx : Context) (occurrence : Occurrence) : Event :=
  { conversationId := ctx.conversation.id
    playerId := ctx.player.id
    npcId := ctx.npc.id
    timestamp := ctx.conversation.lastActivity
    occurrence }

def toJson (e : Event) : Json :=
  .obj [
    ("conversationId", .str e.conversationId),
    ("npcId", .str e.npcId),
    ("payload", e.occurrence.payload),
    ("playerId", .str e.playerId),
    ("timestamp", e.timestamp.toJson),
    ("type", .str e.occurrence.name)]

def decode (d : Document) : Option Event := do
  let fields ← d.strictObject?
    ["conversationId", "playerId", "npcId", "timestamp", "type", "payload"]
  let kind ← fields.required "type" Document.heldCaseName?
  return {
    conversationId := ← fields.required "conversationId" Document.string?
    playerId := ← fields.required "playerId" Document.string?
    npcId := ← fields.required "npcId" Document.string?
    timestamp := ← fields.required "timestamp" Instant.decode
    occurrence := ← fields.required "payload" (Occurrence.decodePayload true kind) }

end Event

end Parley
