/-
Conversations as they are kept between turns.

* `Conversation.touch` — records an accepted turn;
* `Conversation.finish` — ends a conversation; only the first call counts;
* `Conversation.isExpired` — idle for longer than the timeout.
-/
import Parley.Tree
import Parley.Instant.Rfc3339

namespace Parley

/-- Why a conversation ended. -/
inductive EndReason where
  /-- Content came to an end node or an empty target. -/
  | completed
  /-- The player or the caller asked for it. -/
  | explicit
  | timeout
  | providerUnregistered
  deriving DecidableEq, Inhabited

structure Conversation where
  id : String
  playerId : String
  npcId : String
  providerId : String
  treeId : String
  currentNodeId : String
  vars : Dict Json
  flags : List String
  startedAt : Instant
  lastActivity : Instant
  turnCount : Nat
  /-- Nodes in the order in which they were entered. -/
  history : List String
  isActive : Bool
  endReason : Option EndReason := none
  deriving DecidableEq, Inhabited

namespace EndReason

def name : EndReason → String
  | completed => "completed"
  | explicit => "explicit"
  | timeout => "timeout"
  | providerUnregistered => "provider_unregistered"

def all : List EndReason := [completed, explicit, timeout, providerUnregistered]

def ofName? (s : String) : Option EndReason := all.find? (·.name = s)

def toJson (r : EndReason) : Json := .str r.name

def decode (d : Document) : Option EndReason := d.caseName?.bind ofName?

/-- A reason inside a record that was set aside. -/
def decodeHeld (d : Document) : Option EndReason := d.heldCaseName?.bind ofName?

end EndReason

namespace Conversation

/-- A conversation at the start of a tree, with a copy of its variables. -/
def new (id playerId npcId providerId : String) (tree : Tree) (now : Instant) : Conversation :=
  { id, playerId, npcId, providerId
    treeId := tree.id
    currentNodeId := tree.startNodeId
    vars := tree.vars
    flags := []
    startedAt := now
    lastActivity := now
    turnCount := 0
    history := []
    isActive := true }

/-- Idle for more than `timeout` milliseconds. -/
def isExpired (c : Conversation) (now : Instant) (timeout : Int) : Bool :=
  timeout * 1000000 < now.since c.lastActivity

/-- The turn count stops at the largest 32-bit number. -/
def touch (c : Conversation) (now : Instant) : Conversation :=
  { c with lastActivity := now, turnCount := min (c.turnCount + 1) Text.uint32Max }

/-- The conversation ended, if it was active. -/
def finish? (c : Conversation) (reason : EndReason) : Option Conversation :=
  if c.isActive then some { c with isActive := false, endReason := some reason } else none

def toJson (c : Conversation) : Json :=
  .obj ([
    ("conversationId", Json.str c.id),
    ("currentNodeId", .str c.currentNodeId)] ++
    (c.endReason.toList.map fun reason => ("endReason", reason.toJson)) ++ [
    ("flags", .ofStrings c.flags),
    ("history", .ofStrings c.history),
    ("isActive", .bool c.isActive),
    ("lastActivity", c.lastActivity.toJson),
    ("npcId", .str c.npcId),
    ("playerId", .str c.playerId),
    ("providerId", .str c.providerId),
    ("startedAt", c.startedAt.toJson),
    ("treeId", .str c.treeId),
    ("turnCount", .int c.turnCount),
    ("variables", valuesToJson c.vars)])

def decode (d : Document) : Option Conversation := do
  let fields ← d.record?
    ["conversationId", "playerId", "npcId", "providerId", "treeId", "currentNodeId", "variables",
      "flags", "startedAt", "lastActivity", "turnCount", "history", "isActive", "endReason"]
  return {
    id := ← fields.required "conversationId" Document.string?
    playerId := ← fields.required "playerId" Document.string?
    npcId := ← fields.required "npcId" Document.string?
    providerId := ← fields.required "providerId" Document.string?
    treeId := ← fields.required "treeId" Document.string?
    currentNodeId := ← fields.required "currentNodeId" Document.string?
    vars := ← fields.required "variables" (Document.dict? Document.toJson?)
    flags := ← fields.required "flags" Document.strings?
    startedAt := ← fields.required "startedAt" Instant.decode
    lastActivity := ← fields.required "lastActivity" Instant.decode
    turnCount := ← fields.required "turnCount" (Document.natural? Text.uint32Max)
    history := ← fields.required "history" Document.strings?
    isActive := ← fields.required "isActive" Document.bool?
    endReason := ← fields.nullable "endReason" EndReason.decode }

end Conversation

end Parley
