/-
What conditions read and actions write while a turn runs.

A context is assembled from a conversation and its participants for one turn.
Afterwards `Context.syncInto` writes variables and flags back to the
conversation, and the player goes back to the caller.
-/
import Parley.Conversation
import Parley.Snapshot

namespace Parley

/-- The part of a context that belongs to the conversation. -/
structure Scope where
  id : String := ""
  treeId : String := ""
  currentNodeId : String := ""
  vars : Dict Json := ∅
  flags : List String := []
  turnCount : Nat := 0
  startedAt : Instant := Instant.epoch
  lastActivity : Instant := Instant.epoch
  deriving DecidableEq, Inhabited

structure Context where
  player : Player := {}
  npc : Npc := {}
  conversation : Scope := {}
  world : World := {}
  deriving DecidableEq, Inhabited

namespace Scope

def ofConversation (c : Conversation) : Scope :=
  { id := c.id
    treeId := c.treeId
    currentNodeId := c.currentNodeId
    vars := c.vars
    flags := c.flags
    turnCount := c.turnCount
    startedAt := c.startedAt
    lastActivity := c.lastActivity }

def toJson (s : Scope) : Json :=
  .obj [
    ("currentNodeId", .str s.currentNodeId),
    ("flags", .ofStrings s.flags),
    ("id", .str s.id),
    ("lastActivity", s.lastActivity.toJson),
    ("startedAt", s.startedAt.toJson),
    ("treeId", .str s.treeId),
    ("turnCount", .int s.turnCount),
    ("variables", valuesToJson s.vars)]

def decode (d : Document) : Option Scope := do
  let fields ← d.record?
    ["id", "treeId", "currentNodeId", "variables", "flags", "turnCount", "startedAt",
      "lastActivity"]
  return {
    id := ← fields.optional "id" "" Document.string?
    treeId := ← fields.optional "treeId" "" Document.string?
    currentNodeId := ← fields.optional "currentNodeId" "" Document.string?
    vars := ← fields.optional "variables" ∅ (Document.dict? Document.toJson?)
    flags := ← fields.optional "flags" [] Document.strings?
    turnCount := ← fields.optional "turnCount" 0 (Document.natural? Text.uint32Max)
    startedAt := ← fields.optional "startedAt" Instant.epoch Instant.decode
    lastActivity := ← fields.optional "lastActivity" Instant.epoch Instant.decode }

end Scope

namespace Context

def assemble (c : Conversation) (p : Participants) : Context :=
  { player := p.player
    npc := p.npc
    conversation := Scope.ofConversation c
    world := p.world }

def syncInto (ctx : Context) (c : Conversation) : Conversation :=
  { c with vars := ctx.conversation.vars, flags := ctx.conversation.flags }

/-- The participants with the player as the turn left it. -/
def releasePlayer (ctx : Context) (p : Participants) : Participants :=
  { p with player := ctx.player }

/-- The value in which placeholders look up their paths. -/
def toJson (ctx : Context) : Json :=
  .obj [
    ("conversation", ctx.conversation.toJson),
    ("npc", ctx.npc.toJson),
    ("player", ctx.player.toJson),
    ("world", ctx.world.toJson)]

def decode (d : Document) : Option Context := do
  let fields ← d.record? ["player", "npc", "conversation", "world"]
  return {
    player := ← fields.required "player" Player.decode
    npc := ← fields.required "npc" Npc.decode
    conversation := ← fields.required "conversation" Scope.decode
    world := ← fields.required "world" World.decode }

end Context

end Parley
