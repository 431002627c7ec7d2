/-
What the caller knows about the player, the NPC and the world.

Snapshots are handed in with every call; content may change the player's flags,
and a custom action anything, so the player is handed back.

* `Player.addFlag`, `Player.removeFlag` — flags are set once, and go altogether;
* `Player.itemCount` — copies of an item are repeated in the inventory.
-/
import Parley.Document.Decode
import Parley.Instant.Rfc3339

namespace Parley

/-- Progress of a quest, as the quest log reports it. -/
structure Quest where
  status : String := ""
  progress : Json := .null
  deriving DecidableEq, Inhabited

structure Player where
  id : String := ""
  name : String := ""
  level : Int := 0
  stats : Dict Int := ∅
  inventory : List String := []
  flags : List String := []
  quests : Dict Quest := ∅
  skills : Dict Int := ∅
  currency : Int := 0
  factionRelations : Dict Int := ∅
  deriving DecidableEq, Inhabited

structure Npc where
  id : String := ""
  name : String := ""
  flags : List String := []
  stats : Dict Int := ∅
  deriving DecidableEq, Inhabited

structure World where
  time : Instant := Instant.epoch
  flags : List String := []
  factionRelations : Dict Int := ∅
  deriving DecidableEq, Inhabited

/-- The two sides of a conversation and the world around them. -/
structure Participants where
  player : Player := {}
  npc : Npc := {}
  world : World := {}
  deriving DecidableEq, Inhabited

namespace Quest

def ofStatus (status : String) : Quest := { status }

def toJson (q : Quest) : Json :=
  .obj ((if q.progress = .null then [] else [("progress", q.progress)]) ++
    [("status", .str q.status)])

def decode (d : Document) : Option Quest := do
  let fields ← d.record? ["status", "progress"]
  return {
    status := ← fields.optional "status" "" Document.string?
    progress := ← fields.optional "progress" .null Document.toJson? }

end Quest

/-- A table of whole numbers. -/
def numbersToJson (d : Dict Int) : Json := Json.ofDict .int d

namespace Player

/-- A player at the first level with nothing else. -/
def new (id name : String) : Player := { id, name, level := 1 }

def hasFlag (p : Player) (flag : String) : Bool := p.flags.contains flag

def addFlag (p : Player) (flag : String) : Player :=
  if p.hasFlag flag then p else { p with flags := p.flags ++ [flag] }

/-- All copies of the flag go. -/
def removeFlag (p : Player) (flag : String) : Player :=
  { p with flags := p.flags.filter (· != flag) }

def itemCount (p : Player) (item : String) : Nat := p.inventory.count item

def toJson (p : Player) : Json :=
  .obj [
    ("currency", .int p.currency),
    ("factionRelations", numbersToJson p.factionRelations),
    ("flags", .ofStrings p.flags),
    ("id", .str p.id),
    ("inventory", .ofStrings p.inventory),
    ("level", .int p.level),
    ("name", .str p.name),
    ("quests", .ofDict Quest.toJson p.quests),
    ("skills", numbersToJson p.skills),
    ("stats", numbersToJson p.stats)]

def decode (d : Document) : Option Player := do
  let fields ← d.record?
    ["id", "name", "level", "stats", "inventory", "flags", "quests", "skills", "currency",
      "factionRelations"]
  return {
    id := ← fields.optional "id" "" Document.string?
    name := ← fields.optional "name" "" Document.string?
    level := ← fields.optional "level" 0 Document.int64?
    stats := ← fields.optional "stats" ∅ (Document.dict? Document.int64?)
    inventory := ← fields.optional "inventory" [] Document.strings?
    flags := ← fields.optional "flags" [] Document.strings?
    quests := ← fields.optional "quests" ∅ (Document.dict? Quest.decode)
    skills := ← fields.optional "skills" ∅ (Document.dict? Document.int64?)
    currency := ← fields.optional "currency" 0 Document.int64?
    factionRelations := ← fields.optional "factionRelations" ∅ (Document.dict? Document.int64?) }

end Player

namespace Npc

def new (id name : String) : Npc := { id, name }

def toJson (n : Npc) : Json :=
  .obj [
    ("flags", .ofStrings n.flags),
    ("id", .str n.id),
    ("name", .str n.name),
    ("stats", numbersToJson n.stats)]

def decode (d : Document) : Option Npc := do
  let fields ← d.record? ["id", "name", "flags", "stats"]
  return {
    id := ← fields.optional "id" "" Document.string?
    name := ← fields.optional "name" "" Document.string?
    flags := ← fields.optional "flags" [] Document.strings?
    stats := ← fields.optional "stats" ∅ (Document.dict? Document.int64?) }

end Npc

namespace World

def toJson (w : World) : Json :=
  .obj [
    ("factionRelations", numbersToJson w.factionRelations),
    ("flags", .ofStrings w.flags),
    ("time", w.time.toJson)]

def decode (d : Document) : Option World := do
  let fields ← d.record? ["time", "flags", "factionRelations"]
  return {
    time := ← fields.optional "time" Instant.epoch Instant.decode
    flags := ← fields.optional "flags" [] Document.strings?
    factionRelations := ← fields.optional "factionRelations" ∅ (Document.dict? Document.int64?) }

end World

end Parley
