/-
Dialogue trees: nodes with messages, and choices between them.

A tree is written by an author as one document.  A choice without a target of
its own uses the target of its node; an empty target says farewell.
-/
import Parley.Action
import Parley.Document.Reader

namespace Parley

/-- A way on from a node that the player can pick, if its condition holds. -/
structure Choice where
  id : String := ""
  text : String := ""
  condition : Option Condition := none
  actions : List Action := []
  nextNodeId : Option String := none
  deriving DecidableEq, Inhabited

structure Node where
  id : String := ""
  message : String := ""
  choices : List Choice := []
  /-- What must hold for the effects of arrival: variables, then actions. -/
  conditions : List Condition := []
  actions : List Action := []
  isEnd : Bool := false
  /-- The way on when no choice is open or the one taken names no target. -/
  nextNodeId : Option String := none
  /-- Variables set on arrival. -/
  vars : Dict Json := ∅
  deriving DecidableEq, Inhabited

structure Tree where
  id : String := ""
  name : String := ""
  startNodeId : String := ""
  nodes : Dict Node := ∅
  /-- Variables that a new conversation starts with. -/
  vars : Dict Json := ∅
  metadata : Json := .null
  deriving DecidableEq, Inhabited

/-- A table of values. -/
def valuesToJson (d : Dict Json) : Json := Json.ofDict id d

namespace Choice

def toJson (c : Choice) : Json :=
  .obj ([("actions", Json.arr (c.actions.map Action.toJson))] ++
    (c.condition.toList.map fun condition => ("condition", condition.toJson)) ++
    [("id", .str c.id)] ++
    (c.nextNodeId.toList.map fun target => ("nextNodeId", .str target)) ++
    [("text", .str c.text)])

def decode (d : Document) : Option Choice := do
  let fields ← d.record? ["id", "text", "condition", "actions", "nextNodeId"]
  return {
    id := ← fields.optional "id" "" Document.string?
    text := ← fields.optional "text" "" Document.string?
    condition := ← fields.nullable "condition" Condition.decode
    actions := ← fields.optional "actions" [] (Document.list? Action.decode)
    nextNodeId := ← fields.nullable "nextNodeId" Document.string? }

end Choice

namespace Node

def toJson (n : Node) : Json :=
  .obj ([
    ("actions", Json.arr (n.actions.map Action.toJson)),
    ("choices", .arr (n.choices.map Choice.toJson)),
    ("conditions", .arr (n.conditions.map Condition.toJson)),
    ("id", .str n.id),
    ("isEnd", .bool n.isEnd),
    ("message", .str n.message)] ++
    (n.nextNodeId.toList.map fun target => ("nextNodeId", Json.str target)) ++
    [("variables", valuesToJson n.vars)])

def decode (d : Document) : Option Node := do
  let fields ← d.record?
    ["id", "message", "choices", "conditions", "actions", "isEnd", "nextNodeId", "variables"]
  return {
    id := ← fields.optional "id" "" Document.string?
    message := ← fields.optional "message" "" Document.string?
    choices := ← fields.optional "choices" [] (Document.list? Choice.decode)
    conditions := ← fields.optional "conditions" [] (Document.list? Condition.decode)
    actions := ← fields.optional "actions" [] (Document.list? Action.decode)
    isEnd := ← fields.optional "isEnd" false Document.bool?
    nextNodeId := ← fields.nullable "nextNodeId" Document.string?
    vars := ← fields.optional "variables" ∅ (Document.dict? Document.toJson?) }

end Node

namespace Tree

def node? (t : Tree) (nodeId : String) : Option Node := t.nodes.get? nodeId

def startNode? (t : Tree) : Option Node := t.node? t.startNodeId

/-- The NPCs that the tree claims for itself, under `npcIds` of its metadata. -/
def declaredNpcs (t : Tree) : List String :=
  match t.metadata.get? "npcIds" with
  | some (.arr ids) => ids.filterMap Json.asString?
  | _ => []

def toJson (t : Tree) : Json :=
  .obj [
    ("id", .str t.id),
    ("metadata", t.metadata),
    ("name", .str t.name),
    ("nodes", .ofDict Node.toJson t.nodes),
    ("startNodeId", .str t.startNodeId),
    ("variables", valuesToJson t.vars)]

def decode (d : Document) : Option Tree := do
  let fields ← d.record? ["id", "name", "startNodeId", "nodes", "variables", "metadata"]
  return {
    id := ← fields.optional "id" "" Document.string?
    name := ← fields.optional "name" "" Document.string?
    startNodeId := ← fields.optional "startNodeId" "" Document.string?
    nodes := ← fields.optional "nodes" ∅ (Document.dict? Node.decode)
    vars := ← fields.optional "variables" ∅ (Document.dict? Document.toJson?)
    metadata := ← fields.optional "metadata" .null Document.toJson? }

end Tree

end Parley
