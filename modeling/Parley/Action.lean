/-
Actions as content states them.

An action runs when a node is entered or a choice is taken, if its condition
holds.  Kinds of action that the engine does not know are read as
`Effect.unknown`.
-/
import Parley.Condition

namespace Parley

/-- What an action does. -/
inductive Effect where
  | setVariable (name : String) (value : Json)
  | giveItem (item : String) (quantity : Nat)
  | takeItem (item : String) (quantity : Nat)
  | addFlag (flag : String)
  | removeFlag (flag : String)
  | startQuest (quest : String)
  | completeQuest (quest : String)
  /-- Left to the hook of the provider. -/
  | custom (name : String) (params : Json)
  | unknown
  deriving DecidableEq, Inhabited

structure Action where
  effect : Effect
  condition : Option Condition := none
  deriving DecidableEq, Inhabited

namespace Effect

def name : Effect → String
  | setVariable .. => "set_variable"
  | giveItem .. => "give_item"
  | takeItem .. => "take_item"
  | addFlag _ => "add_flag"
  | removeFlag _ => "remove_flag"
  | startQuest _ => "start_quest"
  | completeQuest _ => "complete_quest"
  | custom .. => "custom"
  | unknown => "unknown"

def kinds : List String :=
  ["set_variable", "give_item", "take_item", "add_flag", "remove_flag", "start_quest",
    "complete_quest", "custom"]

/-- An effect with a value beside its target. -/
def decodeValued (build : String → Json → Effect) (d : Document) : Option Effect := do
  let fields ← d.object? ["target", "value"]
  let target ← fields.required "target" Document.string?
  return build target (← fields.optional "value" .null Document.toJson?)

/-- An effect on a number of copies, one if none is given. -/
def decodeCounted (build : String → Nat → Effect) (d : Document) : Option Effect := do
  let fields ← d.object? ["target", "quantity"]
  let target ← fields.required "target" Document.string?
  return build target (← fields.optional "quantity" 1 (Document.natural? Text.uint32Max))

def decodeNamed (build : String → Effect) (d : Document) : Option Effect := do
  let fields ← d.object? ["target"]
  return build (← fields.required "target" Document.string?)

/-- The effect of a kind, from the record that holds its fields. -/
def decode (kind : String) (d : Document) : Option Effect :=
  match kind with
  | "set_variable" => decodeValued setVariable d
  | "give_item" => decodeCounted giveItem d
  | "take_item" => decodeCounted takeItem d
  | "add_flag" => decodeNamed addFlag d
  | "remove_flag" => decodeNamed removeFlag d
  | "start_quest" => decodeNamed startQuest d
  | "complete_quest" => decodeNamed completeQuest d
  | "custom" => decodeValued custom d
  | _ => some unknown

/-- Members of the written form, in key order. -/
def members (e : Effect) : List (String × Json) :=
  let kind := ("type", Json.str e.name)
  match e with
  | setVariable target value | custom target value =>
    [("target", .str target), kind, ("value", value)]
  | giveItem target quantity | takeItem target quantity =>
    [("quantity", .int quantity), ("target", .str target), kind]
  | addFlag target | removeFlag target | startQuest target | completeQuest target =>
    [("target", .str target), kind]
  | unknown => [kind]

end Effect

namespace Action

def ofEffect (effect : Effect) : Action := { effect }

/-- The same action under a condition, in place of any it had. -/
def under (a : Action) (c : Condition) : Action := { a with condition := some c }

def toJson (a : Action) : Json :=
  .obj ((a.condition.toList.map fun c => ("condition", c.toJson)) ++ a.effect.members)

def decode (d : Document) : Option Action := do
  let fields ← d.strictObject? ["condition", "type"]
  let kind ← fields.required "type" (Document.kindName? Effect.kinds)
  let effect ← Effect.decode kind d
  return { effect, condition := ← fields.nullable "condition" Condition.decode }

end Action

end Parley
