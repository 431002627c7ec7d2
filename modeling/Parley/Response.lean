/-
What a start or a turn hands back.
-/
import Parley.Conversation

namespace Parley

/-- A choice as the player sees it. -/
structure ChoiceView where
  id : String
  text : String
  /-- The position among the choices shown, from one. -/
  index : Nat
  deriving DecidableEq, Inhabited

structure Response where
  conversationId : String
  message : String
  /-- The choices shown, if there are any. -/
  choices : Option (List ChoiceView)
  isComplete : Bool
  state : Conversation
  vars : Dict Json
  deriving DecidableEq, Inhabited

namespace ChoiceView

def toJson (v : ChoiceView) : Json :=
  .obj [("id", .str v.id), ("index", .int v.index), ("text", .str v.text)]

def decode (d : Document) : Option ChoiceView := do
  let fields ← d.record? ["id", "text", "index"]
  return {
    id := ← fields.required "id" Document.string?
    text := ← fields.required "text" Document.string?
    index := ← fields.required "index" (Document.natural? Text.uint64Max) }

end ChoiceView

namespace Response

def toJson (r : Response) : Json :=
  .obj ((r.choices.toList.map fun views => ("choices", Json.arr (views.map ChoiceView.toJson))) ++ [
    ("conversationId", .str r.conversationId),
    ("isComplete", .bool r.isComplete),
    ("message", .str r.message),
    ("state", r.state.toJson),
    ("variables", valuesToJson r.vars)])

def decode (d : Document) : Option Response := do
  let fields ← d.record?
    ["conversationId", "message", "choices", "isComplete", "state", "variables"]
  return {
    conversationId := ← fields.required "conversationId" Document.string?
    message := ← fields.required "message" Document.string?
    choices := ← fields.nullable "choices" (Document.list? ChoiceView.decode)
    isComplete := ← fields.required "isComplete" Document.bool?
    state := ← fields.required "state" Conversation.decode
    vars := ← fields.required "variables" (Document.dict? Document.toJson?) }

end Response

end Parley
