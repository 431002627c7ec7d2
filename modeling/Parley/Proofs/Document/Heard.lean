/-
Events that are written out read back.

* `Occurrence.decodePayload_payload`, `Event.decode_toJson` — every kind of event is read as it
  was written, with its actions and values, but for one distinction;
* `Occurrence.heard_eq_iff` — which is lost exactly when a variable is overwritten that was null.

Design notes: the value that a variable had before is written as null if there was none, and null
is read as none; so `Occurrence.heard` says what arrives.
-/
import Parley.Event
import Parley.Proofs.Document.Content

namespace Parley

open Document

namespace Occurrence

def IsSound : Occurrence → Prop
  | actionExecuted action context => action.IsSound ∧ context.IsCanonical
  | variableChanged _ previous value => (∀ before ∈ previous, before.IsCanonical) ∧ value.IsCanonical
  | _ => True

/-- The occurrence tells of a variable that was null before. -/
def overwritesNull : Occurrence → Bool
  | variableChanged _ (some .null) _ => true
  | _ => false

/-- The occurrence as it is heard: a variable that was null before is taken for a new one. -/
def heard : Occurrence → Occurrence
  | variableChanged name (some .null) value => variableChanged name none value
  | o => o

/-- A null or nothing is written as null, and null is read as nothing. -/
theorem nullable?_previous {previous : Option Json} (h : ∀ before ∈ previous, before.IsCanonical) :
    nullable? toJson? (ofJson (Json.ofOption id previous)) =
      some (previous.filter (· ≠ .null)) := by
  cases previous with
  | none => rfl
  | some before =>
    have read := toJson?_ofJson before (h before rfl)
    cases before with
    | null => rfl
    | _ => exact nullable?_eq read nofun

theorem heard_variableChanged (name : String) (previous : Option Json) (value : Json) :
    (variableChanged name previous value).heard =
      variableChanged name (previous.filter (· ≠ .null)) value := by
  cases previous with
  | none => rfl
  | some before => cases before <;> rfl

/-- Members of the payload, in key order. -/
def members : Occurrence → List (String × Json)
  | conversationStarted providerId treeId nodeId =>
    [("nodeId", .str nodeId), ("providerId", .str providerId), ("treeId", .str treeId)]
  | conversationContinued nodeId input => [("input", .str input), ("nodeId", .str nodeId)]
  | conversationEnded reason => [("reason", reason.toJson)]
  | nodeReached nodeId => [("nodeId", .str nodeId)]
  | choiceMade nodeId choiceId => [("choiceId", .str choiceId), ("nodeId", .str nodeId)]
  | actionExecuted action context => [("action", action.toJson), ("context", context)]
  | variableChanged name previous value =>
    [("name", .str name), ("previous", Json.ofOption id previous), ("value", value)]
  | providerSwitched source target => [("from", .str source), ("to", .str target)]

theorem payload_eq (o : Occurrence) : o.payload = .obj o.members := by
  cases o <;> rfl

theorem nodup_members (o : Occurrence) : (o.members.map Prod.fst).Nodup := by
  cases o <;> simp [members]

/-- A payload is held back until its kind is known, and then read as one of that kind. -/
theorem decodePayload_payload {o : Occurrence} (h : o.IsSound) :
    decodePayload true o.name (ofJson o.payload) = some o.heard := by
  rw [payload_eq]
  have holds (names : List String) := strictObject?_obj names o.nodup_members
  cases o with
  | conversationStarted providerId treeId nodeId =>
    obtain ⟨fields, hfields, holds⟩ := holds ["providerId", "treeId", "nodeId"]
    have provider : fields.required "providerId" string? = some providerId :=
      holds.required (v := .str providerId) (by simp) rfl rfl
    have tree : fields.required "treeId" string? = some treeId :=
      holds.required (v := .str treeId) (by simp) rfl rfl
    have node : fields.required "nodeId" string? = some nodeId :=
      holds.required (v := .str nodeId) (by simp) rfl rfl
    simp [decodePayload, name, payloadFields, hfields, provider, tree, node, heard]
  | conversationContinued nodeId input =>
    obtain ⟨fields, hfields, holds⟩ := holds ["nodeId", "input"]
    have node : fields.required "nodeId" string? = some nodeId :=
      holds.required (v := .str nodeId) (by simp) rfl rfl
    have line : fields.required "input" string? = some input :=
      holds.required (v := .str input) (by simp) rfl rfl
    simp [decodePayload, name, payloadFields, hfields, node, line, heard]
  | conversationEnded reason =>
    obtain ⟨fields, hfields, holds⟩ := holds ["reason"]
    have read : fields.required "reason" EndReason.decodeHeld = some reason :=
      holds.required (v := reason.toJson) (by simp) rfl (by cases reason <;> rfl)
    simp [decodePayload, name, payloadFields, hfields, read, heard]
  | nodeReached nodeId =>
    obtain ⟨fields, hfields, holds⟩ := holds ["nodeId"]
    have node : fields.required "nodeId" string? = some nodeId :=
      holds.required (v := .str nodeId) (by simp) rfl rfl
    simp [decodePayload, name, payloadFields, hfields, node, heard]
  | choiceMade nodeId choiceId =>
    obtain ⟨fields, hfields, holds⟩ := holds ["nodeId", "choiceId"]
    have node : fields.required "nodeId" string? = some nodeId :=
      holds.required (v := .str nodeId) (by simp) rfl rfl
    have choice : fields.required "choiceId" string? = some choiceId :=
      holds.required (v := .str choiceId) (by simp) rfl rfl
    simp [decodePayload, name, payloadFields, hfields, node, choice, heard]
  | actionExecuted action context =>
    obtain ⟨fields, hfields, holds⟩ := holds ["action", "context"]
    have ran : fields.required "action" Action.decode = some action :=
      holds.required (by simp) rfl (Action.decode_toJson h.1)
    have seen : fields.required "context" toJson? = some context :=
      holds.required (by simp) rfl (toJson?_ofJson context h.2)
    simp [decodePayload, name, payloadFields, hfields, ran, seen, heard]
  | variableChanged varName previous value =>
    obtain ⟨fields, hfields, holds⟩ := holds ["name", "previous", "value"]
    have named : fields.required "name" string? = some varName :=
      holds.required (v := .str varName) (by simp) rfl rfl
    have before : fields.nullable "previous" toJson? = some (previous.filter (· ≠ .null)) :=
      holds.optional (by simp) rfl (nullable?_previous h.1)
    have after : fields.required "value" toJson? = some value :=
      holds.required (by simp) rfl (toJson?_ofJson value h.2)
    rw [heard_variableChanged]
    simp [decodePayload, name, payloadFields, hfields, named, before, after]
  | providerSwitched source target =>
    obtain ⟨fields, hfields, holds⟩ := holds ["from", "to"]
    have left : fields.required "from" string? = some source :=
      holds.required (v := .str source) (by simp) rfl rfl
    have entered : fields.required "to" string? = some target :=
      holds.required (v := .str target) (by simp) rfl rfl
    simp [decodePayload, name, payloadFields, hfields, left, entered, heard]

/-- Only a null that is overwritten is heard as something else. -/
theorem heard_eq_iff {o : Occurrence} : o.heard = o ↔ o.overwritesNull = false := by
  cases o with
  | variableChanged name previous value =>
    cases previous with
    | none => simp [heard, overwritesNull]
    | some before => cases before <;> simp [heard, overwritesNull]
  | _ => simp [heard, overwritesNull]

end Occurrence

namespace Event

structure IsSound (e : Event) : Prop where
  timestamp : e.timestamp.IsValid
  occurrence : e.occurrence.IsSound

def heard (e : Event) : Event := { e with occurrence := e.occurrence.heard }

theorem decode_toJson {e : Event} (h : e.IsSound) : decode (ofJson e.toJson) = some e.heard := by
  obtain ⟨fields, hfields, holds⟩ := strictObject?_obj
    ["conversationId", "playerId", "npcId", "timestamp", "type", "payload"]
    (show ([("conversationId", Json.str e.conversationId), ("npcId", .str e.npcId),
      ("payload", e.occurrence.payload), ("playerId", .str e.playerId),
      ("timestamp", e.timestamp.toJson), ("type", .str e.occurrence.name)].map
        Prod.fst).Nodup by simp)
  have kind : fields.required "type" heldCaseName? = some e.occurrence.name :=
    holds.required (v := .str e.occurrence.name) (by simp) rfl rfl
  have conversation : fields.required "conversationId" string? = some e.conversationId :=
    holds.required (v := .str e.conversationId) (by simp) rfl rfl
  have player : fields.required "playerId" string? = some e.playerId :=
    holds.required (v := .str e.playerId) (by simp) rfl rfl
  have npc : fields.required "npcId" string? = some e.npcId :=
    holds.required (v := .str e.npcId) (by simp) rfl rfl
  have time : fields.required "timestamp" Instant.decode = some e.timestamp :=
    holds.required (by simp) rfl (Instant.decode_toJson h.timestamp)
  have payload : fields.required "payload" (Occurrence.decodePayload true e.occurrence.name) =
      some e.occurrence.heard :=
    holds.required (by simp) rfl (Occurrence.decodePayload_payload h.occurrence)
  rw [decode, toJson, hfields]
  simp only [Option.bind_eq_bind, Option.bind_some, kind, conversation, player, npc, time,
    payload, Option.pure_def]
  rfl

end Event

end Parley
