/-
Content and conversations that are written out read back.

* `Condition.decode_toJson`, `Action.decode_toJson`, `Choice.decode_toJson`, `Node.decode_toJson`,
  `Tree.decode_toJson`, `Conversation.decode_toJson` — what is written is read as it was, with
  every operator, target and default;
* `Condition.isSound_of_decode`, …, `Conversation.isSound_of_decode` — and what is read, from
  whatever document, can be written;
* `Conversation.exists_readFrom` — a conversation that is read has every part from its field.

Design notes: a JSON value, a chance, a count and an instant can be more in this library than
what can be written, so `IsSound` says of each type that they are not: objects list their members
in order, chances are finite, counts have 32 bits, and instants are on the calendar.
-/
import Parley.Conversation
import Parley.Proofs.Document.Records
import Parley.Proofs.Instant.Rfc3339

namespace Parley

open Document

/-! ### Checks and conditions -/

/-- The name of the kind under which a check is written. -/
def Check.kind : Check → String
  | observe subject _ _ => subject.kind
  | random _ => "random"
  | unknown => "unknown"

/-- The expected value is one, and the chance is a number. -/
def Check.IsSound : Check → Prop
  | observe _ _ expected => expected.IsCanonical
  | random chance => ∀ x ∈ chance, x.isFinite = true
  | unknown => True

def Condition.IsSound (c : Condition) : Prop := c.check.IsSound

namespace Condition

def members (c : Condition) : List (String × Json) :=
  (if c.negate then [("negate", .bool true)] else []) ++ c.check.members

theorem toJson_eq (c : Condition) : c.toJson = .obj c.members := rfl

theorem nodup_members (c : Condition) : (c.members.map Prod.fst).Nodup := by
  obtain ⟨check, negate⟩ := c
  cases check with
  | observe subject _ _ => cases negate <;> cases subject <;> simp [members, Check.members, Subject.target?]
  | _ => cases negate <;> simp [members, Check.members]

theorem get?_type (c : Condition) :
    Entries.get? "type" c.members = some (.str c.check.kind) := by
  obtain ⟨check, negate⟩ := c
  cases check with
  | observe subject _ _ => cases negate <;> cases subject <;> rfl
  | _ => cases negate <;> rfl

theorem decodeObserve_toJson (negate : Bool) (subject : Subject) (operator : Operator)
    {expected : Json} (h : expected.IsCanonical) :
    Check.decodeObserve subject.kind (ofJson (toJson ⟨.observe subject operator expected, negate⟩)) =
      some (.observe subject operator expected) := by
  obtain ⟨fields, hfields, holds⟩ := object?_obj
    (if subject.kind = "level" then ["operator", "value"] else ["target", "operator", "value"])
    (nodup_members ⟨.observe subject operator expected, negate⟩)
  have subjectRead : Subject.ofKind? subject.kind ((fields.get? "target").bind string?) =
      some subject := by
    cases subject with
    | level => rfl
    | _ =>
      rw [holds "target" (by simp [Subject.kind])]
      cases negate <;> rfl
  have operatorRead : fields.optional "operator" subject.defaultOperator Operator.decodeHeld =
      some operator := by
    refine holds.optional (v := operator.toJson) (by split <;> simp) ?_ ?_
    · cases negate <;> rfl
    · exact congrArg some operator.ofName_name
  have expectedRead : fields.optional "value" .null toJson? = some expected := by
    refine holds.optional (v := expected) (by split <;> simp) ?_ (toJson?_ofJson expected h)
    cases negate <;> cases subject <;> rfl
  rw [Check.decodeObserve, toJson_eq, hfields]
  simp only [Option.bind_eq_bind, Option.bind_some, subjectRead, operatorRead, expectedRead,
    Option.pure_def]

theorem decodeRandom_toJson (negate : Bool) {chance : Option Float}
    (h : ∀ x ∈ chance, x.isFinite = true) :
    Check.decodeRandom (ofJson (toJson ⟨.random chance, negate⟩)) = some (.random chance) := by
  obtain ⟨fields, hfields, holds⟩ := object?_obj ["value"] (nodup_members ⟨.random chance, negate⟩)
  have read : fields.nullable "value" number? = some chance := by
    refine holds.optional (v := Json.ofOption Json.ofFloat chance) (by simp) ?_ ?_
    · cases negate <;> rfl
    · cases chance with
      | none => rfl
      | some x => exact nullable?_ofFloat (h x rfl)
  rw [Check.decodeRandom, toJson_eq, hfields]
  simp only [Option.bind_eq_bind, Option.bind_some, read, Option.pure_def]

theorem decodeCheck_toJson {c : Condition} (h : c.IsSound) :
    Check.decode c.check.kind (ofJson c.toJson) = some c.check := by
  obtain ⟨check, negate⟩ := c
  cases check with
  | observe subject operator expected =>
    have hrandom : subject.kind ≠ "random" := by cases subject <;> simp [Subject.kind]
    have hknown : Check.kinds.contains subject.kind = true := by cases subject <;> rfl
    show Check.decode subject.kind _ = _
    rw [Check.decode, if_neg hrandom, if_pos hknown]
    exact decodeObserve_toJson negate subject operator h
  | random chance => exact (if_pos rfl).trans (decodeRandom_toJson negate h)
  | unknown => rfl

theorem decode_toJson {c : Condition} (h : c.IsSound) : decode (ofJson c.toJson) = some c := by
  obtain ⟨fields, hfields, holds⟩ := strictObject?_obj ["negate", "type"] c.nodup_members
  have kind : fields.required "type" (kindName? Check.kinds) = some c.check.kind :=
    holds.required (by simp) c.get?_type rfl
  have negate : fields.optional "negate" false bool? = some c.negate := by
    obtain ⟨check, negate⟩ := c
    cases negate with
    | true => exact holds.optional (v := .bool true) (by simp) rfl rfl
    | false =>
      refine holds.optional_absent (by simp) ?_
      cases check with
      | observe subject _ _ => cases subject <;> rfl
      | _ => rfl
  have check := decodeCheck_toJson h
  rw [decode, toJson_eq, hfields]
  simp only [Option.bind_eq_bind, Option.bind_some, kind, negate, ← toJson_eq, check,
    Option.pure_def]

theorem isSound_of_decode {d : Document} {c : Condition} (h : decode d = some c) : c.IsSound := by
  rw [decode] at h
  obtain ⟨fields, -, h⟩ := Option.bind_eq_some_iff.mp h
  obtain ⟨kind, -, h⟩ := Option.bind_eq_some_iff.mp h
  obtain ⟨check, hcheck, h⟩ := Option.bind_eq_some_iff.mp h
  obtain ⟨negate, -, h⟩ := Option.bind_eq_some_iff.mp h
  obtain rfl := Option.some.inj h
  show check.IsSound
  rw [Check.decode] at hcheck
  split at hcheck
  · obtain ⟨fields, -, h⟩ := Option.bind_eq_some_iff.mp hcheck
    obtain ⟨chance, hchance, h⟩ := Option.bind_eq_some_iff.mp h
    obtain rfl := Option.some.inj h
    intro x hx
    obtain ⟨_, hd⟩ := Fields.exists_of_nullable hchance x hx
    exact isFinite_of_number? hd
  · split at hcheck
    · obtain ⟨fields, -, h⟩ := Option.bind_eq_some_iff.mp hcheck
      obtain ⟨subject, -, h⟩ := Option.bind_eq_some_iff.mp h
      obtain ⟨operator, -, h⟩ := Option.bind_eq_some_iff.mp h
      obtain ⟨expected, hexpected, h⟩ := Option.bind_eq_some_iff.mp h
      obtain rfl := Option.some.inj h
      rcases Fields.exists_of_optional hexpected with rfl | ⟨d, hd⟩
      · trivial
      · exact isCanonical_of_toJson? hd
    · obtain rfl := Option.some.inj hcheck
      trivial

end Condition

/-! ### Effects and actions -/

def Effect.IsSound : Effect → Prop
  | setVariable _ value | custom _ value => value.IsCanonical
  | giveItem _ quantity | takeItem _ quantity => quantity ≤ Text.uint32Max
  | _ => True

structure Action.IsSound (a : Action) : Prop where
  effect : a.effect.IsSound
  condition : ∀ c ∈ a.condition, c.IsSound

namespace Action

def members (a : Action) : List (String × Json) :=
  (a.condition.toList.map fun c => ("condition", c.toJson)) ++ a.effect.members

theorem toJson_eq (a : Action) : a.toJson = .obj a.members := rfl

theorem nodup_members (a : Action) : (a.members.map Prod.fst).Nodup := by
  obtain ⟨effect, condition⟩ := a
  cases condition <;> cases effect <;> simp [members, Effect.members]

theorem get?_type (a : Action) : Entries.get? "type" a.members = some (.str a.effect.name) := by
  obtain ⟨effect, condition⟩ := a
  cases condition <;> cases effect <;> rfl

theorem get?_condition (a : Action) :
    Entries.get? "condition" a.members = a.condition.map Condition.toJson := by
  obtain ⟨effect, condition⟩ := a
  cases condition <;> cases effect <;> rfl

theorem decodeValued_toJson {a : Action} {build : String → Json → Effect} {target : String}
    {value : Json} (h : value.IsCanonical)
    (htarget : Entries.get? "target" a.members = some (.str target))
    (hvalue : Entries.get? "value" a.members = some value) :
    Effect.decodeValued build (ofJson a.toJson) = some (build target value) := by
  obtain ⟨fields, hfields, holds⟩ := object?_obj ["target", "value"] a.nodup_members
  have targetRead : fields.required "target" string? = some target :=
    holds.required (by simp) htarget rfl
  have valueRead : fields.optional "value" .null toJson? = some value :=
    holds.optional (by simp) hvalue (toJson?_ofJson value h)
  rw [Effect.decodeValued, toJson_eq, hfields]
  simp only [Option.bind_eq_bind, Option.bind_some, targetRead, valueRead, Option.pure_def]

theorem decodeCounted_toJson {a : Action} {build : String → Nat → Effect} {target : String}
    {quantity : Nat} (h : quantity ≤ Text.uint32Max)
    (htarget : Entries.get? "target" a.members = some (.str target))
    (hquantity : Entries.get? "quantity" a.members = some (.int quantity)) :
    Effect.decodeCounted build (ofJson a.toJson) = some (build target quantity) := by
  obtain ⟨fields, hfields, holds⟩ := object?_obj ["target", "quantity"] a.nodup_members
  have targetRead : fields.required "target" string? = some target :=
    holds.required (by simp) htarget rfl
  have quantityRead : fields.optional "quantity" 1 (natural? Text.uint32Max) = some quantity :=
    holds.optional (by simp) hquantity (natural?_ofNat h)
  rw [Effect.decodeCounted, toJson_eq, hfields]
  simp only [Option.bind_eq_bind, Option.bind_some, targetRead, quantityRead, Option.pure_def]

theorem decodeNamed_toJson {a : Action} {build : String → Effect} {target : String}
    (htarget : Entries.get? "target" a.members = some (.str target)) :
    Effect.decodeNamed build (ofJson a.toJson) = some (build target) := by
  obtain ⟨fields, hfields, holds⟩ := object?_obj ["target"] a.nodup_members
  have targetRead : fields.required "target" string? = some target :=
    holds.required (by simp) htarget rfl
  rw [Effect.decodeNamed, toJson_eq, hfields]
  simp only [Option.bind_eq_bind, Option.bind_some, targetRead, Option.pure_def]

theorem decodeEffect_toJson {a : Action} (h : a.effect.IsSound) :
    Effect.decode a.effect.name (ofJson a.toJson) = some a.effect := by
  obtain ⟨effect, condition⟩ := a
  cases effect with
  | setVariable _ _ | custom _ _ =>
    exact decodeValued_toJson h (by cases condition <;> rfl) (by cases condition <;> rfl)
  | giveItem _ _ | takeItem _ _ =>
    exact decodeCounted_toJson h (by cases condition <;> rfl) (by cases condition <;> rfl)
  | addFlag _ | removeFlag _ | startQuest _ | completeQuest _ =>
    exact decodeNamed_toJson (by cases condition <;> rfl)
  | unknown => rfl

/-- A condition that is written is not null. -/
theorem nullable?_condition {c : Condition} (h : c.IsSound) :
    nullable? Condition.decode (ofJson c.toJson) = some (some c) :=
  nullable?_eq (Condition.decode_toJson h) nofun

theorem decode_toJson {a : Action} (h : a.IsSound) : decode (ofJson a.toJson) = some a := by
  obtain ⟨fields, hfields, holds⟩ := strictObject?_obj ["condition", "type"] a.nodup_members
  have kind : fields.required "type" (kindName? Effect.kinds) = some a.effect.name :=
    holds.required (by simp) a.get?_type rfl
  have condition : fields.nullable "condition" Condition.decode = some a.condition :=
    holds.nullable (by simp) a.get?_condition fun c hc => nullable?_condition (h.condition c hc)
  have effect := decodeEffect_toJson h.effect
  rw [decode, toJson_eq, hfields]
  simp only [Option.bind_eq_bind, Option.bind_some, kind, condition, ← toJson_eq, effect,
    Option.pure_def]

end Action

theorem Effect.isSound_of_decode {kind : String} {d : Document} {e : Effect}
    (h : decode kind d = some e) : e.IsSound := by
  have valued {build : String → Json → Effect} (h : decodeValued build d = some e)
      (hbuild : ∀ name value, value.IsCanonical → (build name value).IsSound) : e.IsSound := by
    obtain ⟨fields, -, h⟩ := Option.bind_eq_some_iff.mp h
    obtain ⟨target, -, h⟩ := Option.bind_eq_some_iff.mp h
    obtain ⟨value, hvalue, h⟩ := Option.bind_eq_some_iff.mp h
    obtain rfl := Option.some.inj h
    rcases Fields.exists_of_optional hvalue with rfl | ⟨d, hd⟩
    · exact hbuild target .null trivial
    · exact hbuild target value (isCanonical_of_toJson? hd)
  have counted {build : String → Nat → Effect} (h : decodeCounted build d = some e)
      (hbuild : ∀ name quantity, quantity ≤ Text.uint32Max → (build name quantity).IsSound) :
      e.IsSound := by
    obtain ⟨fields, -, h⟩ := Option.bind_eq_some_iff.mp h
    obtain ⟨target, -, h⟩ := Option.bind_eq_some_iff.mp h
    obtain ⟨quantity, hquantity, h⟩ := Option.bind_eq_some_iff.mp h
    obtain rfl := Option.some.inj h
    rcases Fields.exists_of_optional hquantity with rfl | ⟨d, hd⟩
    · exact hbuild target 1 (by decide)
    · exact hbuild target quantity (le_of_natural? hd)
  have named {build : String → Effect} (h : decodeNamed build d = some e)
      (hbuild : ∀ name, (build name).IsSound) : e.IsSound := by
    obtain ⟨fields, -, h⟩ := Option.bind_eq_some_iff.mp h
    obtain ⟨target, -, h⟩ := Option.bind_eq_some_iff.mp h
    obtain rfl := Option.some.inj h
    exact hbuild target
  rw [decode.eq_def] at h
  split at h
  · exact valued h fun _ _ => id
  · exact counted h fun _ _ => id
  · exact counted h fun _ _ => id
  · exact named h fun _ => trivial
  · exact named h fun _ => trivial
  · exact named h fun _ => trivial
  · exact named h fun _ => trivial
  · exact valued h fun _ _ => id
  · obtain rfl := Option.some.inj h
    trivial

theorem Action.isSound_of_decode {d : Document} {a : Action} (h : decode d = some a) :
    a.IsSound := by
  obtain ⟨fields, -, h⟩ := Option.bind_eq_some_iff.mp h
  obtain ⟨kind, -, h⟩ := Option.bind_eq_some_iff.mp h
  obtain ⟨effect, heffect, h⟩ := Option.bind_eq_some_iff.mp h
  obtain ⟨condition, hcondition, h⟩ := Option.bind_eq_some_iff.mp h
  obtain rfl := Option.some.inj h
  refine ⟨Effect.isSound_of_decode heffect, fun c hc => ?_⟩
  obtain ⟨d', hd'⟩ := Fields.exists_of_nullable hcondition c hc
  exact Condition.isSound_of_decode hd'

/-! ### Choices, nodes and trees -/

structure Choice.IsSound (c : Choice) : Prop where
  condition : ∀ condition ∈ c.condition, condition.IsSound
  actions : ∀ a ∈ c.actions, a.IsSound

structure Node.IsSound (n : Node) : Prop where
  choices : ∀ c ∈ n.choices, c.IsSound
  conditions : ∀ c ∈ n.conditions, c.IsSound
  actions : ∀ a ∈ n.actions, a.IsSound
  vars : ∀ value ∈ n.vars.values, value.IsCanonical

structure Tree.IsSound (t : Tree) : Prop where
  nodes : ∀ n ∈ t.nodes.values, n.IsSound
  vars : ∀ value ∈ t.vars.values, value.IsCanonical
  metadata : t.metadata.IsCanonical

namespace Choice

def members (c : Choice) : List (String × Json) :=
  [("actions", Json.arr (c.actions.map Action.toJson))] ++
    (c.condition.toList.map fun condition => ("condition", condition.toJson)) ++
    [("id", .str c.id)] ++
    (c.nextNodeId.toList.map fun target => ("nextNodeId", .str target)) ++
    [("text", .str c.text)]

theorem toJson_eq (c : Choice) : c.toJson = .obj c.members := rfl

theorem nodup_members (c : Choice) : (c.members.map Prod.fst).Nodup := by
  obtain ⟨_, _, condition, _, nextNodeId⟩ := c
  cases condition <;> cases nextNodeId <;> simp [members]

theorem decode_toJson {c : Choice} (h : c.IsSound) : decode (ofJson c.toJson) = some c := by
  obtain ⟨fields, hfields, holds⟩ := record?_obj
    ["id", "text", "condition", "actions", "nextNodeId"] c.nodup_members
  obtain ⟨id, text, condition, actions, nextNodeId⟩ := c
  have idRead : fields.optional "id" "" string? = some id :=
    holds.optional (v := .str id) (by simp) (by cases condition <;> rfl) rfl
  have textRead : fields.optional "text" "" string? = some text :=
    holds.optional (v := .str text) (by simp)
      (by cases condition <;> cases nextNodeId <;> rfl) rfl
  have conditionRead : fields.nullable "condition" Condition.decode = some condition :=
    holds.nullable (by simp) (by cases condition <;> cases nextNodeId <;> rfl)
      fun c hc => Action.nullable?_condition (h.condition c hc)
  have actionsRead : fields.optional "actions" [] (list? Action.decode) = some actions :=
    holds.optional (by simp) rfl (list?_ofJson fun a ha => Action.decode_toJson (h.actions a ha))
  have targetRead : fields.nullable "nextNodeId" string? = some nextNodeId :=
    holds.nullable (g := .str) (by simp) (by cases condition <;> cases nextNodeId <;> rfl)
      fun _ _ => rfl
  rw [decode, toJson_eq, hfields]
  simp only [Option.bind_eq_bind, Option.bind_some, idRead, textRead, conditionRead, actionsRead,
    targetRead, Option.pure_def]

theorem isSound_of_decode {d : Document} {c : Choice} (h : decode d = some c) : c.IsSound := by
  obtain ⟨fields, -, h⟩ := Option.bind_eq_some_iff.mp h
  obtain ⟨id, -, h⟩ := Option.bind_eq_some_iff.mp h
  obtain ⟨text, -, h⟩ := Option.bind_eq_some_iff.mp h
  obtain ⟨condition, hcondition, h⟩ := Option.bind_eq_some_iff.mp h
  obtain ⟨actions, hactions, h⟩ := Option.bind_eq_some_iff.mp h
  obtain ⟨target, -, h⟩ := Option.bind_eq_some_iff.mp h
  obtain rfl := Option.some.inj h
  exact {
    condition := fun c hc =>
      have ⟨_, hd⟩ := Fields.exists_of_nullable hcondition c hc
      Condition.isSound_of_decode hd
    actions := fun a ha =>
      have ⟨_, hd⟩ := Fields.exists_of_optionalList hactions a ha
      Action.isSound_of_decode hd }

end Choice

/-- A table of values is written as the table of what is written for each. -/
theorem valuesRead {vars : Dict Json} (h : ∀ value ∈ vars.values, value.IsCanonical) :
    dict? toJson? (ofJson (valuesToJson vars)) = some vars :=
  dict?_ofJson fun value hvalue => toJson?_ofJson value (h value hvalue)

namespace Node

def members (n : Node) : List (String × Json) :=
  [("actions", Json.arr (n.actions.map Action.toJson)),
    ("choices", .arr (n.choices.map Choice.toJson)),
    ("conditions", .arr (n.conditions.map Condition.toJson)),
    ("id", .str n.id),
    ("isEnd", .bool n.isEnd),
    ("message", .str n.message)] ++
    (n.nextNodeId.toList.map fun target => ("nextNodeId", Json.str target)) ++
    [("variables", valuesToJson n.vars)]

theorem toJson_eq (n : Node) : n.toJson = .obj n.members := rfl

theorem nodup_members (n : Node) : (n.members.map Prod.fst).Nodup := by
  obtain ⟨_, _, _, _, _, _, nextNodeId, _⟩ := n
  cases nextNodeId <;> simp [members]

theorem decode_toJson {n : Node} (h : n.IsSound) : decode (ofJson n.toJson) = some n := by
  obtain ⟨fields, hfields, holds⟩ := record?_obj
    ["id", "message", "choices", "conditions", "actions", "isEnd", "nextNodeId", "variables"]
    n.nodup_members
  obtain ⟨id, message, choices, conditions, actions, isEnd, nextNodeId, vars⟩ := n
  have idRead : fields.optional "id" "" string? = some id :=
    holds.optional (v := .str id) (by simp) rfl rfl
  have messageRead : fields.optional "message" "" string? = some message :=
    holds.optional (v := .str message) (by simp) rfl rfl
  have choicesRead : fields.optional "choices" [] (list? Choice.decode) = some choices :=
    holds.optional (by simp) rfl (list?_ofJson fun c hc => Choice.decode_toJson (h.choices c hc))
  have conditionsRead : fields.optional "conditions" [] (list? Condition.decode) =
      some conditions :=
    holds.optional (by simp) rfl
      (list?_ofJson fun c hc => Condition.decode_toJson (h.conditions c hc))
  have actionsRead : fields.optional "actions" [] (list? Action.decode) = some actions :=
    holds.optional (by simp) rfl (list?_ofJson fun a ha => Action.decode_toJson (h.actions a ha))
  have isEndRead : fields.optional "isEnd" false bool? = some isEnd :=
    holds.optional (v := .bool isEnd) (by simp) rfl rfl
  have targetRead : fields.nullable "nextNodeId" string? = some nextNodeId :=
    holds.nullable (g := .str) (by simp) (by cases nextNodeId <;> rfl) fun _ _ => rfl
  have varsRead : fields.optional "variables" ∅ (dict? toJson?) = some vars :=
    holds.optional (v := valuesToJson vars) (by simp) (by cases nextNodeId <;> rfl)
      (valuesRead h.vars)
  rw [decode, toJson_eq, hfields]
  simp only [Option.bind_eq_bind, Option.bind_some, idRead, messageRead, choicesRead,
    conditionsRead, actionsRead, isEndRead, targetRead, varsRead, Option.pure_def]

theorem isSound_of_decode {d : Document} {n : Node} (h : decode d = some n) : n.IsSound := by
  obtain ⟨fields, -, h⟩ := Option.bind_eq_some_iff.mp h
  obtain ⟨id, -, h⟩ := Option.bind_eq_some_iff.mp h
  obtain ⟨message, -, h⟩ := Option.bind_eq_some_iff.mp h
  obtain ⟨choices, hchoices, h⟩ := Option.bind_eq_some_iff.mp h
  obtain ⟨conditions, hconditions, h⟩ := Option.bind_eq_some_iff.mp h
  obtain ⟨actions, hactions, h⟩ := Option.bind_eq_some_iff.mp h
  obtain ⟨isEnd, -, h⟩ := Option.bind_eq_some_iff.mp h
  obtain ⟨target, -, h⟩ := Option.bind_eq_some_iff.mp h
  obtain ⟨vars, hvars, h⟩ := Option.bind_eq_some_iff.mp h
  obtain rfl := Option.some.inj h
  exact {
    choices := fun c hc =>
      have ⟨_, hd⟩ := Fields.exists_of_optionalList hchoices c hc
      Choice.isSound_of_decode hd
    conditions := fun c hc =>
      have ⟨_, hd⟩ := Fields.exists_of_optionalList hconditions c hc
      Condition.isSound_of_decode hd
    actions := fun a ha =>
      have ⟨_, hd⟩ := Fields.exists_of_optionalList hactions a ha
      Action.isSound_of_decode hd
    vars := fun value hvalue =>
      have ⟨_, hd⟩ := Fields.exists_of_optionalDict hvars value hvalue
      isCanonical_of_toJson? hd }

end Node

namespace Tree

def members (t : Tree) : List (String × Json) :=
  [("id", .str t.id),
    ("metadata", t.metadata),
    ("name", .str t.name),
    ("nodes", .ofDict Node.toJson t.nodes),
    ("startNodeId", .str t.startNodeId),
    ("variables", valuesToJson t.vars)]

theorem toJson_eq (t : Tree) : t.toJson = .obj t.members := rfl

theorem nodup_members (t : Tree) : (t.members.map Prod.fst).Nodup := by
  simp [members]

theorem decode_toJson {t : Tree} (h : t.IsSound) : decode (ofJson t.toJson) = some t := by
  obtain ⟨fields, hfields, holds⟩ := record?_obj
    ["id", "name", "startNodeId", "nodes", "variables", "metadata"] t.nodup_members
  obtain ⟨id, name, startNodeId, nodes, vars, metadata⟩ := t
  have idRead : fields.optional "id" "" string? = some id :=
    holds.optional (v := .str id) (by simp) rfl rfl
  have nameRead : fields.optional "name" "" string? = some name :=
    holds.optional (v := .str name) (by simp) rfl rfl
  have startRead : fields.optional "startNodeId" "" string? = some startNodeId :=
    holds.optional (v := .str startNodeId) (by simp) rfl rfl
  have nodesRead : fields.optional "nodes" ∅ (dict? Node.decode) = some nodes :=
    holds.optional (by simp) rfl (dict?_ofJson fun n hn => Node.decode_toJson (h.nodes n hn))
  have varsRead : fields.optional "variables" ∅ (dict? toJson?) = some vars :=
    holds.optional (by simp) rfl (valuesRead h.vars)
  have metadataRead : fields.optional "metadata" .null toJson? = some metadata :=
    holds.optional (by simp) rfl (toJson?_ofJson metadata h.metadata)
  rw [decode, toJson_eq, hfields]
  simp only [Option.bind_eq_bind, Option.bind_some, idRead, nameRead, startRead, nodesRead,
    varsRead, metadataRead, Option.pure_def]

theorem isSound_of_decode {d : Document} {t : Tree} (h : decode d = some t) : t.IsSound := by
  obtain ⟨fields, -, h⟩ := Option.bind_eq_some_iff.mp h
  obtain ⟨id, -, h⟩ := Option.bind_eq_some_iff.mp h
  obtain ⟨name, -, h⟩ := Option.bind_eq_some_iff.mp h
  obtain ⟨startNodeId, -, h⟩ := Option.bind_eq_some_iff.mp h
  obtain ⟨nodes, hnodes, h⟩ := Option.bind_eq_some_iff.mp h
  obtain ⟨vars, hvars, h⟩ := Option.bind_eq_some_iff.mp h
  obtain ⟨metadata, hmetadata, h⟩ := Option.bind_eq_some_iff.mp h
  obtain rfl := Option.some.inj h
  refine ⟨fun n hn => ?_, fun value hvalue => ?_, ?_⟩
  · obtain ⟨_, hd⟩ := Fields.exists_of_optionalDict hnodes n hn
    exact Node.isSound_of_decode hd
  · obtain ⟨_, hd⟩ := Fields.exists_of_optionalDict hvars value hvalue
    exact isCanonical_of_toJson? hd
  · rcases Fields.exists_of_optional hmetadata with rfl | ⟨_, hd⟩
    · trivial
    · exact isCanonical_of_toJson? hd

end Tree

/-! ### Conversations -/

theorem Instant.decode_toJson {a : Instant} (h : a.IsValid) :
    Instant.decode (Document.ofJson a.toJson) = some a := by
  rw [Instant.toJson, Document.ofJson, Instant.decode, Document.string?, Option.bind_some]
  exact Instant.read?_text h

theorem Instant.isValid_of_decode {d : Document} {a : Instant} (h : Instant.decode d = some a) :
    a.IsValid := by
  obtain ⟨s, -, h⟩ := Option.bind_eq_some_iff.mp h
  exact Instant.isValid_of_read? h

theorem EndReason.nullable_toJson (r : EndReason) :
    Document.nullable? EndReason.decode (Document.ofJson r.toJson) = some (some r) := by
  cases r <;> rfl

/-- The times are there on a calendar, and the turns are counted in 32 bits. -/
structure Conversation.IsSound (c : Conversation) : Prop where
  startedAt : c.startedAt.IsValid
  lastActivity : c.lastActivity.IsValid
  turnCount : c.turnCount ≤ Text.uint32Max
  vars : ∀ value ∈ c.vars.values, value.IsCanonical

namespace Conversation

def members (c : Conversation) : List (String × Json) :=
  [("conversationId", Json.str c.id),
    ("currentNodeId", .str c.currentNodeId)] ++
    (c.endReason.toList.map fun reason => ("endReason", reason.toJson)) ++
    [("flags", .ofStrings c.flags),
    ("history", .ofStrings c.history),
    ("isActive", .bool c.isActive),
    ("lastActivity", c.lastActivity.toJson),
    ("npcId", .str c.npcId),
    ("playerId", .str c.playerId),
    ("providerId", .str c.providerId),
    ("startedAt", c.startedAt.toJson),
    ("treeId", .str c.treeId),
    ("turnCount", .int c.turnCount),
    ("variables", valuesToJson c.vars)]

theorem toJson_eq (c : Conversation) : c.toJson = .obj c.members := rfl

theorem nodup_members (c : Conversation) : (c.members.map Prod.fst).Nodup := by
  rw [members]
  cases c.endReason <;> simp

theorem decode_toJson {c : Conversation} (h : c.IsSound) : decode (ofJson c.toJson) = some c := by
  obtain ⟨fields, hfields, holds⟩ := record?_obj
    ["conversationId", "playerId", "npcId", "providerId", "treeId", "currentNodeId", "variables",
      "flags", "startedAt", "lastActivity", "turnCount", "history", "isActive", "endReason"]
    c.nodup_members
  obtain ⟨id, playerId, npcId, providerId, treeId, currentNodeId, vars, flags, startedAt,
    lastActivity, turnCount, history, isActive, endReason⟩ := c
  have idRead : fields.required "conversationId" string? = some id :=
    holds.required (v := .str id) (by simp) (by cases endReason <;> rfl) rfl
  have playerIdRead : fields.required "playerId" string? = some playerId :=
    holds.required (v := .str playerId) (by simp) (by cases endReason <;> rfl) rfl
  have npcIdRead : fields.required "npcId" string? = some npcId :=
    holds.required (v := .str npcId) (by simp) (by cases endReason <;> rfl) rfl
  have providerIdRead : fields.required "providerId" string? = some providerId :=
    holds.required (v := .str providerId) (by simp) (by cases endReason <;> rfl) rfl
  have treeIdRead : fields.required "treeId" string? = some treeId :=
    holds.required (v := .str treeId) (by simp) (by cases endReason <;> rfl) rfl
  have currentNodeIdRead : fields.required "currentNodeId" string? = some currentNodeId :=
    holds.required (v := .str currentNodeId) (by simp) (by cases endReason <;> rfl) rfl
  have varsRead : fields.required "variables" (dict? toJson?) = some vars :=
    holds.required (by simp) (by cases endReason <;> rfl) (valuesRead h.vars)
  have flagsRead : fields.required "flags" strings? = some flags :=
    holds.required (by simp) (by cases endReason <;> rfl) (strings?_ofStrings flags)
  have startedAtRead : fields.required "startedAt" Instant.decode = some startedAt :=
    holds.required (by simp) (by cases endReason <;> rfl) (Instant.decode_toJson h.startedAt)
  have lastActivityRead : fields.required "lastActivity" Instant.decode = some lastActivity :=
    holds.required (by simp) (by cases endReason <;> rfl) (Instant.decode_toJson h.lastActivity)
  have turnCountRead : fields.required "turnCount" (natural? Text.uint32Max) = some turnCount :=
    holds.required (by simp) (by cases endReason <;> rfl) (natural?_ofNat h.turnCount)
  have historyRead : fields.required "history" strings? = some history :=
    holds.required (by simp) (by cases endReason <;> rfl) (strings?_ofStrings history)
  have isActiveRead : fields.required "isActive" bool? = some isActive :=
    holds.required (v := .bool isActive) (by simp) (by cases endReason <;> rfl) rfl
  have endReasonRead : fields.nullable "endReason" EndReason.decode = some endReason :=
    holds.nullable (by simp) (by cases endReason <;> rfl) fun r _ => r.nullable_toJson
  rw [decode, toJson_eq, hfields]
  dsimp only [Option.bind_eq_bind, Option.bind_some]
  rw [idRead, Option.bind_some, playerIdRead, Option.bind_some, npcIdRead, Option.bind_some,
    providerIdRead, Option.bind_some, treeIdRead, Option.bind_some, currentNodeIdRead,
    Option.bind_some, varsRead, Option.bind_some, flagsRead, Option.bind_some, startedAtRead,
    Option.bind_some, lastActivityRead, Option.bind_some, turnCountRead, Option.bind_some,
    historyRead, Option.bind_some, isActiveRead, Option.bind_some, endReasonRead]
  rfl

/-- The names of the fields. -/
def names : List String :=
  ["conversationId", "playerId", "npcId", "providerId", "treeId", "currentNodeId", "variables",
    "flags", "startedAt", "lastActivity", "turnCount", "history", "isActive", "endReason"]

/-- Every part of the conversation is what its field holds. -/
structure ReadFrom (c : Conversation) (fields : Fields) : Prop where
  id : fields.required "conversationId" string? = some c.id
  playerId : fields.required "playerId" string? = some c.playerId
  npcId : fields.required "npcId" string? = some c.npcId
  providerId : fields.required "providerId" string? = some c.providerId
  treeId : fields.required "treeId" string? = some c.treeId
  currentNodeId : fields.required "currentNodeId" string? = some c.currentNodeId
  vars : fields.required "variables" (dict? toJson?) = some c.vars
  flags : fields.required "flags" strings? = some c.flags
  startedAt : fields.required "startedAt" Instant.decode = some c.startedAt
  lastActivity : fields.required "lastActivity" Instant.decode = some c.lastActivity
  turnCount : fields.required "turnCount" (natural? Text.uint32Max) = some c.turnCount
  history : fields.required "history" strings? = some c.history
  isActive : fields.required "isActive" bool? = some c.isActive
  endReason : fields.nullable "endReason" EndReason.decode = some c.endReason

theorem exists_readFrom {d : Document} {c : Conversation} (h : decode d = some c) :
    ∃ fields, d.record? names = some fields ∧ c.ReadFrom fields := by
  obtain ⟨fields, hfields, h⟩ := Option.bind_eq_some_iff.mp h
  obtain ⟨id, hid, h⟩ := Option.bind_eq_some_iff.mp h
  obtain ⟨playerId, hplayerId, h⟩ := Option.bind_eq_some_iff.mp h
  obtain ⟨npcId, hnpcId, h⟩ := Option.bind_eq_some_iff.mp h
  obtain ⟨providerId, hproviderId, h⟩ := Option.bind_eq_some_iff.mp h
  obtain ⟨treeId, htreeId, h⟩ := Option.bind_eq_some_iff.mp h
  obtain ⟨currentNodeId, hcurrentNodeId, h⟩ := Option.bind_eq_some_iff.mp h
  obtain ⟨vars, hvars, h⟩ := Option.bind_eq_some_iff.mp h
  obtain ⟨flags, hflags, h⟩ := Option.bind_eq_some_iff.mp h
  obtain ⟨startedAt, hstartedAt, h⟩ := Option.bind_eq_some_iff.mp h
  obtain ⟨lastActivity, hlastActivity, h⟩ := Option.bind_eq_some_iff.mp h
  obtain ⟨turnCount, hturnCount, h⟩ := Option.bind_eq_some_iff.mp h
  obtain ⟨history, hhistory, h⟩ := Option.bind_eq_some_iff.mp h
  obtain ⟨isActive, hisActive, h⟩ := Option.bind_eq_some_iff.mp h
  obtain ⟨endReason, hendReason, h⟩ := Option.bind_eq_some_iff.mp h
  obtain rfl := Option.some.inj h
  exact ⟨fields, hfields, hid, hplayerId, hnpcId, hproviderId, htreeId, hcurrentNodeId, hvars,
    hflags, hstartedAt, hlastActivity, hturnCount, hhistory, hisActive, hendReason⟩

theorem isSound_of_decode {d : Document} {c : Conversation} (h : decode d = some c) :
    c.IsSound := by
  obtain ⟨fields, -, read⟩ := exists_readFrom h
  obtain ⟨_, hstartedAt⟩ := Fields.exists_of_required read.startedAt
  obtain ⟨_, hlastActivity⟩ := Fields.exists_of_required read.lastActivity
  obtain ⟨_, hturnCount⟩ := Fields.exists_of_required read.turnCount
  obtain ⟨_, hvars⟩ := Fields.exists_of_required read.vars
  exact {
    startedAt := Instant.isValid_of_decode hstartedAt
    lastActivity := Instant.isValid_of_decode hlastActivity
    turnCount := le_of_natural? hturnCount
    vars := fun value hvalue =>
      have ⟨_, hd⟩ := exists_of_dict? hvars value hvalue
      isCanonical_of_toJson? hd }

end Conversation

end Parley
