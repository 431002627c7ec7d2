/-
What is announced is heard.

* `Manager.delivery` — every event of a run is read from what it is written as, and is the same
  event, unless it tells of a variable that was null before;
* `Manager.delivery_riddle` — and such events are announced.
-/
import Parley.Proofs.Manager.Holdings

namespace Parley

open Document

namespace Manager

/-- Every event that a run announces is heard, exactly as it was unless it tells of a variable
that was null: that variable is then heard to be new. -/
theorem delivery (config : Config) (ids : IdSupply) {now : Instant} (hnow : now.IsValid)
    (store : Option Store) (hstore : ∀ s ∈ store, s.HoldsSound) (sample : Nat → Float)
    {calls : List Call} (hcalls : ∀ c ∈ calls, c.BringsSound ∧ ∀ p ∈ c.providers, p.Authored) :
    ∀ e ∈ (run { Manager.new config ids now store with sample } calls).2,
      Event.decode (ofJson e.toJson) = some e.heard ∧
      (Event.decode (ofJson e.toJson) = some e ↔ e.occurrence.overwritesNull = false) := by
  intro e he
  have held := HoldsSound.new config ids hnow store hstore sample
  have sound := (held.run (.new config ids now store sample) hcalls).events e he
  have read := Event.decode_toJson sound
  refine ⟨read, ?_⟩
  rw [read, Option.some.injEq, ← Occurrence.heard_eq_iff]
  constructor
  · exact congrArg Event.occurrence
  · intro hsame
    rw [Event.heard, hsame]

end Manager

namespace Inn

/-- A meal from the kitchen. -/
def meal : List Call := [.register cook, .start diner none, .advance diner "" "1"]

theorem epoch_isValid : Instant.epoch.IsValid :=
  ⟨by decide, by decide, fun h => absurd h (by decide)⟩

theorem supper_isSound : supper.IsSound :=
  Tree.isSound_of_decode (d := ofJson supper.toJson) (by decide +kernel)

theorem holdsSound_new (id : String) : Provider.HoldsSound { id } :=
  ⟨fun _ _ ht => absurd ht nofun, nofun⟩

theorem diner_isSound : diner.IsSound where
  player := {
    level := ⟨by decide, by decide⟩
    currency := ⟨by decide, by decide⟩
    stats := nofun
    skills := nofun
    factionRelations := nofun
    quests := nofun }
  npc := nofun
  world := ⟨epoch_isValid, nofun⟩

theorem meal_fit : ∀ c ∈ meal, c.BringsSound ∧ ∀ p ∈ c.providers, p.Authored := by
  have cook_holdsSound : cook.HoldsSound :=
    ((holdsSound_new "cook").edit (e := .replaceTree supper) supper_isSound).edit
      (e := .mapNpc "cook" "supper") trivial
  refine List.forall_mem_cons.mpr ⟨⟨cook_holdsSound, ?_⟩, List.forall_mem_cons.mpr
    ⟨⟨diner_isSound, nofun⟩, List.forall_mem_singleton.mpr ⟨diner_isSound, nofun⟩⟩⟩
  exact List.forall_mem_singleton.mpr cook_authored

/-- The answer is known to be open, and then found. -/
def riddle : Tree :=
  { id := "riddle"
    name := "Riddle"
    startNodeId := "ask"
    vars := Dict.ofList [("answer", .null)]
    nodes := Dict.ofList [
      ("ask", { id := "ask", message := "Well?", vars := Dict.ofList [("answer", .int 1)] })] }

def riddler : Provider :=
  (Provider.edit { id := "riddler" } (.replaceTree riddle)).edit (.mapNpc "cook" "riddle")

def guesses : List Call := [.register riddler, .start diner none]

theorem guesses_fit : ∀ c ∈ guesses, c.BringsSound ∧ ∀ p ∈ c.providers, p.Authored := by
  have riddle_isSound : riddle.IsSound :=
    Tree.isSound_of_decode (d := ofJson riddle.toJson) (by decide +kernel)
  have riddler_holdsSound : riddler.HoldsSound :=
    ((holdsSound_new "riddler").edit (e := .replaceTree riddle) riddle_isSound).edit
      (e := .mapNpc "cook" "riddle") trivial
  refine List.forall_mem_cons.mpr ⟨⟨riddler_holdsSound, ?_⟩,
    List.forall_mem_singleton.mpr ⟨diner_isSound, nofun⟩⟩
  exact List.forall_mem_singleton.mpr
    (.edit (.mapNpc "cook" "riddle") (.edit (.replaceTree riddle) (.new _ _ _ _ _)))

end Inn

namespace Manager

/-- Nothing was null before the meal, so all of it is heard. -/
theorem delivery_meal :
    let events := ((Manager.new {} Inn.ids Instant.epoch none).run Inn.meal).2
    events.map (fun e => e.occurrence.name) =
      ["CONVERSATION_STARTED", "DIALOGUE_VARIABLE_CHANGED", "DIALOGUE_NODE_REACHED",
        "DIALOGUE_ACTION_EXECUTED", "DIALOGUE_CHOICE_MADE", "DIALOGUE_ACTION_EXECUTED",
        "DIALOGUE_NODE_REACHED", "CONVERSATION_ENDED"] ∧
    ∀ e ∈ events, Event.decode (ofJson e.toJson) = some e := by
  intro events
  have kept : ∀ e ∈ events, e.occurrence.overwritesNull = false := by decide +kernel
  refine ⟨by decide +kernel, fun e he => ?_⟩
  exact (delivery {} Inn.ids Inn.epoch_isValid none nofun _ Inn.meal_fit e he).2.mpr (kept e he)

/-- The answer was open before it was found, but is heard to be new. -/
theorem delivery_riddle :
    let events := ((Manager.new {} Inn.ids Instant.epoch none).run Inn.guesses).2
    (∀ c ∈ Inn.guesses, c.BringsSound ∧ ∀ p ∈ c.providers, p.Authored) ∧
    ∃ e ∈ events, e.occurrence = .variableChanged "answer" (some .null) (.int 1) ∧
      Event.decode (ofJson e.toJson) =
        some { e with occurrence := .variableChanged "answer" none (.int 1) } ∧
      Event.decode (ofJson e.toJson) ≠ some e := by
  intro events
  have told : .variableChanged "answer" (some .null) (.int 1) ∈ events.map Event.occurrence := by
    decide +kernel
  obtain ⟨e, he, ho⟩ := List.mem_map.mp told
  have held := HoldsSound.new {} Inn.ids Inn.epoch_isValid none nofun fun _ => 0.5
  have sound := (held.run (.new {} Inn.ids Instant.epoch none _) Inn.guesses_fit).events e he
  have read := Event.decode_toJson sound
  rw [Event.heard, ho] at read
  refine ⟨Inn.guesses_fit, e, he, ho, read, fun hsame => ?_⟩
  rw [read, Option.some.injEq] at hsame
  have other : Occurrence.variableChanged "answer" none (.int 1) = e.occurrence :=
    congrArg Event.occurrence hsame
  rw [ho] at other
  exact absurd other (by decide)

end Manager

end Parley
