/-
Contexts that are written out read back.

* `Player.decode_toJson`, `Npc.decode_toJson`, `World.decode_toJson`, `Scope.decode_toJson`,
  `Context.decode_toJson` — what is written is read as it was;
* `Context.isCanonical_toJson` — and lists its members in order, so that it can stand inside
  another value.

Design notes: `IsSound` says again what can be written, here also that whole numbers have
64 bits.
-/
import Parley.Context
import Parley.Proofs.Document.Content

namespace Parley

open Document

/-! ### Values in order -/

namespace Json

theorem isCanonical_obj {fields : List (String × Json)} (names : List String)
    (hnames : fields.map Prod.fst = names) (hsorted : names.Pairwise (· < ·))
    (h : HaveCanonical fields) : (obj fields).IsCanonical :=
  ⟨List.pairwise_map.mp (hnames ▸ hsorted), h⟩

theorem isCanonical_ofStrings (items : List String) : (ofStrings items).IsCanonical := by
  show AreCanonical (items.map str)
  induction items with
  | nil => trivial
  | cons _ rest ih => exact ⟨trivial, ih⟩

theorem isCanonical_ofDict {α : Type} {encode : α → Json} {table : Dict α}
    (h : ∀ a ∈ table.values, (encode a).IsCanonical) : (ofDict encode table).IsCanonical := by
  refine ⟨List.pairwise_map.mpr table.sorted, haveCanonical_iff.mpr fun field hfield => ?_⟩
  obtain ⟨entry, hentry, rfl⟩ := List.mem_map.mp hfield
  exact h entry.2 (List.mem_map_of_mem hentry)

end Json

def Text.IsInt64 (n : Int) : Prop := int64Min ≤ n ∧ n ≤ int64Max

theorem Document.int64?_ofInt {n : Int} (h : Text.IsInt64 n) : int64? (ofJson (.int n)) = some n :=
  if_pos h

/-- A table of whole numbers with 64 bits. -/
def AreInt64 (table : Dict Int) : Prop := ∀ n ∈ table.values, Text.IsInt64 n

theorem AreInt64.read {table : Dict Int} (h : AreInt64 table) :
    dict? int64? (ofJson (numbersToJson table)) = some table :=
  dict?_ofJson fun n hn => int64?_ofInt (h n hn)

theorem isCanonical_numbersToJson (table : Dict Int) : (numbersToJson table).IsCanonical :=
  Json.isCanonical_ofDict fun _ _ => trivial

/-! ### Players -/

def Quest.IsSound (q : Quest) : Prop := q.progress.IsCanonical

structure Player.IsSound (p : Player) : Prop where
  level : Text.IsInt64 p.level
  currency : Text.IsInt64 p.currency
  stats : AreInt64 p.stats
  skills : AreInt64 p.skills
  factionRelations : AreInt64 p.factionRelations
  quests : ∀ q ∈ p.quests.values, q.IsSound

namespace Quest

def members (q : Quest) : List (String × Json) :=
  (if q.progress = .null then [] else [("progress", q.progress)]) ++ [("status", .str q.status)]

theorem toJson_eq (q : Quest) : q.toJson = .obj q.members := rfl

theorem nodup_members (q : Quest) : (q.members.map Prod.fst).Nodup := by
  rw [members]
  split <;> simp

theorem decode_toJson {q : Quest} (h : q.IsSound) : decode (ofJson q.toJson) = some q := by
  obtain ⟨fields, hfields, holds⟩ := record?_obj ["status", "progress"] q.nodup_members
  have statusRead : fields.optional "status" "" string? = some q.status := by
    refine holds.optional (v := .str q.status) (by simp) ?_ rfl
    rw [members]
    split <;> rfl
  have progressRead : fields.optional "progress" .null toJson? = some q.progress := by
    -- No progress is left out, and read as none.
    by_cases hnull : q.progress = .null
    · rw [hnull]
      refine holds.optional_absent (by simp) ?_
      rw [members, if_pos hnull]
      rfl
    · refine holds.optional (v := q.progress) (by simp) ?_ (toJson?_ofJson _ h)
      rw [members, if_neg hnull]
      rfl
  rw [decode, toJson_eq, hfields]
  simp only [Option.bind_eq_bind, Option.bind_some, statusRead, progressRead, Option.pure_def]

theorem isCanonical_toJson {q : Quest} (h : q.IsSound) : q.toJson.IsCanonical := by
  rw [toJson_eq, members]
  split
  · exact Json.isCanonical_obj ["status"] rfl (by decide) ⟨trivial, trivial⟩
  · exact Json.isCanonical_obj ["progress", "status"] rfl (by decide) ⟨h, trivial, trivial⟩

end Quest

namespace Player

def members (p : Player) : List (String × Json) :=
  [("currency", .int p.currency),
    ("factionRelations", numbersToJson p.factionRelations),
    ("flags", .ofStrings p.flags),
    ("id", .str p.id),
    ("inventory", .ofStrings p.inventory),
    ("level", .int p.level),
    ("name", .str p.name),
    ("quests", .ofDict Quest.toJson p.quests),
    ("skills", numbersToJson p.skills),
    ("stats", numbersToJson p.stats)]

theorem toJson_eq (p : Player) : p.toJson = .obj p.members := rfl

theorem nodup_members (p : Player) : (p.members.map Prod.fst).Nodup := by
  simp [members]

theorem decode_toJson {p : Player} (h : p.IsSound) : decode (ofJson p.toJson) = some p := by
  obtain ⟨fields, hfields, holds⟩ := record?_obj
    ["id", "name", "level", "stats", "inventory", "flags", "quests", "skills", "currency",
      "factionRelations"] p.nodup_members
  have idRead : fields.optional "id" "" string? = some p.id :=
    holds.optional (v := .str p.id) (by simp) rfl rfl
  have nameRead : fields.optional "name" "" string? = some p.name :=
    holds.optional (v := .str p.name) (by simp) rfl rfl
  have levelRead : fields.optional "level" 0 int64? = some p.level :=
    holds.optional (by simp) rfl (int64?_ofInt h.level)
  have statsRead : fields.optional "stats" ∅ (dict? int64?) = some p.stats :=
    holds.optional (by simp) rfl h.stats.read
  have inventoryRead : fields.optional "inventory" [] strings? = some p.inventory :=
    holds.optional (by simp) rfl (strings?_ofStrings p.inventory)
  have flagsRead : fields.optional "flags" [] strings? = some p.flags :=
    holds.optional (by simp) rfl (strings?_ofStrings p.flags)
  have questsRead : fields.optional "quests" ∅ (dict? Quest.decode) = some p.quests :=
    holds.optional (by simp) rfl (dict?_ofJson fun q hq => Quest.decode_toJson (h.quests q hq))
  have skillsRead : fields.optional "skills" ∅ (dict? int64?) = some p.skills :=
    holds.optional (by simp) rfl h.skills.read
  have currencyRead : fields.optional "currency" 0 int64? = some p.currency :=
    holds.optional (by simp) rfl (int64?_ofInt h.currency)
  have relationsRead : fields.optional "factionRelations" ∅ (dict? int64?) =
      some p.factionRelations :=
    holds.optional (by simp) rfl h.factionRelations.read
  rw [decode, toJson_eq, hfields]
  simp only [Option.bind_eq_bind, Option.bind_some, idRead, nameRead, levelRead, statsRead,
    inventoryRead, flagsRead, questsRead, skillsRead, currencyRead, relationsRead,
    Option.pure_def]

theorem isCanonical_toJson {p : Player} (h : p.IsSound) : p.toJson.IsCanonical :=
  Json.isCanonical_obj
    ["currency", "factionRelations", "flags", "id", "inventory", "level", "name", "quests",
      "skills", "stats"] rfl (by decide)
    ⟨trivial, isCanonical_numbersToJson _, Json.isCanonical_ofStrings _, trivial,
      Json.isCanonical_ofStrings _, trivial, trivial,
      Json.isCanonical_ofDict fun q hq => Quest.isCanonical_toJson (h.quests q hq),
      isCanonical_numbersToJson _, isCanonical_numbersToJson _, trivial⟩

end Player

/-! ### NPCs and worlds -/

def Npc.IsSound (n : Npc) : Prop := AreInt64 n.stats

structure World.IsSound (w : World) : Prop where
  time : w.time.IsValid
  factionRelations : AreInt64 w.factionRelations

namespace Npc

def members (n : Npc) : List (String × Json) :=
  [("flags", .ofStrings n.flags),
    ("id", .str n.id),
    ("name", .str n.name),
    ("stats", numbersToJson n.stats)]

theorem toJson_eq (n : Npc) : n.toJson = .obj n.members := rfl

theorem decode_toJson {n : Npc} (h : n.IsSound) : decode (ofJson n.toJson) = some n := by
  obtain ⟨fields, hfields, holds⟩ := record?_obj ["id", "name", "flags", "stats"]
    (show (n.members.map Prod.fst).Nodup by simp [members])
  have idRead : fields.optional "id" "" string? = some n.id :=
    holds.optional (v := .str n.id) (by simp) rfl rfl
  have nameRead : fields.optional "name" "" string? = some n.name :=
    holds.optional (v := .str n.name) (by simp) rfl rfl
  have flagsRead : fields.optional "flags" [] strings? = some n.flags :=
    holds.optional (by simp) rfl (strings?_ofStrings n.flags)
  have statsRead : fields.optional "stats" ∅ (dict? int64?) = some n.stats :=
    holds.optional (by simp) rfl (AreInt64.read h)
  rw [decode, toJson_eq, hfields]
  simp only [Option.bind_eq_bind, Option.bind_some, idRead, nameRead, flagsRead, statsRead,
    Option.pure_def]

theorem isCanonical_toJson (n : Npc) : n.toJson.IsCanonical :=
  Json.isCanonical_obj ["flags", "id", "name", "stats"] rfl (by decide)
    ⟨Json.isCanonical_ofStrings _, trivial, trivial, isCanonical_numbersToJson _, trivial⟩

end Npc

namespace World

def members (w : World) : List (String × Json) :=
  [("factionRelations", numbersToJson w.factionRelations),
    ("flags", .ofStrings w.flags),
    ("time", w.time.toJson)]

theorem toJson_eq (w : World) : w.toJson = .obj w.members := rfl

theorem decode_toJson {w : World} (h : w.IsSound) : decode (ofJson w.toJson) = some w := by
  obtain ⟨fields, hfields, holds⟩ := record?_obj ["time", "flags", "factionRelations"]
    (show (w.members.map Prod.fst).Nodup by simp [members])
  have timeRead : fields.optional "time" Instant.epoch Instant.decode = some w.time :=
    holds.optional (by simp) rfl (Instant.decode_toJson h.time)
  have flagsRead : fields.optional "flags" [] strings? = some w.flags :=
    holds.optional (by simp) rfl (strings?_ofStrings w.flags)
  have relationsRead : fields.optional "factionRelations" ∅ (dict? int64?) =
      some w.factionRelations :=
    holds.optional (by simp) rfl h.factionRelations.read
  rw [decode, toJson_eq, hfields]
  simp only [Option.bind_eq_bind, Option.bind_some, timeRead, flagsRead, relationsRead,
    Option.pure_def]

theorem isCanonical_toJson (w : World) : w.toJson.IsCanonical :=
  Json.isCanonical_obj ["factionRelations", "flags", "time"] rfl (by decide)
    ⟨isCanonical_numbersToJson _, Json.isCanonical_ofStrings _, trivial, trivial⟩

end World

/-! ### Contexts -/

structure Scope.IsSound (s : Scope) : Prop where
  startedAt : s.startedAt.IsValid
  lastActivity : s.lastActivity.IsValid
  turnCount : s.turnCount ≤ Text.uint32Max
  vars : ∀ value ∈ s.vars.values, value.IsCanonical

structure Participants.IsSound (ps : Participants) : Prop where
  player : ps.player.IsSound
  npc : ps.npc.IsSound
  world : ps.world.IsSound

structure Context.IsSound (ctx : Context) : Prop where
  player : ctx.player.IsSound
  npc : ctx.npc.IsSound
  scope : ctx.conversation.IsSound
  world : ctx.world.IsSound

namespace Scope

def members (s : Scope) : List (String × Json) :=
  [("currentNodeId", .str s.currentNodeId),
    ("flags", .ofStrings s.flags),
    ("id", .str s.id),
    ("lastActivity", s.lastActivity.toJson),
    ("startedAt", s.startedAt.toJson),
    ("treeId", .str s.treeId),
    ("turnCount", .int s.turnCount),
    ("variables", valuesToJson s.vars)]

theorem toJson_eq (s : Scope) : s.toJson = .obj s.members := rfl

theorem decode_toJson {s : Scope} (h : s.IsSound) : decode (ofJson s.toJson) = some s := by
  obtain ⟨fields, hfields, holds⟩ := record?_obj
    ["id", "treeId", "currentNodeId", "variables", "flags", "turnCount", "startedAt",
      "lastActivity"] (show (s.members.map Prod.fst).Nodup by simp [members])
  have idRead : fields.optional "id" "" string? = some s.id :=
    holds.optional (v := .str s.id) (by simp) rfl rfl
  have treeRead : fields.optional "treeId" "" string? = some s.treeId :=
    holds.optional (v := .str s.treeId) (by simp) rfl rfl
  have nodeRead : fields.optional "currentNodeId" "" string? = some s.currentNodeId :=
    holds.optional (v := .str s.currentNodeId) (by simp) rfl rfl
  have varsRead : fields.optional "variables" ∅ (dict? toJson?) = some s.vars :=
    holds.optional (by simp) rfl (valuesRead h.vars)
  have flagsRead : fields.optional "flags" [] strings? = some s.flags :=
    holds.optional (by simp) rfl (strings?_ofStrings s.flags)
  have turnsRead : fields.optional "turnCount" 0 (natural? Text.uint32Max) = some s.turnCount :=
    holds.optional (by simp) rfl (natural?_ofNat h.turnCount)
  have startedRead : fields.optional "startedAt" Instant.epoch Instant.decode =
      some s.startedAt :=
    holds.optional (by simp) rfl (Instant.decode_toJson h.startedAt)
  have activityRead : fields.optional "lastActivity" Instant.epoch Instant.decode =
      some s.lastActivity :=
    holds.optional (by simp) rfl (Instant.decode_toJson h.lastActivity)
  rw [decode, toJson_eq, hfields]
  simp only [Option.bind_eq_bind, Option.bind_some, idRead, treeRead, nodeRead, varsRead,
    flagsRead, turnsRead, startedRead, activityRead, Option.pure_def]

theorem isCanonical_toJson {s : Scope} (h : s.IsSound) : s.toJson.IsCanonical :=
  Json.isCanonical_obj
    ["currentNodeId", "flags", "id", "lastActivity", "startedAt", "treeId", "turnCount",
      "variables"] rfl (by decide)
    ⟨trivial, Json.isCanonical_ofStrings _, trivial, trivial, trivial, trivial, trivial,
      Json.isCanonical_ofDict h.vars, trivial⟩

end Scope

namespace Context

def members (ctx : Context) : List (String × Json) :=
  [("conversation", ctx.conversation.toJson),
    ("npc", ctx.npc.toJson),
    ("player", ctx.player.toJson),
    ("world", ctx.world.toJson)]

theorem toJson_eq (ctx : Context) : ctx.toJson = .obj ctx.members := rfl

theorem decode_toJson {ctx : Context} (h : ctx.IsSound) : decode (ofJson ctx.toJson) = some ctx := by
  obtain ⟨fields, hfields, holds⟩ := record?_obj ["player", "npc", "conversation", "world"]
    (show (ctx.members.map Prod.fst).Nodup by simp [members])
  have playerRead : fields.required "player" Player.decode = some ctx.player :=
    holds.required (by simp) rfl (Player.decode_toJson h.player)
  have npcRead : fields.required "npc" Npc.decode = some ctx.npc :=
    holds.required (by simp) rfl (Npc.decode_toJson h.npc)
  have scopeRead : fields.required "conversation" Scope.decode = some ctx.conversation :=
    holds.required (by simp) rfl (Scope.decode_toJson h.scope)
  have worldRead : fields.required "world" World.decode = some ctx.world :=
    holds.required (by simp) rfl (World.decode_toJson h.world)
  rw [decode, toJson_eq, hfields]
  simp only [Option.bind_eq_bind, Option.bind_some, playerRead, npcRead, scopeRead, worldRead,
    Option.pure_def]

theorem isCanonical_toJson {ctx : Context} (h : ctx.IsSound) : ctx.toJson.IsCanonical :=
  Json.isCanonical_obj ["conversation", "npc", "player", "world"] rfl (by decide)
    ⟨Scope.isCanonical_toJson h.scope, Npc.isCanonical_toJson _,
      Player.isCanonical_toJson h.player, World.isCanonical_toJson _, trivial⟩

end Context

end Parley
