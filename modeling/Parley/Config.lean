/-
Configuration of the engine.

Every setting has a default, so a document names only what it changes.  A
configuration can also be taken from environment variables; the first variable
with a value that makes no sense is reported.
-/
import Parley.Document.Reader
import Parley.Turn

namespace Parley

/-- Where conversations are saved between restarts. -/
structure Persistence where
  enabled : Bool := false
  databasePath : String := "dialogue.db"
  deriving DecidableEq, Inhabited

structure Config where
  /-- The directory with one tree document per file. -/
  contentDir : String := "content/dialogues"
  defaultProvider : Option String := none
  maxConversationsPerPlayer : Nat := 3
  conversationTimeoutMinutes : Nat := 30
  /-- Time between two runs of the maintenance task. -/
  cleanupIntervalSeconds : Nat := 60
  numericSelection : NumericSelection := .ordinal
  /-- Added to the message when the input picks no choice. -/
  notUnderstoodSuffix : String :=
    "\n\n(I didn't understand that. Please choose one of the options.)"
  /-- Said when a turn comes to an empty target. -/
  farewellMessage : String := "Farewell."
  /-- Trees of NPCs, by id. -/
  npcTrees : Dict String := ∅
  eventCapacity : Nat := 256
  persistence : Persistence := {}
  deriving DecidableEq, Inhabited

inductive ConfigError where
  | unreadable
  | malformed
  | invalidVariable (name value : String)
  deriving DecidableEq, Inhabited

namespace ConfigError

def message : ConfigError → String
  | unreadable => "failed to read config"
  | malformed => "malformed config"
  | invalidVariable name value => "invalid value for " ++ name ++ ": " ++ value

end ConfigError

namespace Persistence

def toJson (p : Persistence) : Json :=
  .obj [("databasePath", .str p.databasePath), ("enabled", .bool p.enabled)]

def decode (d : Document) : Option Persistence := do
  let fields ← d.record? ["enabled", "databasePath"]
  let default : Persistence := {}
  return {
    enabled := ← fields.optional "enabled" default.enabled Document.bool?
    databasePath := ← fields.optional "databasePath" default.databasePath Document.string? }

end Persistence

namespace Settings

/-- The part of a configuration that turns read. -/
def ofConfig (c : Config) : Settings :=
  { timeout := c.conversationTimeoutMinutes * 60000
    numericSelection := c.numericSelection
    notUnderstoodSuffix := c.notUnderstoodSuffix
    farewellMessage := c.farewellMessage }

def toJson (s : Settings) : Json :=
  .obj [
    ("farewellMessage", .str s.farewellMessage),
    ("notUnderstoodSuffix", .str s.notUnderstoodSuffix),
    ("numericSelection", s.numericSelection.toJson),
    ("timeoutMs", .int s.timeout)]

end Settings

namespace Config

/-- Seconds between two runs of the maintenance task, at least one. -/
def cleanupInterval (c : Config) : Nat := max c.cleanupIntervalSeconds 1

def toJson (c : Config) : Json :=
  .obj [
    ("cleanupIntervalSeconds", .int c.cleanupIntervalSeconds),
    ("contentDir", .str c.contentDir),
    ("conversationTimeoutMinutes", .int c.conversationTimeoutMinutes),
    ("defaultProvider", Json.ofOption .str c.defaultProvider),
    ("eventCapacity", .int c.eventCapacity),
    ("farewellMessage", .str c.farewellMessage),
    ("maxConversationsPerPlayer", .int c.maxConversationsPerPlayer),
    ("notUnderstoodSuffix", .str c.notUnderstoodSuffix),
    ("npcTrees", .ofDict .str c.npcTrees),
    ("numericSelection", c.numericSelection.toJson),
    ("persistence", c.persistence.toJson)]

def decode (d : Document) : Option Config := do
  let fields ← d.record?
    ["contentDir", "defaultProvider", "maxConversationsPerPlayer", "conversationTimeoutMinutes",
      "cleanupIntervalSeconds", "numericSelection", "notUnderstoodSuffix", "farewellMessage",
      "npcTrees", "eventCapacity", "persistence"]
  let default : Config := {}
  let size := Document.natural? Text.uint64Max
  return {
    contentDir := ← fields.optional "contentDir" default.contentDir Document.string?
    defaultProvider := ← fields.nullable "defaultProvider" Document.string?
    maxConversationsPerPlayer := ←
      fields.optional "maxConversationsPerPlayer" default.maxConversationsPerPlayer size
    conversationTimeoutMinutes := ←
      fields.optional "conversationTimeoutMinutes" default.conversationTimeoutMinutes
        (Document.natural? Text.uint32Max)
    cleanupIntervalSeconds := ←
      fields.optional "cleanupIntervalSeconds" default.cleanupIntervalSeconds size
    numericSelection := ←
      fields.optional "numericSelection" default.numericSelection NumericSelection.decode
    notUnderstoodSuffix := ←
      fields.optional "notUnderstoodSuffix" default.notUnderstoodSuffix Document.string?
    farewellMessage := ←
      fields.optional "farewellMessage" default.farewellMessage Document.string?
    npcTrees := ← fields.optional "npcTrees" default.npcTrees (Document.dict? Document.string?)
    eventCapacity := ← fields.optional "eventCapacity" default.eventCapacity size
    persistence := ← fields.optional "persistence" default.persistence Persistence.decode }

/-- The configuration of a document; `none` stands for a file that cannot be read. -/
def ofText : Option String → Except ConfigError Config
  | none => .error .unreadable
  | some text =>
    match (Document.read text).bind decode with
    | some c => .ok c
    | none => .error .malformed

/-- Names of environment variables with their values. -/
abbrev Environment := String → Option String

/-- A number from a variable, or the default; blanks around it do not count. -/
def numberVariable (env : Environment) (name : String) (bound default : Nat) :
    Except ConfigError Nat :=
  match env name with
  | none => .ok default
  | some value =>
    match Text.natural? bound (Text.trim value) with
    | some n => .ok n
    | none => .error (.invalidVariable name value)

def selectionVariable (env : Environment) (name : String) (default : NumericSelection) :
    Except ConfigError NumericSelection :=
  match env name with
  | none => .ok default
  | some value =>
    match NumericSelection.ofName? value with
    | some n => .ok n
    | none => .error (.invalidVariable name value)

/-- The defaults, changed by the environment.  Naming a database turns
persistence on. -/
def ofEnvironment (env : Environment) : Except ConfigError Config := do
  let default : Config := {}
  let maxConversationsPerPlayer ← numberVariable env "DIALOGUE_MAX_CONVERSATIONS"
    Text.uint64Max default.maxConversationsPerPlayer
  let conversationTimeoutMinutes ← numberVariable env "DIALOGUE_TIMEOUT_MINUTES"
    Text.uint32Max default.conversationTimeoutMinutes
  let cleanupIntervalSeconds ← numberVariable env "DIALOGUE_CLEANUP_SECONDS"
    Text.uint64Max default.cleanupIntervalSeconds
  let numericSelection ← selectionVariable env "DIALOGUE_NUMERIC_SELECTION"
    default.numericSelection
  return { default with
    contentDir := (env "DIALOGUE_CONTENT_DIR").getD default.contentDir
    defaultProvider := env "DIALOGUE_DEFAULT_PROVIDER"
    maxConversationsPerPlayer
    conversationTimeoutMinutes
    cleanupIntervalSeconds
    numericSelection
    persistence := match env "DIALOGUE_DB_PATH" with
      | some databasePath => { enabled := true, databasePath }
      | none => default.persistence }

end Config

end Parley
