/-
One-line summaries for logs.

A summary names a component and shows its settings, with two dots for what is
left out.
-/
import Parley.Manager

namespace Parley.Summary

/-- The text in quotes, with quotes, backslashes, line ends and tabs escaped. -/
def quoted (s : String) : String :=
  let escape (c : Char) : List Char :=
    if c = '"' then ['\\', '"']
    else if c = '\\' then ['\\', '\\']
    else if c = '\n' then ['\\', 'n']
    else if c = '\r' then ['\\', 'r']
    else if c = '\t' then ['\\', 't']
    else [c]
  String.ofList ('"' :: s.toList.flatMap escape ++ ['"'])

/-- A component with its fields; `isOpen` if more is left out. -/
def record (name : String) (fields : List (String × String)) (isOpen : Bool) : String :=
  let shown := fields.map fun (field, value) => field ++ ": " ++ value
  name ++ " \x7b " ++ ", ".intercalate (if isOpen then shown ++ [".."] else shown) ++ " \x7d"

def list (items : List String) : String := "[" ++ ", ".intercalate items ++ "]"

def table (entries : List (String × String)) : String :=
  "\x7b" ++ ", ".intercalate (entries.map fun (key, value) => key ++ ": " ++ value) ++ "\x7d"

def option : Option String → String
  | none => "None"
  | some s => "Some(" ++ s ++ ")"

def flag (b : Bool) : String := if b then "true" else "false"

def selection : NumericSelection → String
  | .ordinal => "Ordinal"
  | .choiceId => "ChoiceId"

/-- A time span in milliseconds, shown as seconds and nanoseconds. -/
def span (ms : Int) : String :=
  record "TimeDelta"
    [("secs", toString (ms / 1000)), ("nanos", toString (ms % 1000 * 1000000))] false

def ofSettings (s : Settings) : String :=
  record "EngineSettings" [
    ("conversation_timeout", span s.timeout),
    ("numeric_selection", selection s.numericSelection),
    ("not_understood_suffix", quoted s.notUnderstoodSuffix),
    ("farewell_message", quoted s.farewellMessage)] false

def ofPersistence (p : Persistence) : String :=
  record "PersistenceConfig"
    [("enabled", flag p.enabled), ("database_path", quoted p.databasePath)] false

def ofConfig (c : Config) : String :=
  record "DialogueConfig" [
    ("content_dir", quoted c.contentDir),
    ("default_provider", option (c.defaultProvider.map quoted)),
    ("max_conversations_per_player", toString c.maxConversationsPerPlayer),
    ("conversation_timeout_minutes", toString c.conversationTimeoutMinutes),
    ("cleanup_interval_seconds", toString c.cleanupIntervalSeconds),
    ("numeric_selection", selection c.numericSelection),
    ("not_understood_suffix", quoted c.notUnderstoodSuffix),
    ("farewell_message", quoted c.farewellMessage),
    ("npc_trees", table (c.npcTrees.entries.map fun (npc, tree) => (quoted npc, quoted tree))),
    ("event_capacity", toString c.eventCapacity),
    ("persistence", ofPersistence c.persistence)] false

def ofProvider (p : Provider) : String :=
  record "CannedProvider"
    [("id", quoted p.id), ("trees", list (p.trees.keys.map quoted))] true

def ofForum (f : Forum) : String :=
  record "ProviderContext" [("settings", ofSettings f.settings)] true

def ofManager (m : Manager) : String :=
  record "DialogueManager" [("config", ofConfig m.config)] true

def ofEvaluator : String := record "ConditionEvaluator" [] true

def ofExecutor : String := record "ActionExecutor" [] true

end Parley.Summary
