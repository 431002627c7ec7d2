/-
Errors as JSON.

A report names the cause and words it.  For a document that is unreadable or
malformed, and for a store that fails, the name says it all.  The report of a
`DialogueError` also tells its kind, and whether the player can do something
about it.
-/
import Parley.Config

namespace Parley

namespace ContentError

def name : ContentError → String
  | unreadable => "Unreadable"
  | malformed => "Malformed"
  | missingField _ => "MissingField"
  | startNodeMissing .. => "StartNodeMissing"
  | nodeIdMismatch .. => "NodeIdMismatch"
  | emptyMessage .. => "EmptyMessage"
  | danglingReference .. => "DanglingReference"

/-- The members of a report. -/
def fields (e : ContentError) : List (String × Json) :=
  match e with
  | unreadable | malformed => [("error", .str e.name)]
  | e => [("error", .str e.name), ("message", .str e.message)]

def report (e : ContentError) : Json := Json.ofFields e.fields

end ContentError

namespace StoreError

def name : StoreError → String
  | database => "Database"
  | encoding => "Encoding"
  | poisoned => "Poisoned"

def fields (e : StoreError) : List (String × Json) := [("error", .str e.name)]

def report (e : StoreError) : Json := Json.ofFields e.fields

end StoreError

namespace ConfigError

def report : ConfigError → Json
  | unreadable => Json.ofFields [("error", .str "Unreadable")]
  | malformed => Json.ofFields [("error", .str "Malformed")]
  | e => Json.ofFields [("error", .str "InvalidVariable"), ("message", .str e.message)]

end ConfigError

namespace ErrorKind

def name : ErrorKind → String
  | content => "Content"
  | lookup => "Lookup"
  | ownership => "Ownership"
  | timeout => "Timeout"
  | quota => "Quota"
  | persistence => "Persistence"

end ErrorKind

namespace DialogueError

/-- The name of the cause; an error that wraps another goes by that one's name. -/
def name : DialogueError → String
  | noTreeMapped _ => "NoTreeMapped"
  | treeNotFound _ => "TreeNotFound"
  | nodeNotFound .. => "NodeNotFound"
  | conversationNotFound _ => "ConversationNotFound"
  | ownershipMismatch .. => "OwnershipMismatch"
  | timeout _ => "Timeout"
  | quotaExceeded .. => "QuotaExceeded"
  | providerNotFound _ => "ProviderNotFound"
  | duplicateProvider _ => "DuplicateProvider"
  | noProviderAvailable _ => "NoProviderAvailable"
  | content cause => cause.name
  | persistence cause => cause.name

def report (e : DialogueError) : Json :=
  let fields := match e with
    | content cause => cause.fields
    | persistence cause => cause.fields
    | e => [("error", .str e.name), ("message", .str e.message)]
  Json.ofFields (fields ++ [("class", .str e.kind.name), ("recoverable", .bool e.isRecoverable)])

end DialogueError

end Parley
