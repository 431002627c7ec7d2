/-
What can go wrong, by cause, and how it is worded.

`DialogueError` is what callers see.  `DialogueError.kind` sorts the causes for
the layer above, and `isRecoverable` says whether the player can do something
about it.  Faults inside content while a turn runs are none of these: a condition
or an action that makes no sense counts as not met.
-/

namespace Parley

/-- Why a tree document is refused. -/
inductive ContentError where
  | unreadable
  | malformed
  | missingField (field : String)
  | startNodeMissing (treeId nodeId : String)
  | nodeIdMismatch (treeId key declared : String)
  | emptyMessage (treeId nodeId : String)
  | danglingReference (treeId source target : String)
  deriving DecidableEq, Inhabited

/-- Why a store of conversations fails. -/
inductive StoreError where
  /-- The database refuses; nothing of the save takes effect. -/
  | database
  /-- A saved conversation cannot be read back. -/
  | encoding
  | poisoned
  deriving DecidableEq, Inhabited

inductive DialogueError where
  | noTreeMapped (npcId : String)
  | treeNotFound (treeId : String)
  | nodeNotFound (treeId nodeId : String)
  | conversationNotFound (conversationId : String)
  | ownershipMismatch (conversationId playerId : String)
  | timeout (conversationId : String)
  | quotaExceeded (playerId : String) (limit : Nat)
  | providerNotFound (providerId : String)
  | duplicateProvider (providerId : String)
  | noProviderAvailable (npcId : String)
  | content (cause : ContentError)
  | persistence (cause : StoreError)
  deriving DecidableEq, Inhabited

inductive ErrorKind where
  | content
  | lookup
  | ownership
  | timeout
  | quota
  | persistence
  deriving DecidableEq, Inhabited

namespace ContentError

def message : ContentError → String
  | unreadable => "failed to read"
  | malformed => "malformed tree document"
  | missingField field => "tree is missing required field `" ++ field ++ "`"
  | startNodeMissing treeId nodeId =>
    "tree " ++ treeId ++ ": start node " ++ nodeId ++ " does not exist"
  | nodeIdMismatch treeId key declared =>
    "tree " ++ treeId ++ ": node keyed " ++ key ++ " declares id " ++ declared
  | emptyMessage treeId nodeId => "tree " ++ treeId ++ ": node " ++ nodeId ++ " has no message text"
  | danglingReference treeId source target =>
    "tree " ++ treeId ++ ": " ++ source ++ " points at missing node " ++ target

end ContentError

namespace StoreError

def message : StoreError → String
  | database => "database error"
  | encoding => "state encoding error"
  | poisoned => "store lock poisoned"

end StoreError

namespace DialogueError

def message : DialogueError → String
  | noTreeMapped npcId => "no dialogue tree mapped for npc " ++ npcId
  | treeNotFound treeId => "dialogue tree not found: " ++ treeId
  | nodeNotFound treeId nodeId => "node " ++ nodeId ++ " not found in tree " ++ treeId
  | conversationNotFound conversationId => "conversation not found: " ++ conversationId
  | ownershipMismatch conversationId playerId =>
    "conversation " ++ conversationId ++ " does not belong to player " ++ playerId
  | timeout conversationId => "conversation " ++ conversationId ++ " timed out"
  | quotaExceeded playerId limit =>
    "player " ++ playerId ++ " already has " ++ toString limit ++ " active conversations"
  | providerNotFound providerId => "provider not found: " ++ providerId
  | duplicateProvider providerId => "provider already registered: " ++ providerId
  | noProviderAvailable npcId => "no provider can handle npc " ++ npcId
  | content cause => cause.message
  | persistence cause => "persistence error: " ++ cause.message

def kind : DialogueError → ErrorKind
  | noTreeMapped _ | treeNotFound _ | nodeNotFound .. | conversationNotFound _
  | providerNotFound _ | noProviderAvailable _ => .lookup
  | ownershipMismatch .. => .ownership
  | timeout _ => .timeout
  | quotaExceeded .. => .quota
  | duplicateProvider _ | content _ => .content
  | persistence _ => .persistence

/-- The player can retry, for instance after ending another conversation. -/
def isRecoverable (e : DialogueError) : Bool :=
  match e.kind with
  | .quota | .timeout | .ownership => true
  | .content | .lookup | .persistence => false

end DialogueError

end Parley
