/-
The conversations that are going on.

Conversations are held by id, each beside its owner, who is the player it began
with.  Lists come in the order in which the conversations began.  Where that
leaves the order open they come by id, which is a choice of this library: a
table promises no order of its own.

* `Arena.finish` — takes a conversation out and ends it;
* `Arena.sweep` — the same for all that are idle, except those whose turn is
  running.
-/
import Parley.Turn

namespace Parley

structure Arena.Entry where
  owner : String
  conversation : Conversation
  /-- A turn is running; the conversation must not be swept away under it. -/
  inTurn : Bool := false
  deriving DecidableEq, Inhabited

structure Arena where
  entries : Dict Arena.Entry := ∅
  deriving DecidableEq, Inhabited

namespace Arena

/-- Hold a conversation, in place of any with the same id. -/
def insert (a : Arena) (c : Conversation) : Arena :=
  ⟨a.entries.insert c.id { owner := c.playerId, conversation := c }⟩

def get? (a : Arena) (id : String) : Option Conversation :=
  (a.entries.get? id).map Entry.conversation

def contains (a : Arena) (id : String) : Bool := a.entries.contains id

def size (a : Arena) : Nat := a.entries.size

/-- Take a conversation out as it is. -/
def remove (a : Arena) (id : String) : Arena := ⟨a.entries.erase id⟩

/-- Replace the conversation held under an id; its owner stays. -/
def update (a : Arena) (id : String) (c : Conversation) : Arena :=
  ⟨a.entries.modify id fun e => { e with conversation := c }⟩

/-- Say whether a turn of the conversation is running. -/
def markTurn (a : Arena) (id : String) (inTurn : Bool) : Arena :=
  ⟨a.entries.modify id fun e => { e with inTurn }⟩

/-- In the order in which they began.  Those that began together stay as they are
given; that an arena gives them by id is a choice. -/
def byStart (cs : List Conversation) : List Conversation :=
  cs.mergeSort fun a b => a.startedAt.le b.startedAt

def all (a : Arena) : List Conversation := byStart (a.entries.values.map Entry.conversation)

def ofPlayer (a : Arena) (playerId : String) : List Conversation :=
  byStart ((a.entries.values.filter (·.owner == playerId)).map Entry.conversation)

def countOfPlayer (a : Arena) (playerId : String) : Nat :=
  a.entries.values.countP (·.owner == playerId)

/-- The conversations that a provider runs.  That they come by id is a choice. -/
def idsOfProvider (a : Arena) (providerId : String) : List String :=
  (a.entries.filter fun _ e => e.conversation.providerId == providerId).keys

/-- Take a conversation out and end it; `none` if it is not here. -/
def finish (a : Arena) (id : String) (reason : EndReason) (now : Instant) :
    Option (Arena × Conversation × List Event) :=
  (a.get? id).map fun c =>
    let (ended, events) := c.conclude reason now
    (a.remove id, ended, events)

/-- Finish several conversations in turn; the ids of those that were here. -/
def finishAll (a : Arena) (reason : EndReason) (now : Instant) :
    List String → Arena × List String × List Event
  | [] => (a, [], [])
  | id :: rest =>
    match a.finish id reason now with
    | some (a, _, events) =>
      let (a, ids, others) := a.finishAll reason now rest
      (a, id :: ids, events ++ others)
    | none => a.finishAll reason now rest

/-- Ended or idle past the timeout, and no turn running. -/
def Entry.isStale (e : Entry) (now : Instant) (timeout : Int) : Bool :=
  !e.inTurn && (!e.conversation.isActive || e.conversation.isExpired now timeout)

/-- End what is stale, one after another.  That they end by id is a choice. -/
def sweep (a : Arena) (now : Instant) (timeout : Int) : Arena × List String × List Event :=
  let stale := a.entries.filter fun _ e => e.isStale now timeout
  a.finishAll .timeout now stale.keys

end Arena

end Parley
