/-
Where conversations are saved between restarts.

Saving replaces everything that was saved before, and keeps only what is active.

* `Store.memory` — keeps the conversations themselves, in the order given;
* `Store.database` — keeps rows, one for each conversation id; a repeated id
  refuses the whole save, and rows are read in the order of their last activity;
* `Store.verbatim` — keeps whatever it is given, and can be made to refuse.
-/
import Parley.Conversation
import Parley.Error
import Parley.Json.Printer

namespace Parley

/-- A row of the database. -/
structure Row where
  conversationId : String
  /-- The time by which rows are ordered, as text. -/
  lastActivity : String
  /-- The conversation, as the text of a document. -/
  state : String
  deriving DecidableEq, Inhabited

namespace Row

def ofConversation (c : Conversation) : Row :=
  { conversationId := c.id, lastActivity := c.lastActivity.offsetText, state := c.toJson.compact }

/-- The conversation, if its text can be read back. -/
def conversation? (r : Row) : Option Conversation :=
  (Document.read r.state).bind Conversation.decode

/-- The order of reading, which is that of the texts of the times.  A query by that column alone
may list rows with the same text in any order; that they come by id here is a choice. -/
def le (a b : Row) : Bool :=
  a.lastActivity < b.lastActivity ||
    (a.lastActivity == b.lastActivity && !(b.conversationId < a.conversationId))

end Row

inductive Store where
  | memory (saved : List Conversation)
  | database (rows : List Row)
  | verbatim (saved : List Conversation) (refusesSave refusesLoad : Bool)
  deriving DecidableEq, Inhabited

namespace Store

/-- Replace everything saved. -/
def replaceActive (s : Store) (cs : List Conversation) : Except StoreError Store :=
  match s with
  | memory _ => .ok (memory (cs.filter (·.isActive)))
  | database _ =>
    let rows := (cs.filter (·.isActive)).map Row.ofConversation
    if (rows.map Row.conversationId).Nodup then .ok (database rows) else .error .database
  | verbatim _ refusesSave refusesLoad =>
    if refusesSave then .error .poisoned else .ok (verbatim cs refusesSave refusesLoad)

def loadActive (s : Store) : Except StoreError (List Conversation) :=
  match s with
  | memory saved => .ok saved
  | database rows =>
    match Document.collect Row.conversation? (rows.mergeSort Row.le) with
    | some cs => .ok cs
    | none => .error .encoding
  | verbatim saved _ refusesLoad => if refusesLoad then .error .poisoned else .ok saved

end Store

end Parley
