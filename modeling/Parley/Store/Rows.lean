/-
The file of a database: one row a line.

A row is written as a JSON object, whose text has no line break in it, so lines
and rows are the same.  `Store.ofFileText?` reads a file back; a line that is no
row spoils the whole file.
-/
import Parley.Store

namespace Parley

namespace Row

def toJson (r : Row) : Json :=
  .obj [
    ("conversationId", .str r.conversationId),
    ("lastActivity", .str r.lastActivity),
    ("state", .str r.state)]

def decode (d : Document) : Option Row := do
  let fields ← d.object? ["conversationId", "lastActivity", "state"]
  return {
    conversationId := ← fields.required "conversationId" Document.string?
    lastActivity := ← fields.required "lastActivity" Document.string?
    state := ← fields.required "state" Document.string? }

end Row

namespace Store

/-- The text of the file; only a database has one. -/
def fileText? : Store → Option String
  | database rows => some (String.join (rows.map fun r => r.toJson.compact ++ "\n"))
  | _ => none

/-- The database in a file; blank lines do not count. -/
def ofFileText? (text : String) : Option Store :=
  let lines := (Text.splitOn '\n' text).filter (!Text.isBlankText ·)
  (Document.collect (fun line => (Document.read line).bind Row.decode) lines).map database

end Store

end Parley
