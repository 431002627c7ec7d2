/-
Directories of tree documents.

A directory is a table of files by name.  Loading visits the names that end in
`.json`, in order; a file that is no valid tree is set aside with the reason and
stops nothing.

* `Directory.documents` — what is found under each visited name;
* `Directory.load` — the trees, and the report.
-/
import Parley.Tree.Validation

namespace Parley

/-- What stands under a name: text, or something that cannot be read as text. -/
inductive File where
  | text (s : String)
  | unreadable
  deriving DecidableEq, Inhabited

/-- Bytes are text if they are well-formed UTF-8. -/
def File.ofBytes (bytes : ByteArray) : File :=
  match String.fromUTF8? bytes with
  | some s => .text s
  | none => .unreadable

abbrev Directory := Dict File

structure LoadReport where
  /-- Ids of the trees, in the order of their files. -/
  loaded : List String
  /-- Names of the files set aside, with the reason. -/
  rejected : List (String × ContentError)
  deriving DecidableEq, Inhabited

/-- The tree in a file, if it holds a valid one. -/
def File.tree : File → Except ContentError Tree
  | text s => Tree.ofText s
  | unreadable => .error .unreadable

/-- The name has the extension `json` and something before it. -/
def isTreeFile (name : String) : Bool :=
  let extension := ['.', 'j', 's', 'o', 'n']
  extension.length < name.length && extension.isSuffixOf name.toList

namespace Directory

def documents (d : Directory) : List (String × Except ContentError Tree) :=
  (d.filter fun name _ => isTreeFile name).entries.map fun (name, file) => (name, file.tree)

/-- The tree of one file, which must be there. -/
def tree (d : Directory) (name : String) : Except ContentError Tree :=
  ((d.get? name).getD .unreadable).tree

def treeOf? : String × Except ContentError Tree → Option Tree
  | (_, .ok t) => some t
  | _ => none

def rejectionOf? : String × Except ContentError Tree → Option (String × ContentError)
  | (name, .error e) => some (name, e)
  | _ => none

def load (d : Directory) : List Tree × LoadReport :=
  let trees := d.documents.filterMap treeOf?
  (trees, { loaded := trees.map Tree.id, rejected := d.documents.filterMap rejectionOf? })

end Directory

end Parley
