/-
Which trees may be installed.

`Tree.defects` lists everything wrong with a tree, in the order in which it is
reported, and `Tree.validate` reports the first.  Cycles are no defect.

* `Tree.validate_eq_ok_iff` — a tree is accepted exactly when it has no defect;
* `Tree.ofText` — reads, then validates.
-/
import Parley.Error
import Parley.Tree

namespace Parley

/-- The defect, if the condition holds. -/
def defectWhen (condition : Bool) (defect : ContentError) : List ContentError :=
  if condition then [defect] else []

namespace Tree

/-- An empty target is a farewell; any other must name a node. -/
def isTarget (t : Tree) (target : String) : Bool :=
  target.isEmpty || t.nodes.contains target

def targetDefects (t : Tree) (source : String) : Option String → List ContentError
  | none => []
  | some target => defectWhen (!t.isTarget target) (.danglingReference t.id source target)

def nodeDefects (t : Tree) (key : String) (n : Node) : List ContentError :=
  defectWhen (n.id != key) (.nodeIdMismatch t.id key n.id) ++
  defectWhen (Text.isBlankText n.message) (.emptyMessage t.id key) ++
  t.targetDefects key n.nextNodeId ++
  n.choices.flatMap fun c => t.targetDefects (key ++ "/" ++ c.id) c.nextNodeId

def defects (t : Tree) : List ContentError :=
  defectWhen (Text.isBlankText t.id) (.missingField "id") ++
  defectWhen (Text.isBlankText t.name) (.missingField "name") ++
  defectWhen (Text.isBlankText t.startNodeId) (.missingField "startNodeId") ++
  defectWhen t.nodes.isEmpty (.missingField "nodes") ++
  defectWhen (!t.nodes.contains t.startNodeId) (.startNodeMissing t.id t.startNodeId) ++
  t.nodes.entries.flatMap fun (key, n) => t.nodeDefects key n

def validate (t : Tree) : Except ContentError Unit :=
  match t.defects with
  | [] => .ok ()
  | defect :: _ => .error defect

theorem validate_eq_ok_iff (t : Tree) : t.validate = .ok () ↔ t.defects = [] := by
  unfold validate
  split <;> simp_all

/-- The tree of a document, if it is valid. -/
def ofText (text : String) : Except ContentError Tree :=
  match (Document.read text).bind decode with
  | none => .error .malformed
  | some t => t.validate.map fun _ => t

end Tree

end Parley
