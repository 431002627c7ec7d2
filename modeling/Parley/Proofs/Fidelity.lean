/-
Writing loses nothing.

* `Codec.Lawful` — what can be written is read as it was, and what is read can be written;
* `Codec.Lawful.roundTrips` — so a document that was read can be written and read again, with
  the same value and the same document from then on;
* `Codec.fidelity` — conditions, actions, choices, nodes, trees and conversations are written
  without loss, and a tree that is valid stays so;
* `Codec.Lawful.read_compact` — the same for their texts, as far as numbers are read as they are
  printed.
-/
import Parley.Proofs.Document.Content
import Parley.Tree.Validation

namespace Parley

open Document

/-- How the values of a type are written and read, and which of them can be written. -/
structure Codec (α : Type) where
  encode : α → Json
  decode : Document → Option α
  IsSound : α → Prop

namespace Codec

variable {α : Type} {c : Codec α}

structure Lawful (c : Codec α) : Prop where
  decode_encode : ∀ a, c.IsSound a → c.decode (ofJson (c.encode a)) = some a
  isSound_of_decode : ∀ d a, c.decode d = some a → c.IsSound a

structure RoundTrips (c : Codec α) : Prop where
  /-- Whatever is written is read as it was. -/
  value : ∀ a, c.IsSound a → c.decode (ofJson (c.encode a)) = some a
  /-- Whatever was read, from any document at all, is read again from the document that it is
  written as. -/
  reread : ∀ d a, c.decode d = some a → c.decode (ofJson (c.encode a)) = some a
  /-- A document that was written is written again as it is. -/
  rewritten : ∀ d j, (c.decode d).map c.encode = some j →
    (c.decode (ofJson j)).map c.encode = some j

theorem Lawful.roundTrips (h : c.Lawful) : c.RoundTrips where
  value := h.decode_encode
  reread d a hd := h.decode_encode a (h.isSound_of_decode d a hd)
  rewritten d j hj := by
    obtain ⟨a, ha, rfl⟩ := Option.map_eq_some_iff.mp hj
    rw [h.decode_encode a (h.isSound_of_decode d a ha), Option.map_some]

theorem Lawful.read_compact (h : c.Lawful) {a : α} (ha : c.IsSound a)
    (hlegible : (c.encode a).IsLegible) (hnesting : (c.encode a).nesting ≤ depthLimit) :
    (Document.read (c.encode a).compact).bind c.decode = some a := by
  rw [Document.read_compact hlegible hnesting, Option.bind_some]
  exact h.decode_encode a ha

/-! ### Content and conversations -/

def condition : Codec Condition := ⟨Condition.toJson, Condition.decode, Condition.IsSound⟩

def action : Codec Action := ⟨Action.toJson, Action.decode, Action.IsSound⟩

def choice : Codec Choice := ⟨Choice.toJson, Choice.decode, Choice.IsSound⟩

def node : Codec Node := ⟨Node.toJson, Node.decode, Node.IsSound⟩

def tree : Codec Tree := ⟨Tree.toJson, Tree.decode, Tree.IsSound⟩

def conversation : Codec Conversation :=
  ⟨Conversation.toJson, Conversation.decode, Conversation.IsSound⟩

theorem condition_lawful : condition.Lawful :=
  ⟨fun _ => Condition.decode_toJson, fun _ _ => Condition.isSound_of_decode⟩

theorem action_lawful : action.Lawful :=
  ⟨fun _ => Action.decode_toJson, fun _ _ => Action.isSound_of_decode⟩

theorem choice_lawful : choice.Lawful :=
  ⟨fun _ => Choice.decode_toJson, fun _ _ => Choice.isSound_of_decode⟩

theorem node_lawful : node.Lawful :=
  ⟨fun _ => Node.decode_toJson, fun _ _ => Node.isSound_of_decode⟩

theorem tree_lawful : tree.Lawful :=
  ⟨fun _ => Tree.decode_toJson, fun _ _ => Tree.isSound_of_decode⟩

theorem conversation_lawful : conversation.Lawful :=
  ⟨fun _ => Conversation.decode_toJson, fun _ _ => Conversation.isSound_of_decode⟩

/-- **Content and conversations are written without loss.**  Their documents are read as the
values that were written, and a valid tree comes back as a valid tree. -/
theorem fidelity :
    condition.RoundTrips ∧ action.RoundTrips ∧ choice.RoundTrips ∧ node.RoundTrips ∧
      tree.RoundTrips ∧ conversation.RoundTrips ∧
      ∀ d t, Tree.decode d = some t → t.validate = .ok () →
        ∃ t', Tree.decode (ofJson t.toJson) = some t' ∧ t'.validate = .ok () :=
  ⟨condition_lawful.roundTrips, action_lawful.roundTrips, choice_lawful.roundTrips,
    node_lawful.roundTrips, tree_lawful.roundTrips, conversation_lawful.roundTrips,
    fun d t ht hvalid => ⟨t, tree_lawful.roundTrips.reread d t ht, hvalid⟩⟩

end Codec

namespace Inn

/-- A choice for whoever comes late, or by chance. -/
def song : Choice :=
  { id := "song"
    text := "A song!"
    condition := some ⟨.observe (.time "dusk") .greaterThan (.int 0), true⟩
    actions := [⟨.setVariable "song" .null, some ⟨.random (some 0.5), false⟩⟩, ⟨.unknown, none⟩] }

def hall : Node :=
  { id := "hall"
    message := "The hall is full."
    choices := [song]
    conditions := [⟨.observe .level .unknown .null, false⟩]
    actions := [⟨.giveItem "bread" 2, none⟩]
    isEnd := true
    vars := Dict.ofList [("song", .obj [("title", .null), ("verses", .arr [.int 1, .float 2.5])])] }

def feast : Tree :=
  { id := "feast", name := "Feast", startNodeId := "hall", nodes := Dict.ofList [("hall", hall)] }

/-- A conversation in its last turn, which came with a leap second. -/
def toast : Conversation :=
  { Conversation.new "toast" "guest" "innkeeper" "keeper" feast ⟨1483228799, 1500000000⟩ with
    vars := hall.vars
    isActive := false
    endReason := some .completed }

theorem hall_vars : ∀ value ∈ hall.vars.values, value.IsCanonical := by
  have values : hall.vars.values =
      [.obj [("title", .null), ("verses", .arr [.int 1, .float 2.5])]] := by decide
  rw [values]
  intro value hvalue
  obtain rfl := List.mem_singleton.mp hvalue
  exact ⟨by decide, trivial, ⟨trivial, trivial, trivial⟩, trivial⟩

theorem song_isSound : song.IsSound where
  condition := by
    rintro _ ⟨⟩
    trivial
  actions := by
    refine List.forall_mem_cons.mpr ⟨⟨trivial, ?_⟩, List.forall_mem_singleton.mpr ⟨trivial, nofun⟩⟩
    rintro _ ⟨⟩ _ ⟨⟩
    decide

theorem feast_isSound : feast.IsSound where
  nodes := by
    have values : feast.nodes.values = [hall] := by decide
    rw [values]
    exact List.forall_mem_singleton.mpr
      { choices := List.forall_mem_singleton.mpr song_isSound
        conditions := List.forall_mem_singleton.mpr trivial
        actions := List.forall_mem_singleton.mpr ⟨show 2 ≤ Text.uint32Max by decide, nofun⟩
        vars := hall_vars }
  vars := nofun
  metadata := trivial

theorem toast_isSound : toast.IsSound where
  startedAt := ⟨by decide, by decide, fun _ => by decide⟩
  lastActivity := ⟨by decide, by decide, fun _ => by decide⟩
  turnCount := by decide
  vars := hall_vars

end Inn

theorem Codec.fidelity_feast :
    Tree.decode (ofJson Inn.feast.toJson) = some Inn.feast ∧
      Conversation.decode (ofJson Inn.toast.toJson) = some Inn.toast ∧
      ∃ t, Tree.decode (ofJson Inn.feast.toJson) = some t ∧ t.validate = .ok () := by
  obtain ⟨-, -, -, -, trees, conversations, valid⟩ := fidelity
  have feast := trees.value Inn.feast Inn.feast_isSound
  exact ⟨feast, conversations.value Inn.toast Inn.toast_isSound,
    valid _ Inn.feast feast (by decide)⟩

end Parley
