/-
Content that leaves nothing to chance.

Only conditions of one kind draw samples.  Where no tree asks for them, turns draw none, so
a provider is the same after a turn as before it:

* `Turn.keeps_taken` — no part of a turn on such a tree draws a sample;
* `Manager.Opens.providers_eq`, `Manager.Proceeds.providers_eq` — so a call leaves the
  providers as they are.
-/
import Parley.Proofs.Manager.Turns
import Parley.Proofs.Turn.Invariant

namespace Parley

def Check.isRandom : Check → Bool
  | random _ => true
  | _ => false

/-- No condition anywhere in the tree is left to chance. -/
def Tree.Chanceless (t : Tree) : Prop := ∀ c, t.HasCondition c → c.check.isRandom = false

def Provider.Chanceless (p : Provider) : Prop :=
  ∀ treeId t, p.trees.get? treeId = some t → t.Chanceless

def Manager.Chanceless (m : Manager) : Prop :=
  ∀ providerId p, m.providers.get? providerId = some p → p.Chanceless

instance (t : Tree) : Decidable t.Chanceless :=
  decidable_of_iff _ Tree.forall_hasCondition_iff.symm

instance (p : Provider) : Decidable p.Chanceless := decidable_of_iff _ Dict.forall_get?_iff.symm

instance (m : Manager) : Decidable m.Chanceless := decidable_of_iff _ Dict.forall_get?_iff.symm

theorem Condition.evaluate_taken {c : Condition} (h : c.check.isRandom = false) (rules : Rules)
    (ctx : Context) (taken : Nat) : (c.evaluate rules ctx taken).2 = taken := by
  rw [evaluate]
  cases hcheck : c.check with
  | random => exact absurd (hcheck ▸ h) (by simp [Check.isRandom])
  | observe | unknown => rfl

theorem Effect.apply_taken (effect : Effect) (hook : Option Hook) (s : Scene) :
    (effect.apply hook s).2.taken = s.taken := by
  cases effect with
  | setVariable name value =>
    show (s.setVariable name value).taken = s.taken
    unfold Scene.setVariable
    simp only
    split <;> rfl
  | custom name params => cases hook <;> rfl
  | giveItem | takeItem | addFlag | removeFlag | startQuest | completeQuest | unknown => rfl

theorem Action.execute_taken {rules : Rules} {a : Action}
    (h : ∀ c, a.condition = some c → c.check.isRandom = false) (s : Scene) :
    (a.execute rules s).2.taken = s.taken := by
  have asked : (allows rules s.context a.condition s.taken).2 = s.taken := by
    cases hcondition : a.condition with
    | none => rfl
    | some c => exact c.evaluate_taken (h c hcondition) rules s.context s.taken
  rw [execute]
  simp only
  split
  · split
    · exact (a.effect.apply_taken rules.hook _).trans asked
    · exact (a.effect.apply_taken rules.hook _).trans asked
  · exact asked

/-- A turn on a tree that leaves nothing to chance draws no sample. -/
theorem Turn.keeps_taken {t : Turn} (h : t.tree.Chanceless) (taken : Nat) :
    t.Keeps fun p => p.taken = taken where
  moveTo _ _ hp := hp
  draw p c hc hp := (c.evaluate_taken (h c hc) t.rules p.context p.taken).trans hp
  setVariable p name value _ hp :=
    (Effect.apply_taken (.setVariable name value) none p.toScene).trans hp
  execute p a ha hp :=
    (a.execute_taken (fun c hc => h c (ha.hasCondition hc)) p.toScene).trans hp
  publish _ _ _ hp := hp
  conclude _ hp := hp
  sync _ hp := hp

namespace Manager

variable {α : Type} {f : Context → α} {m : Manager} {ps : Participants} {r : Response}
  {play : Play} {tree : Tree} {p : Provider}

/-- Putting back a provider that has drawn nothing changes nothing. -/
theorem withProvider_undrawn {taken : Nat} (hp : m.providers.get? p.id = some p)
    (htaken : taken = p.taken) : (m.withProvider { p with taken }).providers = m.providers := by
  subst htaken
  exact Dict.modify_self hp

theorem Opens.providers_eq (hm : m.Sound f) (hchance : m.Chanceless)
    {providerId : Option String} (h : m.Opens ps providerId p tree play r) :
    (m.start ps providerId).manager.providers = m.providers := by
  obtain ⟨hp, -⟩ := h.registered hm
  obtain ⟨treeId, hmem⟩ := Provider.treeOf_mem h.mapped
  have keeps := Turn.keeps_taken (t := p.turn m.forum tree) (hchance _ _ hp treeId tree hmem) p.taken
  have undrawn := keeps.begin
    (p := Play.ofConversation (p.newConversation m.forum ps tree) ps p.taken) rfl
  rw [h.begins] at undrawn
  rw [h.start_eq]
  exact withProvider_undrawn hp undrawn

theorem Proceeds.providers_eq (hm : m.Sound f) (hchance : m.Chanceless) {id input : String}
    {c : Conversation} {n : Node} (h : m.Proceeds ps id input c p tree n play r) :
    (m.advance ps id input).manager.providers = m.providers := by
  obtain ⟨hp, -⟩ := h.registered hm
  have keeps := Turn.keeps_taken (t := p.turn m.forum tree)
    (hchance _ _ hp c.treeId tree h.installed) p.taken
  have undrawn := keeps.advance (p := Play.ofConversation (c.touch m.now) ps p.taken) input rfl
  rw [h.advances] at undrawn
  rw [h.advance_eq hm]
  exact withProvider_undrawn hp undrawn

end Manager

end Parley
