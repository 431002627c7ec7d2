/-
Reading a choice aloud.

A choice is shown with its placeholders replaced.  A line of input is compared with the texts as
they are written, so what a placeholder puts into a choice is shown but not recognized:

* `Placeholder.bounds_resolved` — a word of the text that no replaced placeholder touches is
  a word of what is shown;
* `Choice.recalls_of_untouched` — so it is recognized when what is shown comes back as input;
* `Turn.advance_message` — what a turn says when a choice was picked, with nothing added to it;
* `Manager.understanding` — reading a choice aloud picks it or one before it, if any word is
  recognized.
-/
import Parley.Proofs.Display
import Parley.Proofs.Selection
import Parley.Proofs.Substitution

namespace Parley

/-! ### Words between the placeholders -/

namespace Placeholder

variable {root : Json} {cs before w after content : List Char} {i : Nat}

theorem StandsAt.last (h : StandsAt cs i content) :
    cs[i + (content.length + 3)]? = some '\x7d' := by
  rw [h.char_eq (by rw [length_braced]; omega), braced]
  simp

/-- No placeholder that leads to a value reaches into `w`, which stands behind `before`. -/
def Untouched (root : Json) (cs before w : List Char) : Prop :=
  ∀ i content v, StandsAt cs i content → Leads root content v →
    i + (braced content).length ≤ before.length ∨ before.length + w.length ≤ i

section Word

variable {piece : Nat → List Char} (hpiece : Substitutes root cs piece)
  (hbounds : Text.Bounds Text.isBlank cs before w after) (hfree : Untouched root cs before w)
include hpiece hbounds hfree

/-- The word is kept. -/
theorem piece_word :
    (List.range w.length).flatMap (fun k => piece (before.length + k)) = w := by
  calc (List.range w.length).flatMap (fun k => piece (before.length + k))
      = (List.range w.length).flatMap fun k => w[k]?.toList := by
        refine List.flatMap_congr fun k hk => ?_
        have hk := List.mem_range.mp hk
        have hc : cs[before.length + k]? = some w[k] := by
          rw [hbounds.eq, List.append_assoc, List.getElem?_append_right (Nat.le_add_right _ _),
            Nat.add_sub_cancel_left, List.getElem?_append_left hk, List.getElem?_eq_getElem hk]
        rw [List.getElem?_eq_getElem hk]
        refine hpiece.kept hc fun i content v hstands hleads => ?_
        have := hfree i content v hstands hleads
        omega
    _ = w := flatMap_getElem? w

/-- The blank before the word is kept: a placeholder that reached as far as the blank would end
with it. -/
theorem piece_last {b : Char} {start : List Char} (hstart : before = start ++ [b]) :
    piece start.length = [b] := by
  subst hstart
  have hb : Text.isBlank b = true := hbounds.last b (by simp)
  have hc : cs[start.length]? = some b := by
    rw [hbounds.eq]
    simp
  refine hpiece.kept hc fun i content v hstands hleads => ?_
  have outside := hfree i content v hstands hleads
  have long := length_braced content
  rw [List.length_append, List.length_singleton] at outside
  by_contra hreach
  have hlast := hstands.last
  rw [show i + (content.length + 3) = start.length by omega, hc] at hlast
  obtain rfl := Option.some.inj hlast
  exact absurd hb (by decide)

/-- The blank after the word is kept: a placeholder that reached as far as the blank would begin
with it. -/
theorem piece_first {b : Char} {rest : List Char} (hrest : after = b :: rest) :
    piece (before.length + w.length) = [b] := by
  subst hrest
  have hb : Text.isBlank b = true := hbounds.first b rfl
  have hc : cs[before.length + w.length]? = some b := by
    rw [hbounds.eq, ← List.length_append, List.getElem?_append_right (Nat.le_refl _)]
    simp
  refine hpiece.kept hc fun i content v hstands hleads => ?_
  have outside := hfree i content v hstands hleads
  by_contra hreach
  have hfirst := hstands.first
  rw [show i = before.length + w.length by omega, hc] at hfirst
  obtain rfl := Option.some.inj hfirst
  exact absurd hb (by decide)

theorem bounds_resolved :
    ∃ before' after', Text.Bounds Text.isBlank ((List.range cs.length).flatMap piece)
      before' w after' := by
  have size : cs.length = before.length + w.length + after.length := by
    rw [hbounds.eq, List.length_append, List.length_append]
  refine ⟨(List.range before.length).flatMap piece,
    (List.range after.length).flatMap fun k => piece (before.length + w.length + k), ?_, ?_, ?_⟩
  · rw [size, List.range_add, List.range_add, List.flatMap_append, List.flatMap_append,
      List.flatMap_map, List.flatMap_map, piece_word hpiece hbounds hfree]
  · rcases List.eq_nil_or_concat before with rfl | ⟨start, b, hstart⟩
    · exact fun c hc => absurd hc (by simp)
    · rw [List.concat_eq_append] at hstart
      have hlast := piece_last hpiece hbounds hfree hstart
      have hb : Text.isBlank b = true := hbounds.last b (by simp [hstart])
      rw [hstart, List.length_append, List.length_singleton, List.range_succ,
        List.flatMap_append, List.flatMap_singleton, hlast]
      simpa using hb
  · cases after with
    | nil => exact fun c hc => absurd hc (by simp)
    | cons b rest =>
      have hfirst := piece_first hpiece hbounds hfree rfl
      have hb : Text.isBlank b = true := hbounds.first b rfl
      rw [List.length_cons, List.range_succ_eq_map, List.flatMap_cons, Nat.add_zero, hfirst]
      simpa using hb

end Word

end Placeholder

/-! ### What is recognized -/

/-- A word that counts of what was said is in the text of the choice as it is written. -/
def Choice.Recalls (c : Choice) (said : String) : Prop :=
  ∃ word ∈ significantWords (Text.lowercase (Text.trim said)),
    Text.occursIn word (Text.lowercase c.text) = true

theorem Choice.recalls_text {c : Choice} {word : String}
    (h : word ∈ Text.words (Text.lowercase (Text.trim c.text))) (hlong : 2 < word.length) :
    c.Recalls c.text :=
  ⟨word, List.mem_filter.mpr ⟨h, decide_eq_true hlong⟩,
    Text.occursIn_lowercase_of_mem_words h⟩

theorem Choice.recalls_of_untouched {c : Choice} {ctx : Context} {before w after : List Char}
    (hbounds : Text.Bounds Text.isBlank c.text.toList before w after)
    (hw : ∀ ch ∈ w, Text.isBlank ch = false)
    (hlong : 2 < (Text.Lowercase.lowerChars [] w).length)
    (hfree : Placeholder.Untouched ctx.toJson c.text.toList before w) :
    c.Recalls (Placeholder.resolve ctx c.text) := by
  obtain ⟨piece, hpiece, heq⟩ := Placeholder.substitutes_parts ctx.toJson c.text.toList
  have shown : (Placeholder.resolve ctx c.text).toList =
      (List.range c.text.toList.length).flatMap piece := by
    rw [Placeholder.resolve_eq_resolveIn, Placeholder.resolveIn, String.toList_ofList, heq]
  obtain ⟨before', after', resolved⟩ := Placeholder.bounds_resolved hpiece hbounds hfree
  rw [← shown] at resolved
  have nonempty : w ≠ [] := by
    rintro rfl
    exact absurd hlong (by decide)
  obtain ⟨before'', after'', trimmed⟩ := resolved.trimmed hw nonempty
  have lowered := trimmed.lowered
  refine ⟨String.ofList (Text.Lowercase.lowerChars [] w), List.mem_filter.mpr ⟨?_, ?_⟩, ?_⟩
  · rw [Text.mem_words_iff, Text.lowercase, Text.trim, String.toList_ofList, String.toList_ofList,
      String.toList_ofList]
    refine ⟨fun hempty => ?_, Text.Lowercase.isBlank_lowerChars hw [], _, _, lowered⟩
    have none := congrArg (fun s => s.toList.length) hempty
    simp only [String.toList_ofList] at none
    rw [none] at hlong
    exact absurd hlong (by decide)
  · rw [String.length_ofList]
    exact decide_eq_true hlong
  · rw [Text.occursIn_iff, Text.lowercase, String.toList_ofList, String.toList_ofList]
    exact ⟨_, _, hbounds.lowered.eq.symm⟩

/-! ### What a turn says -/

/-- What is said on the way to a target: the message of its node, or farewell if there is none. -/
def Tree.text? (settings : Settings) (t : Tree) (target : Option String) : Option String :=
  match target.filter (!·.isEmpty) with
  | none => some settings.farewellMessage
  | some nodeId => (t.node? nodeId).map Node.message

namespace Turn

variable {t : Turn} {p : Play} {r : Response} {n : Node} {input : String}

theorem views_getElem? (ctx : Context) (index : Nat) (choices : List Choice) (i : Nat) :
    (views ctx index choices)[i]? = choices[i]?.map fun c =>
      { id := c.id, text := Placeholder.resolve ctx c.text, index := index + i } := by
  induction choices generalizing index i with
  | nil => rfl
  | cons c rest ih =>
    rw [views]
    cases i with
    | zero => rfl
    | succ i =>
      rw [List.getElem?_cons_succ, List.getElem?_cons_succ, ih]
      simp only [Nat.add_assoc, Nat.add_comm 1 i]

theorem proceed_message {target : Option String} (h : (t.proceed p target input).2 = .ok r) :
    ∃ text, t.tree.text? t.settings target = some text ∧
      r.message = Placeholder.resolve (t.proceed p target input).1.context text := by
  rw [proceed] at h ⊢
  rw [Tree.text?]
  cases hfilter : target.filter (!·.isEmpty) with
  | none =>
    rw [hfilter] at h
    obtain rfl := Except.ok.inj h
    exact ⟨_, rfl, rfl⟩
  | some nodeId =>
    rw [hfilter] at h
    cases hn : t.tree.node? nodeId with
    | none =>
      simp only [node, hn] at h
      exact absurd h (by simp)
    | some n =>
      simp only [node_eq hn] at h ⊢
      obtain rfl := Except.ok.inj h
      exact ⟨n.message, congrArg (Option.map Node.message) hn, rfl⟩

/-- After a choice was picked nothing is added to what is said. -/
theorem advance_message {choices : List Choice} {c : Choice}
    (hasked : t.openChoices p.context n.choices p.taken = (choices, p.taken))
    (hn : t.tree.node? p.conversation.currentNodeId = some n)
    (hpicked : selectChoice t.settings.numericSelection input choices = some c)
    (h : (t.advance p input).2 = .ok r) :
    ∃ text, t.tree.text? t.settings (c.nextNodeId <|> n.nextNodeId) = some text ∧
      r.message = Placeholder.resolve (t.advance p input).1.context text := by
  have cases := advance_cases hn input
  simp only [hasked, hpicked] at cases
  rcases cases with ⟨rfl, -⟩ | ⟨c', hc', hgo⟩ | ⟨-, hnone, -⟩
  · exact absurd (selectChoice_mem hpicked) List.not_mem_nil
  · obtain rfl := Option.some.inj hc'
    rw [hgo, take] at h ⊢
    exact proceed_message h
  · exact absurd hnone (by simp)

end Turn

/-! ### At the bar of the inn

Its barman asks by name, and one of his choices is nothing but the name. -/

namespace Inn

def bar : Node :=
  { id := "bar"
    message := "Whom do you want?"
    choices := [
      { id := "name", text := "\x7b\x7bnpc.name\x7d\x7d" },
      { id := "ask", text := "I ask for \x7b\x7bnpc.name\x7d\x7d." }] }

def evenings : Tree :=
  { id := "evenings"
    name := "Evenings"
    startNodeId := "bar"
    nodes := Dict.ofList [("bar", bar)] }

def barman : Provider :=
  (Provider.edit { id := "barman" } (.replaceTree evenings)).edit (.mapNpc "cook" "evenings")

def drinker : Participants :=
  { player := { id := "guest" }, npc := { id := "cook", name := "Bram" } }

def taproom : Manager :=
  ((Manager.new {} ids Instant.epoch none).perform (.register barman)).1

/-- The conversation when the barman has asked. -/
def round : Conversation :=
  { Conversation.new "" "guest" "cook" "barman" evenings Instant.epoch with history := ["bar"] }

theorem taproom_reachable : taproom.Reachable :=
  .call (.register barman)
    (fun _ hp => List.mem_singleton.mp hp ▸
      .edit (.mapNpc "cook" "evenings") (.edit (.replaceTree evenings) (.new _ _ _ _ _)))
    (.new _ _ _ _ _)

theorem bar_settled : bar.IsSettled := by
  simp [Node.IsSettled, bar]

theorem bar_word :
    Text.Bounds Text.isBlank bar.choices[1].text.toList "I ".toList "ask".toList
      " for \x7b\x7bnpc.name\x7d\x7d.".toList ∧
    ∀ c ∈ "ask".toList, Text.isBlank c = false := by
  refine ⟨⟨rfl, fun c hc => ?_, fun c hc => ?_⟩, fun c hc => ?_⟩
  · obtain rfl := Option.some.inj hc
    decide
  · obtain rfl := Option.some.inj hc
    decide
  · have blankless : "ask".toList.all (!Text.isBlank ·) = true := by decide
    simpa using List.all_eq_true.mp blankless c hc

/-- The placeholder comes after the word. -/
theorem bar_untouched (root : Json) :
    Placeholder.Untouched root bar.choices[1].text.toList "I ".toList "ask".toList := by
  have braceless : ∀ i < 5, bar.choices[1].text.toList[i]? ≠ some '\x7b' := by decide
  intro i content v hstands _
  by_contra hreach
  exact braceless i (Nat.lt_of_not_le fun h => hreach (.inr h)) hstands.first

end Inn

/-! ### The next line of input -/

namespace Manager

variable {m : Manager} {ps : Participants} {r r' : Response} {play : Play} {tree : Tree}
  {p : Provider} {n : Node} {input : String}

/-- A line of input that picks one of the choices shown. -/
theorem Proceeds.picks {α : Type} {f : Context → α} (hm : m.Sound f)
    (h : m.Proceeds ps r.conversationId input r.state p tree n play r') (hsettled : n.IsSettled)
    (rules : Rules) {c : Choice}
    (hpicked : selectChoice m.forum.settings.numericSelection input
      (n.choices.filter (Choice.passes rules (Context.assemble r.state ps))) = some c) :
    Event.picks (m.advance ps r.conversationId input).events = [(r.state.currentNodeId, c.id)] ∧
      ∃ text, tree.text? m.forum.settings (c.nextNodeId <|> n.nextNodeId) = some text ∧
        r'.message = Placeholder.resolve play.context text := by
  have going : r.state.isActive = true := hm.arena.isActive h.held
  let t : Turn := p.turn m.forum tree
  let found : Play := .ofConversation (r.state.touch m.now) ps p.taken
  have asked := Turn.openChoices_settled (t := t) hsettled
    (show found.context.view = (Context.assemble r.state ps).view from rfl) rules found.taken
  obtain ⟨answered, kept, events⟩ := h.turn_eq hm
  obtain ⟨hpicks, -⟩ := Turn.advance_picks asked h.node going hpicked answered kept
  have message := Turn.advance_message asked h.node hpicked answered
  rw [events, hpicks, ((h.valid hm).node _ n h.node).id_eq]
  rw [h.advances] at message
  exact ⟨rfl, message⟩

/-- The line of input picks one of the choices that `r` has shown, the `i`-th from zero or one
before it.  That choice is announced, and what is said next is the text of the place where it
leads, with its placeholders replaced and nothing added. -/
def Understands (m : Manager) (ps : Participants) (r : Response) (tree : Tree) (n : Node)
    (choices : List Choice) (i : Nat) (input : String) : Prop :=
  ∃ j v c p play r', j ≤ i ∧ (r.choices.getD [])[j]? = some v ∧ choices[j]? = some c ∧
    m.Proceeds ps r.conversationId input r.state p tree n play r' ∧
    (m.advance ps r.conversationId input).result.response = .ok r' ∧
    Event.picks (m.advance ps r.conversationId input).events = [(r.state.currentNodeId, v.id)] ∧
    ∃ text, tree.text? m.forum.settings (c.nextNodeId <|> n.nextNodeId) = some text ∧
      r'.message = Placeholder.resolve play.context text

theorem Proceeds.understands {α : Type} {f : Context → α} (hm : m.Sound f)
    (h : m.Proceeds ps r.conversationId input r.state p tree n play r') (hsettled : n.IsSettled)
    (rules : Rules) {ctx : Context} {choices : List Choice}
    (hchoices : n.choices.filter (Choice.passes rules (Context.assemble r.state ps)) = choices)
    (hviews : r.choices.getD [] = Turn.views ctx 1 choices) {i : Nat} {c : Choice}
    (hc : choices[i]? = some c)
    (hnumber : Text.integer? (Text.lowercase (Text.trim input)) = none)
    (hrecalls : c.Recalls input) : m.Understands ps r tree n choices i input := by
  obtain ⟨word, hword, hoccurs⟩ := hrecalls
  obtain ⟨j, c', hj, hc', hpicked⟩ := selectText_of_occursIn hc hword hoccurs
  have picked : selectChoice m.forum.settings.numericSelection input choices = some c' := by
    rw [selectChoice_text hnumber, hpicked]
  rw [← hchoices] at picked
  obtain ⟨hpicks, hmessage⟩ := h.picks hm hsettled rules picked
  have hv : (r.choices.getD [])[j]? =
      some ⟨c'.id, Placeholder.resolve ctx c'.text, 1 + j⟩ := by
    rw [hviews, Turn.views_getElem?, hc']
    rfl
  refine ⟨j, _, c', p, play, r', hj, hv, hc', h, ?_, hpicks, hmessage⟩
  rw [h.advance_eq hm]
  rfl

theorem Understands.mono {choices : List Choice} {i j : Nat} (hj : j ≤ i)
    (h : m.Understands ps r tree n choices j input) :
    m.Understands ps r tree n choices i input := by
  obtain ⟨k, v, c, p, play, r', hk, h⟩ := h
  exact ⟨k, v, c, p, play, r', hk.trans hj, h⟩

/-- Reading a choice aloud that an answer has shown picks that choice or one before it, unless it
reads as a number or no word that counts is recognized.  A word is recognized if it is in the text
of such a choice as that was written.  So are all words of a choice that is shown as it was
written, and of any choice the words that no replaced placeholder touches. -/
theorem understanding (hm : m.Reachable) {reply : Reply Answer} (hreply : m.Asks reply)
    (hr : reply.result.response = .ok r) (hopen : r.isComplete = false) :
    let ps := reply.result.participants
    ((∀ providerId p, m.providers.get? providerId = some p → p.KeepsIds) →
      r.state.playerId = ps.player.id) ∧
    ∃ tree n ctx, reply.manager.conversation? r.conversationId = some r.state ∧
      reply.manager.treeOf? r.state = some tree ∧
      tree.node? r.state.currentNodeId = some n ∧
      ctx.view = (Context.assemble r.state ps).view ∧
      (n.IsSettled → ∀ rules,
        let choices := n.choices.filter (Choice.passes rules (Context.assemble r.state ps))
        r.choices.getD [] = Turn.views ctx 1 choices ∧
        ∀ i v, (r.choices.getD [])[i]? = some v →
          (Text.integer? (Text.lowercase (Text.trim v.text)) = none →
            (∃ j c, j ≤ i ∧ choices[j]? = some c ∧ c.Recalls v.text) →
            ∀ next : Manager, next.Reachable →
              next.conversation? r.conversationId = some r.state →
              next.treeOf? r.state = some tree →
              r.state.isExpired next.now next.timeout = false →
              r.state.playerId = ps.player.id →
              next.Understands ps r tree n choices i v.text) ∧
          ∀ c, choices[i]? = some c →
            (v.text = c.text →
              (∃ word ∈ Text.words (Text.lowercase (Text.trim v.text)), 2 < word.length) →
              c.Recalls v.text) ∧
            ∀ before w after, Text.Bounds Text.isBlank c.text.toList before w after →
              (∀ ch ∈ w, Text.isBlank ch = false) →
              2 < (Text.Lowercase.lowerChars [] w).length →
              Placeholder.Untouched ctx.toJson c.text.toList before w → c.Recalls v.text) := by
  intro ps
  refine ⟨fun hhooks => hreply.owner (hm.sound.withIds hhooks) hr, ?_⟩
  obtain ⟨tree, n, presents⟩ := hreply.presents hm.sound hr hopen
  obtain ⟨ctx, hview, hviews⟩ := presents.views
  refine ⟨tree, n, ctx, presents.held, presents.placed, presents.node, hview,
    fun hsettled rules => ⟨hviews hsettled rules, fun i v hv => ⟨?_, fun c hc => ?_⟩⟩⟩
  · rintro hnumber ⟨j, c, hj, hc, hrecalls⟩ next hnext hheld hplaced hlive howner
    obtain ⟨p, play, r', proceeds⟩ :=
      exists_proceeds hnext.sound hheld howner hlive hplaced presents.node v.text
    have understands := proceeds.understands hnext.sound hsettled rules rfl
      (hviews hsettled rules) hc hnumber hrecalls
    exact understands.mono hj
  · have text : v.text = Placeholder.resolve ctx c.text := by
      rw [hviews hsettled rules, Turn.views_getElem?, hc] at hv
      obtain rfl := Option.some.inj hv
      rfl
    refine ⟨fun hsame ⟨word, hword, hlong⟩ => ?_, fun before w after hbounds hw hlong hfree => ?_⟩
    · rw [hsame] at hword ⊢
      exact Choice.recalls_text hword hlong
    · rw [text]
      exact Choice.recalls_of_untouched hbounds hw hlong hfree

/-- What the barman asks, and what he has to offer. -/
theorem start_taproom : ∃ r, (Inn.taproom.start Inn.drinker none).result.response = .ok r ∧
    r.conversationId = "" ∧ r.isComplete = false ∧ r.state = Inn.round ∧
    (r.choices.getD []).map ChoiceView.text = ["Bram", "I ask for Bram."] := by
  have shows : (Inn.taproom.start Inn.drinker none).result.response.toOption.map (fun r =>
      (r.conversationId, r.isComplete, r.state, (r.choices.getD []).map ChoiceView.text)) =
      some ("", false, Inn.round, ["Bram", "I ask for Bram."]) := by
    decide +kernel
  cases hr : (Inn.taproom.start Inn.drinker none).result.response with
  | error e => exact absurd (hr ▸ shows) nofun
  | ok r =>
    rw [hr] at shows
    exact ⟨r, rfl, by simpa [Except.toOption] using shows⟩

/-- The barman hears that somebody asks, though not for whom. -/
theorem understanding_ask :
    let started := Inn.taproom.start Inn.drinker none
    let asked := started.manager.advance started.result.participants "" "I ask for Bram."
    ∃ r, started.result.response = .ok r ∧
      (r.choices.getD []).map ChoiceView.text = ["Bram", "I ask for Bram."] ∧
      ∃ v ∈ r.choices.getD [], Event.picks asked.events = [("bar", v.id)] := by
  intro started asked
  obtain ⟨r, hr, hid, hopen, hstate, htexts⟩ := start_taproom
  have hooks : ∀ providerId p, Inn.taproom.providers.get? providerId = some p → p.KeepsIds := by
    intro providerId p hp run hrun
    exact absurd hrun (hook_ne_some (by decide +kernel) hp run)
  have reached : started.manager.Reachable :=
    Inn.taproom_reachable.perform (.start Inn.drinker none) rfl
  obtain ⟨howner, tree, n, ctx, hheld, hplaced, hn, hview, hunderstood⟩ :=
    understanding Inn.taproom_reachable (.start Inn.drinker none) hr hopen
  have placed : started.manager.treeOf? r.state = some Inn.evenings := by
    rw [hstate]
    decide +kernel
  obtain rfl := Option.some.inj (placed.symm.trans hplaced)
  have found : Inn.evenings.node? r.state.currentNodeId = some Inn.bar := by rw [hstate]; rfl
  obtain rfl := Option.some.inj (found.symm.trans hn)
  obtain ⟨-, hread⟩ := hunderstood Inn.bar_settled
    (Inn.barman.turn started.manager.forum Inn.evenings).rules
  obtain ⟨v, hv, htext⟩ : ∃ v, (r.choices.getD [])[1]? = some v ∧ v.text = "I ask for Bram." := by
    have second := congrArg (·[1]?) htexts
    simpa using second
  obtain ⟨hpicked, hwords⟩ := hread 1 v hv
  have recalls : Choice.Recalls Inn.bar.choices[1] v.text := by
    obtain ⟨hbounds, hask⟩ := Inn.bar_word
    exact (hwords Inn.bar.choices[1] rfl).2 _ _ _ hbounds hask (by decide +kernel)
      (Inn.bar_untouched ctx.toJson)
  have live : r.state.isExpired started.manager.now started.manager.timeout = false := by
    rw [hstate]
    decide +kernel
  rw [htext] at hpicked recalls
  obtain ⟨j, v', c', p, play, r', -, hv', -, -, -, hpicks, -⟩ :=
    hpicked (by decide +kernel) ⟨1, _, le_rfl, rfl, recalls⟩ started.manager reached hheld hplaced
      live (howner hooks)
  rw [hid, hstate] at hpicks
  exact ⟨r, hr, htexts, v', List.mem_of_getElem? hv', hpicks⟩

/-- Nobody is understood who says the name that the barman has offered. -/
theorem understanding_name :
    let started := Inn.taproom.start Inn.drinker none
    let named := started.manager.advance started.result.participants "" "Bram"
    Inn.taproom.Reachable ∧ Inn.taproom.providers.values.all (·.hook.isNone) = true ∧
    ∃ r r', started.result.response = .ok r ∧ r.conversationId = "" ∧ r.isComplete = false ∧
      (r.choices.getD []).map ChoiceView.text = ["Bram", "I ask for Bram."] ∧
      started.manager.conversation? "" = some r.state ∧
      started.manager.treeOf? r.state = some Inn.evenings ∧
      Inn.evenings.node? r.state.currentNodeId = some Inn.bar ∧ Inn.bar.IsSettled ∧
      r.state.isExpired started.manager.now started.manager.timeout = false ∧
      r.state.playerId = started.result.participants.player.id ∧
      Text.integer? (Text.lowercase (Text.trim "Bram")) = none ∧
      "bram" ∈ Text.words (Text.lowercase (Text.trim "Bram")) ∧ 2 < "bram".length ∧
      named.result.response = .ok r' ∧ named.events = [] ∧
      r'.message = "Whom do you want?" ++ started.manager.forum.settings.notUnderstoodSuffix := by
  intro started named
  obtain ⟨r, hr, hid, hopen, hstate, htexts⟩ := start_taproom
  have message : named.result.response.toOption.map Response.message =
      some ("Whom do you want?" ++ started.manager.forum.settings.notUnderstoodSuffix) := by
    decide +kernel
  cases hnamed : named.result.response with
  | error e => exact absurd (hnamed ▸ message) nofun
  | ok r' =>
    rw [hnamed] at message
    refine ⟨Inn.taproom_reachable, by decide +kernel, r, r', hr, hid, hopen, htexts, ?_⟩
    rw [hstate]
    exact ⟨by decide +kernel, by decide +kernel, rfl, Inn.bar_settled, by decide +kernel,
      by decide +kernel, by decide +kernel, by decide +kernel, by decide, rfl, by decide +kernel,
      Option.some.inj message⟩

end Manager

end Parley
