/-
Isolation of players.

Others are of no consequence to a player.  Serve a manager's requests without those that
others make, or that are about conversations of others, and the player sees the same:

* `Request.concerns`, `Served.seen` — the requests that stay, and what is seen of them;
* `Manager.Abreast` — what two managers keep between them, of which one serves all
  requests and the other only those that stay;
* `Manager.Abreast.kept`, `Manager.Abreast.deleted` — one request, served by both or by the
  first alone;
* `Manager.isolation` — all requests.

Design notes: an id can be shown in a message and asked for in a condition, so the second
manager must name the player's conversations as the first does.  It need not be told how the
first names those of others.
-/
import Parley.Proofs.Manager.Alike

namespace Parley

variable {player : String} {ids : List String}

/-- Whether the next ids are to be these. -/
def IdSupply.Gives (supply : IdSupply) : List String → Prop
  | [] => True
  | id :: rest => supply.next = id ∧ supply.advance.Gives rest

/-- Only the names to come matter. -/
theorem IdSupply.Gives.congr {supply supply' : IdSupply} {names : List String}
    (h : supply.Gives names)
    (hnames : ∀ n, supply'.name (supply'.issued + n) = supply.name (supply.issued + n)) :
    supply'.Gives names := by
  induction names generalizing supply supply' with
  | nil => trivial
  | cons name rest ih =>
    refine ⟨(hnames 0).trans h.1, ih h.2 fun n => ?_⟩
    have later := hnames (1 + n)
    rwa [← Nat.add_assoc, ← Nat.add_assoc] at later

/-- Whether a request is made by the player, or is about conversations with these ids.  A
cleanup is about everybody's. -/
def Request.concerns (player : String) (ids : List String) : Request → Bool
  | .start ps _ | .advance ps _ _ => ps.player.id == player
  | .finish id | .switchProvider id _ => ids.contains id
  | .conversationsOf playerId => playerId == player
  | .cleanup => true

/-- The player goes on with conversations that have these ids. -/
def Request.KeepsTo (player : String) (ids : List String) : Request → Prop
  | .advance ps id _ => ps.player.id = player → id ∈ ids
  | _ => True

/-- A cleanup counts the conversations of everybody, so the count is not the player's. -/
def Reaction.uncounted : Reaction → Reaction
  | .cleaned _ => .cleaned 0
  | reaction => reaction

/-- What a player sees of a request, whose conversations have these ids. -/
def Served.seen (ids : List String) (s : Served) : Served :=
  { s with reaction := s.reaction.uncounted, events := Manager.heard ids s.events }

theorem Served.given?_seen (s : Served) : (s.seen ids).given? player = s.given? player := by
  obtain ⟨request, reaction, events⟩ := s
  cases request <;> cases reaction <;> rfl

namespace Manager

variable {α : Type} {f : Context → α} {m m' : Manager} {request : Request}

/-- The same manager, which will take its ids from elsewhere. -/
def withSupply (m : Manager) (ids : IdSupply) : Manager :=
  { m with forum := { m.forum with ids } }

/-- The requests that concern the player. -/
def concerning (player : String) (ids : List String) (requests : List (Instant × Request)) :
    List (Instant × Request) :=
  requests.filter (·.2.concerns player ids)

/-- The ids of a player: of what is held, and of what the player will start. -/
def idsOf (m : Manager) (player : String) (requests : List (Instant × Request)) : List String :=
  (m.conversationsOf player).map Conversation.id ++ m.given player requests

/-- A request of the player that gives no id spends none. -/
theorem serve_ids_ungiven (hm : m.Sound f) (hconcerns : request.concerns player ids = true)
    (hgiven : (m.served request).given? player = none) :
    (m.serve request).manager.forum.ids = m.forum.ids := by
  cases request with
  | start ps providerId =>
    obtain rfl : ps.player.id = player := eq_of_beq hconcerns
    cases hr : (m.start ps providerId).result.response with
    | error e => exact start_ids_error hm hr
    | ok r =>
      rw [given?_start hr] at hgiven
      exact absurd hgiven (by simp)
  | advance | finish | switchProvider | conversationsOf | cleanup => exact serve_ids hm (by nofun)

theorem serve_gives (hm : m.Sound f) (hconcerns : request.concerns player ids = true)
    {rest : List String}
    (h : m.forum.ids.Gives (((m.served request).given? player).toList ++ rest)) :
    (m.serve request).manager.forum.ids.Gives rest := by
  cases hgiven : (m.served request).given? player with
  | none =>
    rw [hgiven] at h
    rw [serve_ids_ungiven hm hconcerns hgiven]
    exact h
  | some id =>
    rw [hgiven] at h
    rw [(given?_next hm hgiven).2]
    exact h.2

/-! ### One request -/

theorem InStep.seen {β : Type} {r r' : Reply β} (h : InStep player ids r r') (request : Request)
    (react : β → Reaction) :
    ({ request, reaction := react r'.result, events := r'.events } : Served).seen ids =
      ({ request, reaction := react r.result, events := r.events } : Served).seen ids := by
  rw [h.result, h.events]

namespace Alike

/-- What is asked by or about the player is seen the same way by the player, if an id that
the player is given is the same. -/
theorem serve_own (h : Alike player ids m m') (hm : m.Sound f) (hm' : m'.Sound f)
    (hnow : m'.now = m.now) (hconcerns : request.concerns player ids = true)
    (hkeeps : request.KeepsTo player ids)
    (hgiven : ∀ id, (m.served request).given? player = some id →
      m'.forum.ids.next = id ∧ id ∈ ids) :
    (m'.served request).seen ids = (m.served request).seen ids ∧
      Arena.Shares player ids (m.serve request).manager.arena
        (m'.serve request).manager.arena := by
  cases request with
  | start ps providerId =>
    obtain rfl : ps.player.id = player := eq_of_beq hconcerns
    have instep := h.start_own hm hm' hnow rfl providerId fun r hr => by
      obtain ⟨hsupply, hmem⟩ := hgiven _ (given?_start hr)
      rw [← (start_ids_ok hm hr).1]
      exact ⟨hsupply, hmem⟩
    exact ⟨instep.seen (.start ps providerId) .answered, instep.arena⟩
  | advance ps id input =>
    have instep := h.advance_own hm hm' hnow ps (hkeeps (eq_of_beq hconcerns)) input
    exact ⟨instep.seen (.advance ps id input) .answered, instep.arena⟩
  | finish id =>
    have instep := h.finish_own hm hm' hnow (List.contains_iff_mem.mp hconcerns)
    exact ⟨instep.seen (.finish id) .finished, instep.arena⟩
  | switchProvider id providerId =>
    have instep := h.switchProvider_own hnow (List.contains_iff_mem.mp hconcerns) providerId
    exact ⟨instep.seen (.switchProvider id providerId) .switched, instep.arena⟩
  | conversationsOf playerId =>
    obtain rfl : playerId = player := eq_of_beq hconcerns
    refine ⟨?_, h.arena⟩
    rw [served, served, serve, serve, h.conversationsOf_eq hm hm']
  | cleanup =>
    obtain ⟨hheard, arena⟩ := h.cleanup hm hm' hnow
    exact ⟨congrArg (Served.mk .cleanup (.cleaned 0)) hheard, arena⟩

/-- What is asked by or about others goes unseen, if an id that it spends is not the player's. -/
theorem serve_other (h : Alike player ids m m') (hm : m.Sound Context.ids)
    (hconcerns : request.concerns player ids = false)
    (hspent : (m.serve request).manager.forum.ids = m.forum.ids.advance →
      m.forum.ids.next ∉ ids) :
    (∀ e ∈ (m.served request).events, e.conversationId ∉ ids) ∧
      Arena.Shares player ids (m.serve request).manager.arena m'.arena := by
  cases request with
  | start ps providerId =>
    have aside := h.start_other hm (ne_of_beq_false hconcerns) providerId fun r hr =>
      hspent (start_ids_ok hm hr).2
    exact ⟨aside.quiet, aside.arena⟩
  | advance ps id input =>
    have aside := h.advance_other hm (ne_of_beq_false hconcerns) id input
    exact ⟨aside.quiet, aside.arena⟩
  | finish id =>
    have hid : id ∉ ids := by simpa [Request.concerns] using hconcerns
    have aside := h.finish_other hm hid
    exact ⟨aside.quiet, aside.arena⟩
  | switchProvider id providerId =>
    have hid : id ∉ ids := by simpa [Request.concerns] using hconcerns
    have aside := h.switchProvider_other hm hid providerId
    exact ⟨aside.quiet, aside.arena⟩
  | conversationsOf => exact ⟨fun e he => absurd he List.not_mem_nil, h.arena⟩
  | cleanup => exact absurd hconcerns (by simp [Request.concerns])

end Alike

/-! ### All requests -/

/-- Of two managers, the first has these requests to serve, and the second those of them that
concern the player.  They are alike, and the ids that the first will give to the player come
next in the second. -/
structure Abreast (player : String) (ids : List String) (m m' : Manager)
    (requests : List (Instant × Request)) : Prop where
  sound : m.Sound Context.ids
  sound' : m'.Sound Context.ids
  fresh : m.Fresh
  chanceless : m.Chanceless
  alike : Alike player ids m m'
  given : ∀ id ∈ m.given player requests, id ∈ ids
  /-- Of the ids to come, only those that the player will be given are the player's. -/
  upcoming : ∀ n, m.forum.ids.issued ≤ n → m.forum.ids.name n ∈ ids →
    m.forum.ids.name n ∈ m.given player requests
  supply : m'.forum.ids.Gives (m.given player requests)

namespace Abreast

variable {now : Instant} {rest : List (Instant × Request)}

/-- The ids to come that are the player's are given by the rest of the requests. -/
theorem upcoming_rest (h : Abreast player ids m m' ((now, request) :: rest)) {n : Nat}
    (hn : ((m.atTime now).serve request).manager.forum.ids.issued ≤ n)
    (hid : m.forum.ids.name n ∈ ids) :
    m.forum.ids.name n ∈ ((m.atTime now).serve request).manager.given player rest := by
  have sound := h.sound.atTime now
  have later : m.forum.ids.issued ≤ n := Nat.le_trans (serve_issued sound request).2 hn
  have given := h.upcoming n later hid
  rw [given_cons] at given
  rcases List.mem_append.mp given with first | others
  · -- The id that this request gives has been spent.
    obtain ⟨hnext, hspent⟩ := given?_next sound (Option.mem_toList.mp first)
    rw [hspent] at hn
    have same : n = m.forum.ids.issued := h.fresh.distinct hnext
    exact absurd (same ▸ hn) (Nat.not_succ_le_self _)
  · exact others

/-- An id that is spent and is not given to the player is not the player's. -/
theorem spent (h : Abreast player ids m m' ((now, request) :: rest))
    (hungiven : ((m.atTime now).served request).given? player = none)
    (hspent : ((m.atTime now).serve request).manager.forum.ids = m.forum.ids.advance) :
    m.forum.ids.next ∉ ids := by
  intro hid
  have given := h.upcoming _ (Nat.le_refl _) hid
  rw [given_cons, hungiven] at given
  -- It would be given later, but the ids given later are other ones.
  obtain ⟨n, hn, hname⟩ := given_upcoming ((h.sound.atTime now).serve request) given
  rw [hspent] at hn hname
  have same : n = m.forum.ids.issued := h.fresh.distinct hname
  exact absurd (same ▸ hn) (Nat.not_succ_le_self _)

/-- The managers stay abreast if the first serves a request, whatever the second does, if
they are alike and the second still has the right ids. -/
theorem next {m'' : Manager} (h : Abreast player ids m m' ((now, request) :: rest))
    (hm'' : m''.Sound Context.ids)
    (halike : Alike player ids ((m.atTime now).serve request).manager m'')
    (hsupply : m''.forum.ids.Gives
      (((m.atTime now).serve request).manager.given player rest)) :
    Abreast player ids ((m.atTime now).serve request).manager m'' rest := by
  have sound := h.sound.atTime now
  have setup := serve_setup sound h.chanceless request
  have hgiven := given_cons m player now request rest
  refine ⟨sound.serve request, hm'', ?_, setup.chanceless h.chanceless, halike, ?_, ?_, hsupply⟩
  · exact (h.fresh.atTime now).steps sound (serve_steps sound request)
  · intro id hid
    exact h.given id (hgiven ▸ List.mem_append_right _ hid)
  · intro n hn hid
    rw [(serve_issued sound request).1] at hid ⊢
    exact h.upcoming_rest hn hid

/-- A request that concerns the player is served by both. -/
theorem kept (h : Abreast player ids m m' ((now, request) :: rest))
    (hconcerns : request.concerns player ids = true) (hkeeps : request.KeepsTo player ids) :
    ((m'.atTime now).served request).seen ids = ((m.atTime now).served request).seen ids ∧
      Abreast player ids ((m.atTime now).serve request).manager
        ((m'.atTime now).serve request).manager rest := by
  have sound := h.sound.atTime now
  have sound' := h.sound'.atTime now
  have alike := h.alike.atTime now now
  have supply := h.supply
  rw [given_cons] at supply
  obtain ⟨seen, arena⟩ := alike.serve_own sound sound' rfl hconcerns hkeeps fun id hid => by
    rw [hid] at supply
    refine ⟨supply.1, h.given id ?_⟩
    rw [given_cons, hid]
    exact List.mem_cons_self
  refine ⟨seen, h.next (sound'.serve request) ⟨?_, arena⟩ ?_⟩
  · have setup := serve_setup sound h.chanceless request
    have setup' := serve_setup sound' (alike.setup.chanceless h.chanceless) request
    exact setup.symm.trans (alike.setup.trans setup')
  · have same : ((m'.atTime now).served request).given? player =
        ((m.atTime now).served request).given? player := by
      rw [← Served.given?_seen, seen, Served.given?_seen]
    exact serve_gives sound' hconcerns (same ▸ supply)

/-- Any other request is served by the first alone. -/
theorem deleted (h : Abreast player ids m m' ((now, request) :: rest))
    (hconcerns : request.concerns player ids = false) :
    (∀ e ∈ ((m.atTime now).served request).events, e.conversationId ∉ ids) ∧
      Abreast player ids ((m.atTime now).serve request).manager m' rest := by
  have sound := h.sound.atTime now
  have alike := h.alike.atTime now m'.now
  have ungiven : ((m.atTime now).served request).given? player = none := by
    refine Option.eq_none_iff_forall_ne_some.mpr fun id hid => ?_
    obtain ⟨ps, providerId, r, rfl, hplayer, -⟩ := given?_served hid
    exact ne_of_beq_false hconcerns hplayer
  obtain ⟨quiet, arena⟩ := alike.serve_other sound hconcerns (h.spent ungiven)
  refine ⟨quiet, h.next h.sound' ⟨?_, arena⟩ ?_⟩
  · exact (serve_setup sound h.chanceless request).symm.trans alike.setup
  · have supply := h.supply
    rw [given_cons, ungiven] at supply
    exact supply

/-- So in the end the player has seen the same of both. -/
theorem serveAll {requests : List (Instant × Request)} (h : Abreast player ids m m' requests)
    (hkeeps : ∀ timed ∈ requests, timed.2.KeepsTo player ids) :
    (m'.serveAll (concerning player ids requests)).2.map (Served.seen ids) =
        ((m.serveAll requests).2.filter (·.request.concerns player ids)).map (Served.seen ids) ∧
      (∀ s ∈ (m.serveAll requests).2, s.request.concerns player ids = false →
        ∀ e ∈ s.events, e.conversationId ∉ ids) ∧
      Abreast player ids (m.serveAll requests).1
        (m'.serveAll (concerning player ids requests)).1 [] := by
  -- By induction on the requests of the first manager, which the second serves or skips.
  induction requests generalizing m m' with
  | nil => exact ⟨rfl, fun s hs => absurd hs List.not_mem_nil, h⟩
  | cons timed rest ih =>
    obtain ⟨now, request⟩ := timed
    have hkeeps' := fun timed htimed => hkeeps timed (List.mem_cons_of_mem _ htimed)
    cases hconcerns : request.concerns player ids with
    | true =>
      obtain ⟨first, abreast⟩ := h.kept hconcerns (hkeeps _ List.mem_cons_self)
      obtain ⟨others, quiet, last⟩ := ih abreast hkeeps'
      have both : concerning player ids ((now, request) :: rest) =
          (now, request) :: concerning player ids rest := List.filter_cons_of_pos hconcerns
      rw [both]
      refine ⟨?_, ?_, last⟩
      · show (_ :: _).map _ = ((_ :: _).filter _).map _
        rw [List.filter_cons_of_pos (by exact hconcerns), List.map_cons, List.map_cons, first,
          others]
      · intro s hs hother
        rcases List.mem_cons.mp hs with rfl | hs
        · exact absurd (hconcerns.symm.trans hother) (by simp)
        · exact quiet s hs hother
    | false =>
      obtain ⟨first, abreast⟩ := h.deleted hconcerns
      obtain ⟨others, quiet, last⟩ := ih abreast hkeeps'
      have one : concerning player ids ((now, request) :: rest) = concerning player ids rest :=
        List.filter_cons_of_neg (by simp [hconcerns])
      rw [one]
      refine ⟨?_, ?_, last⟩
      · show _ = ((_ :: _).filter _).map _
        rw [List.filter_cons_of_neg (by simp [served, hconcerns])]
        exact others
      · intro s hs hother
        rcases List.mem_cons.mp hs with rfl | hs
        · exact first
        · exact quiet s hs hother

end Abreast

/-! ### The player -/

/-- Ids to come are not held, and so not a player's yet. -/
theorem divides_idsOf (hm : m.Sound Context.ids) (hfresh : m.Fresh) (player : String)
    (requests : List (Instant × Request)) :
    m.arena.Divides player (m.idsOf player requests) := by
  intro id c hc
  obtain rfl := hm.arena.id_eq hc
  rw [idsOf, List.mem_append]
  constructor
  · intro howner
    exact .inl (List.mem_map_of_mem ((Arena.mem_ofPlayer_held hm.arena).mpr ⟨hc, howner⟩))
  · rintro (hid | hid)
    · obtain ⟨c', hc', hid'⟩ := List.mem_map.mp hid
      obtain ⟨hheld, howner⟩ := (Arena.mem_ofPlayer_held hm.arena).mp hc'
      rw [hid', hc] at hheld
      exact (Option.some.inj hheld) ▸ howner
    · obtain ⟨n, hn, hname⟩ := given_upcoming hm hid
      exact absurd hname (hfresh.spent (Arena.contains_of_get? hc) n hn)

/-- Of the ids to come, a player's are those that the player will be given. -/
theorem given_of_upcoming (hm : m.Sound Context.ids) (hfresh : m.Fresh)
    {requests : List (Instant × Request)} {n : Nat} (hn : m.forum.ids.issued ≤ n)
    (hid : m.forum.ids.name n ∈ m.idsOf player requests) :
    m.forum.ids.name n ∈ m.given player requests := by
  rcases List.mem_append.mp hid with held | given
  · obtain ⟨c, hc, hname⟩ := List.mem_map.mp held
    have hget := ((Arena.mem_ofPlayer_held hm.arena).mp hc).1
    exact absurd hname.symm (hfresh.spent (Arena.contains_of_get? hget) n hn)
  · exact given

theorem Alike.refl (h : m.arena.Divides player ids) : Alike player ids m m :=
  ⟨.refl m, h, h, fun _ _ => rfl⟩

/-- A manager sets out abreast of itself, given the right ids. -/
theorem Abreast.first (hm : m.Sound Context.ids) (hfresh : m.Fresh) (hchance : m.Chanceless)
    {requests : List (Instant × Request)} {supply : IdSupply}
    (hsupply : supply.Gives (m.given player requests)) :
    Abreast player (m.idsOf player requests) m (m.withSupply supply) requests := by
  have divides := divides_idsOf hm hfresh player requests
  refine ⟨hm, ⟨hm.arena, hm.registered, hm.registry⟩, hfresh, hchance,
    ⟨⟨rfl, rfl, rfl, rfl⟩, (Alike.refl divides).arena⟩, fun id hid => ?_, fun n hn hid => ?_,
    hsupply⟩
  · exact List.mem_append_right _ hid
  · exact given_of_upcoming hm hfresh hn hid

/-- One number, and then the others. -/
def following (first : Nat) (pick : Nat → Nat) : Nat → Nat
  | 0 => first
  | n + 1 => pick n

theorem following_injective {first : Nat} {pick : Nat → Nat} (hpick : Function.Injective pick)
    (hfirst : ∀ n, first < pick n) : Function.Injective (following first pick) := by
  rintro (_ | i) (_ | j) heq
  · rfl
  · exact absurd heq (Nat.ne_of_lt (hfirst j))
  · exact absurd heq (Nat.ne_of_gt (hfirst i))
  · exact congrArg (· + 1) (hpick heq)

/-- Some of the ids to come are those that the player will be given, in that order. -/
theorem exists_gives (hm : m.Sound f) (player : String) (requests : List (Instant × Request)) :
    ∃ pick : Nat → Nat, Function.Injective pick ∧ (∀ n, m.forum.ids.issued ≤ pick n) ∧
      ({ name := fun n => m.forum.ids.name (pick n) } : IdSupply).Gives
        (m.given player requests) := by
  induction requests generalizing m with
  | nil =>
    refine ⟨(m.forum.ids.issued + ·), fun i j heq => ?_, Nat.le_add_right _, trivial⟩
    exact Nat.add_left_cancel heq
  | cons timed rest ih =>
    obtain ⟨now, request⟩ := timed
    have sound := hm.atTime now
    obtain ⟨pick, hpick, hle, hgives⟩ := ih (sound.serve request)
    obtain ⟨hname, hissued⟩ := serve_issued sound request
    rw [hname] at hgives
    rw [given_cons]
    cases hgiven : ((m.atTime now).served request).given? player with
    | none => exact ⟨pick, hpick, fun n => Nat.le_trans hissued (hle n), hgives⟩
    | some id =>
      obtain ⟨hnext, hspent⟩ := given?_next sound hgiven
      -- The id that is given now comes first, and the later ones are moved up.
      have later : ∀ n, m.forum.ids.issued < pick n := fun n => by
        have := hle n
        rw [hspent] at this
        exact this
      refine ⟨following m.forum.ids.issued pick, following_injective hpick later, ?_, ?_⟩
      · rintro (_ | n)
        · exact Nat.le_refl _
        · exact Nat.le_of_lt (later n)
      · refine ⟨hnext.symm, hgives.congr fun n => ?_⟩
        rw [Nat.zero_add]
        show m.forum.ids.name (following m.forum.ids.issued pick (1 + n)) = _
        rw [Nat.add_comm]
        rfl

/-- So a manager that serves the player alone can give the same ids, and give none twice. -/
theorem exists_supply (hm : m.Sound f) (hfresh : m.Fresh) (player : String)
    (requests : List (Instant × Request)) :
    ∃ supply : IdSupply, supply.Gives (m.given player requests) ∧
      (m.withSupply supply).Fresh := by
  obtain ⟨pick, hpick, hle, hgives⟩ := exists_gives hm player requests
  exact ⟨_, hgives, hfresh.distinct.comp hpick, fun n _ => hfresh.unheld (pick n) (hle n)⟩

/-- A call that leaves the conversations of a player alone. -/
structure Passes (player : String) (m : Manager) (r : Reply Answer) : Prop where
  conversations : r.manager.conversationsOf player = m.conversationsOf player
  unannounced : ∀ c ∈ m.conversationsOf player, ∀ e ∈ r.events, e.conversationId ≠ c.id

theorem Aside.passes {r : Reply Answer} (hm : m.Sound f) (hr : r.manager.Sound f)
    (h : Aside player (m.idsOf player []) r m) : Passes player m r where
  conversations := (h.arena.ofPlayer_eq hr.arena hm.arena).symm
  unannounced _ hc e he heq :=
    h.quiet e he (List.mem_append_left _ (heq ▸ List.mem_map_of_mem hc))

theorem start_passes (hm : m.Sound Context.ids) (hfresh : m.Fresh) {ps : Participants}
    (hplayer : ps.player.id ≠ player) (providerId : Option String) :
    Passes player m (m.start ps providerId) := by
  have alike := Alike.refl (divides_idsOf hm hfresh player [])
  have aside := alike.start_other hm hplayer providerId fun r _ hid => by
    exact absurd (given_of_upcoming hm hfresh (Nat.le_refl _) hid) List.not_mem_nil
  exact aside.passes hm (hm.steps (start_steps hm ps providerId))

theorem advance_passes (hm : m.Sound Context.ids) (hfresh : m.Fresh) {ps : Participants}
    (hplayer : ps.player.id ≠ player) (id input : String) :
    Passes player m (m.advance ps id input) := by
  have alike := Alike.refl (divides_idsOf hm hfresh player [])
  exact (alike.advance_other hm hplayer id input).passes hm
    (hm.steps (advance_steps hm ps id input))

/-- Whatever others ask for, a player sees the same as without it: the same reactions to the
player's requests and the same events of the player's conversations, if these get the same
ids, which is possible.  Nothing else that is announced is about them.  In particular, no
start and no line of input of another player touches them. -/
theorem isolation (hm : m.Reachable) (hfresh : m.Fresh)
    (hhooks : ∀ providerId p, m.providers.get? providerId = some p → p.KeepsIds)
    (hchance : m.Chanceless) (player : String) :
    (∀ requests : List (Instant × Request),
      let ids := m.idsOf player requests
      let all := m.serveAll requests
      (∀ timed ∈ requests, timed.2.KeepsTo player ids) →
      (∃ supply : IdSupply, supply.Gives (m.given player requests) ∧
        (m.withSupply supply).Fresh) ∧
      ∀ supply : IdSupply, supply.Gives (m.given player requests) →
        let alone := (m.withSupply supply).serveAll (concerning player ids requests)
        alone.2.map (Served.seen ids) =
            (all.2.filter (·.request.concerns player ids)).map (Served.seen ids) ∧
          (∀ s ∈ all.2, s.request.concerns player ids = false →
            ∀ e ∈ s.events, e.conversationId ∉ ids) ∧
          alone.1.conversationsOf player = all.1.conversationsOf player) ∧
    ∀ ps : Participants, ps.player.id ≠ player →
      (∀ providerId, Passes player m (m.start ps providerId)) ∧
        ∀ id input, Passes player m (m.advance ps id input) := by
  have sound := hm.sound.withIds hhooks
  constructor
  · intro requests ids all hkeeps
    refine ⟨exists_supply sound hfresh player requests, fun supply hsupply => ?_⟩
    have first := Abreast.first sound hfresh hchance hsupply
    obtain ⟨seen, quiet, last⟩ := first.serveAll hkeeps
    exact ⟨seen, quiet, last.alike.conversationsOf_eq last.sound last.sound'⟩
  · intro ps hplayer
    exact ⟨start_passes sound hfresh hplayer, advance_passes sound hfresh hplayer⟩

/-- Another guest, who meddles with the supper of the first. -/
def rival : Participants := { player := { id := "rival" }, npc := { id := "cook" } }

def crowd : List (Instant × Request) :=
  [(Instant.epoch, .start rival none), (Instant.epoch, .start Inn.diner none),
    (Instant.epoch, .advance rival "i" "1"), (Instant.epoch, .finish ""),
    (Instant.epoch, .advance Inn.diner "i" "1"), (Instant.epoch, .conversationsOf "guest")]

/-- Without the first id, which the other guest gets. -/
def laterIds : IdSupply := { name := fun n => Inn.ids.name (n + 1) }

/-- The first guest is served as if there were no other. -/
theorem isolation_crowd :
    let requests := [(Instant.epoch, Request.start Inn.diner none),
      (Instant.epoch, .advance Inn.diner "i" "1"), (Instant.epoch, .conversationsOf "guest")]
    let alone := (Inn.kitchen.withSupply laterIds).serveAll requests
    Inn.kitchen.idsOf "guest" crowd = ["i"] ∧
    alone.2.map (Served.seen ["i"]) =
      ((Inn.kitchen.serveAll crowd).2.filter (·.request.concerns "guest" ["i"])).map
        (Served.seen ["i"]) ∧
    Passes "guest" Inn.kitchen (Inn.kitchen.start rival none) := by
  intro requests alone
  have fresh : Inn.kitchen.Fresh := ⟨Inn.ids_injective, fun n _ => rfl⟩
  have hooks : ∀ providerId p, Inn.kitchen.providers.get? providerId = some p → p.KeepsIds := by
    intro providerId p hp run hrun
    exact absurd hrun (hook_ne_some (by decide +kernel) hp run)
  obtain ⟨hrun, hothers⟩ :=
    isolation Inn.kitchen_reachable fresh hooks (by decide +kernel) "guest"
  have given : Inn.kitchen.given "guest" crowd = ["i"] := by decide +kernel
  have named : Inn.kitchen.idsOf "guest" crowd = ["i"] := by decide +kernel
  have keeps : ∀ timed ∈ crowd, timed.2.KeepsTo "guest" ["i"] := by
    simp [crowd, Request.KeepsTo, rival]
  refine ⟨named, ?_, (hothers rival (by decide)).1 none⟩
  obtain ⟨-, hseen⟩ := hrun crowd (named ▸ keeps)
  obtain ⟨seen, -⟩ := hseen laterIds (given ▸ ⟨rfl, trivial⟩)
  rw [named] at seen
  exact seen

end Manager

end Parley
