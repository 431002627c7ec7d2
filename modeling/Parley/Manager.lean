/-
The manager of conversations: which provider runs them, how many a player may
have, and when they end.

Every call gives back the manager as it is afterwards, the events announced in
order, and the calls of custom actions.

* `Manager.start` — within the quota of the player, after the player's idle
  conversations have been ended;
* `Manager.advance` — one line of input, for the conversation's own player and
  before the timeout;
* `Manager.launch` — providers are prepared and registered, then saved
  conversations are restored.
-/
import Parley.Provider
import Parley.Store

namespace Parley

structure Manager where
  config : Config
  providers : Dict Provider := ∅
  /-- The provider asked first when none is named. -/
  defaultProvider : Option String := none
  forum : Forum
  store : Option Store := none
  /-- Seconds since the maintenance task began to wait, while there is one. -/
  maintenance : Option Nat := none
  /-- The random samples of a provider that is made because none is given; whoever runs the
  manager brings them. -/
  sample : Nat → Float := fun _ => 0.5

/-- What a call leaves behind. -/
structure Reply (α : Type) where
  manager : Manager
  events : List Event := []
  calls : List (String × Json) := []
  result : α

/-- The participants as a call hands them back, and its answer. -/
structure Answer where
  participants : Participants
  response : Except DialogueError Response

namespace Manager

def new (config : Config) (ids : IdSupply) (now : Instant) (store : Option Store) : Manager :=
  { config
    defaultProvider := config.defaultProvider
    forum := { ids, now, settings := Settings.ofConfig config }
    store }

/-- A manager that saves to the database exactly if the configuration says so. -/
def openWith (config : Config) (ids : IdSupply) (now : Instant)
    (database : Except StoreError Store) : Except DialogueError Manager :=
  if config.persistence.enabled then
    match database with
    | .ok store => .ok (new config ids now (some store))
    | .error e => .error (.persistence e)
  else .ok (new config ids now none)

def arena (m : Manager) : Arena := m.forum.arena

def now (m : Manager) : Instant := m.forum.now

def timeout (m : Manager) : Int := m.forum.settings.timeout

def withArena (m : Manager) (arena : Arena) : Manager :=
  { m with forum := { m.forum with arena } }

/-- Set the clock. -/
def atTime (m : Manager) (now : Instant) : Manager := { m with forum := { m.forum with now } }

/-- Let time pass for the clock. -/
def addMillis (m : Manager) (ms : Int) : Manager :=
  { m with forum := { m.forum with now := m.forum.now.addMillis ms } }

section Registry

/-- Register a provider under its id; the first one becomes the default. -/
def register (m : Manager) (p : Provider) : Except DialogueError Manager :=
  if m.providers.contains p.id then .error (.duplicateProvider p.id)
  else .ok { m with
    providers := m.providers.insert p.id p
    defaultProvider := m.defaultProvider <|> some p.id }

/-- Remove a provider and end its conversations; the number that ended. -/
def unregister (m : Manager) (providerId : String) : Reply (Except DialogueError Nat) :=
  if m.providers.contains providerId then
    -- Conversations carry the provider's id, so they are found without it.
    let providers := m.providers.erase providerId
    let defaultProvider :=
      if m.defaultProvider = some providerId then providers.keys.head? else m.defaultProvider
    let (arena, ended, events) :=
      m.arena.finishAll .providerUnregistered m.now (m.arena.idsOfProvider providerId)
    { manager := { m.withArena arena with providers, defaultProvider }
      events
      result := .ok ended.length }
  else { manager := m, result := .error (.providerNotFound providerId) }

def setDefault (m : Manager) (providerId : String) : Except DialogueError Manager :=
  if m.providers.contains providerId then .ok { m with defaultProvider := some providerId }
  else .error (.providerNotFound providerId)

def default? (m : Manager) : Option Provider := m.defaultProvider.bind m.providers.get?

/-- The named provider; else the default if it can run the NPC, else the first
that can, else the default, which then says why not. -/
def resolve (m : Manager) (npcId : String) : Option String → Except DialogueError Provider
  | some providerId =>
    match m.providers.get? providerId with
    | some p => .ok p
    | none => .error (.providerNotFound providerId)
  | none =>
    let candidates := m.default?.toList ++ m.providers.values
    match candidates.find? (·.canHandle npcId) <|> m.default? with
    | some p => .ok p
    | none => .error (.noProviderAvailable npcId)

/-- Put a provider back after a call changed it. -/
def withProvider (m : Manager) (p : Provider) : Manager :=
  { m with providers := m.providers.modify p.id fun _ => p }

end Registry

section Calls

/-- What a call of a provider means for the manager. -/
def settle (m : Manager) (o : Outcome Response) : Reply Answer :=
  { manager := { m.withProvider o.provider with forum := o.forum }
    events := o.events
    calls := o.calls
    result := { participants := o.participants, response := o.result } }

def refuse (m : Manager) (ps : Participants) (e : DialogueError) : Reply Answer :=
  { manager := m, result := { participants := ps, response := .error e } }

/-- End the idle conversations of a player, so that they do not count. -/
def expirePlayer (m : Manager) (playerId : String) : Manager × List Event :=
  let idle := (m.arena.ofPlayer playerId).filter (·.isExpired m.now m.timeout)
  let (arena, _, events) := m.arena.finishAll .timeout m.now (idle.map Conversation.id)
  (m.withArena arena, events)

/-- Begin a conversation with an NPC. -/
def start (m : Manager) (ps : Participants) (providerId : Option String) : Reply Answer :=
  let (m, expired) := m.expirePlayer ps.player.id
  let limit := m.config.maxConversationsPerPlayer
  -- The quota is checked first: a player who has reached it is refused for any NPC.
  let reply :=
    if limit ≤ m.arena.countOfPlayer ps.player.id then
      m.refuse ps (.quotaExceeded ps.player.id limit)
    else
      match m.resolve ps.npc.id providerId with
      | .error e => m.refuse ps e
      | .ok p => m.settle (p.start m.forum ps)
  { reply with events := expired ++ reply.events }

/-- Give a line of input to a conversation. -/
def advance (m : Manager) (ps : Participants) (id input : String) : Reply Answer :=
  match m.arena.get? id with
  | none => m.refuse ps (.conversationNotFound id)
  | some c =>
    if c.playerId != ps.player.id then m.refuse ps (.ownershipMismatch id ps.player.id)
    else if c.isExpired m.now m.timeout then
      let (arena, _, events) := m.arena.finishAll .timeout m.now [id]
      { (m.withArena arena).refuse ps (.timeout id) with events }
    else
      match m.providers.get? c.providerId with
      | none => m.refuse ps (.providerNotFound c.providerId)
      | some p =>
        let reply := m.settle (p.advance m.forum ps id input)
        match reply.result.response with
        | .ok response =>
          if response.isComplete then
            { reply with manager := reply.manager.withArena (reply.manager.arena.remove id) }
          else reply
        | .error _ => reply

/-- End a conversation; whether there was one. -/
def finish (m : Manager) (id : String) : Reply Bool :=
  match m.arena.get? id with
  | none => { manager := m, result := false }
  | some c =>
    match m.providers.get? c.providerId with
    | some p =>
      let (forum, events, result) := p.finish m.forum id
      { manager := { m with forum }, events, result }
    | none =>
      let (arena, ended, events) := m.arena.finishAll .explicit m.now [id]
      { manager := m.withArena arena, events, result := !ended.isEmpty }

/-- The conversations of a player, in the order in which they began. -/
def conversationsOf (m : Manager) (playerId : String) : List Conversation :=
  m.arena.ofPlayer playerId

def conversation? (m : Manager) (id : String) : Option Conversation := m.arena.get? id

/-- Hand a conversation to another provider that can run its NPC. -/
def switchProvider (m : Manager) (id providerId : String) :
    Reply (Except DialogueError Conversation) :=
  let refuse (e : DialogueError) : Reply (Except DialogueError Conversation) :=
    { manager := m, result := .error e }
  match m.providers.get? providerId with
  | none => refuse (.providerNotFound providerId)
  | some p =>
    match m.arena.get? id with
    | none => refuse (.conversationNotFound id)
    | some c =>
      if !p.canHandle c.npcId then refuse (.noProviderAvailable c.npcId)
      else if c.providerId = providerId then { manager := m, result := .ok c }
      else
        let switched := { c with providerId }
        { manager := m.withArena (m.arena.update id switched)
          events := [Event.ofConversation switched m.now
            (.providerSwitched c.providerId providerId)]
          result := .ok switched }

/-- End all conversations that are idle; how many there were. -/
def cleanup (m : Manager) : Reply Nat :=
  let (arena, ended, events) := m.arena.sweep m.now m.timeout
  { manager := m.withArena arena, events, result := ended.length }

end Calls

section Saving

/-- Save the conversations; how many, none without a store. -/
def autosave (m : Manager) : Except DialogueError (Manager × Nat) :=
  match m.store with
  | none => .ok (m, 0)
  | some store =>
    match store.replaceActive m.arena.all with
    | .ok store => .ok ({ m with store := some store }, m.arena.all.length)
    | .error e => .error (.persistence e)

/-- A saved conversation that can go on. -/
def isRestorable (m : Manager) (c : Conversation) : Bool :=
  c.isActive && !c.isExpired m.now m.timeout && m.providers.contains c.providerId

/-- Take up the saved conversations. -/
def restore (m : Manager) : Except DialogueError Manager :=
  match m.store with
  | none => .ok m
  | some store =>
    match store.loadActive with
    | .ok saved => .ok (m.withArena ((saved.filter m.isRestorable).foldl Arena.insert m.arena))
    | .error e => .error (.persistence e)

end Saving

section Launching

/-- Prepare and register providers in turn, up to the first that is refused. -/
def registerAll (m : Manager) (content : Option Directory) :
    List Provider → Manager × Except DialogueError Unit
  | [] => (m, .ok ())
  | p :: rest =>
    match m.register (p.prepare m.config content) with
    | .ok m => m.registerAll content rest
    | .error e => (m, .error e)

/-- Wait for maintenance, unless it is waited for already. -/
def startMaintenance (m : Manager) : Manager :=
  { m with maintenance := m.maintenance <|> some 0 }

/-- The providers that are given, or a new one if there are none. -/
def provided (m : Manager) (given : List Provider) : List Provider :=
  if given.isEmpty then [{ sample := m.sample }] else given

/-- Take up work with the given providers, or with one made from the
configuration.  What was done before a failure stays done. -/
def launch (m : Manager) (given : List Provider) (content : Option Directory) :
    Manager × Except DialogueError Unit :=
  match m.registerAll content (m.provided given) with
  | (m, .error e) => (m, .error e)
  | (m, .ok ()) =>
    match m.defaultProvider.filter fun providerId => !m.providers.contains providerId with
    | some missing => (m, .error (.providerNotFound missing))
    | none =>
      match m.restore with
      | .error e => (m, .error e)
      | .ok m => (if m.store.isSome then m.startMaintenance else m, .ok ())

end Launching

end Manager

end Parley
