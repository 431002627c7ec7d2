/-
Playing dialogue from a terminal.

`talk` and the name of an NPC starts a conversation, `bye` ends the current one
and `quit` leaves.  Anything else is said in the current conversation.

* `Console.step` — what one line does, and what is printed;
* `Console.run` — a whole session, from the first line to the last.

Design notes: a conversation that another one pushes aside is not ended; it can
come to its end only by timeout.
-/
import Parley.Manager.Maintenance

namespace Parley

structure Console where
  manager : Manager
  player : Player
  /-- The conversation that input goes to, and its NPC. -/
  current : Option (String × Npc) := none

/-- What a line led to. -/
structure Console.Printed where
  console : Console
  lines : List String
  hasQuit : Bool := false

namespace Console

def banner : String := "talk <npc> to start, bye to leave, quit to exit"

def new (manager : Manager) (playerName : String) : Console :=
  { manager, player := Player.new "local" playerName }

def viewLine (v : ChoiceView) : String := "  " ++ toString v.index ++ ". " ++ v.text

/-- A response as it is printed. -/
def responseLines (r : Response) : List String :=
  r.message :: (r.choices.getD []).map viewLine ++
    (if r.isComplete then ["(conversation ended)"] else [])

def errorLine (e : DialogueError) : String := "! " ++ e.message

/-- Start a conversation; it becomes the current one if it goes on. -/
def talk (c : Console) (npcId : String) : Printed :=
  let npc := Npc.new npcId npcId
  let reply := c.manager.start { player := c.player, npc } none
  let c := { c with manager := reply.manager }
  match reply.result.response with
  | .error e => { console := c, lines := [errorLine e] }
  | .ok r =>
    { console := { c with
        player := reply.result.participants.player
        current := if r.isComplete then c.current else some (r.conversationId, npc) }
      lines := responseLines r }

/-- End the current conversation. -/
def leave (c : Console) : Printed :=
  match c.current with
  | none => { console := c, lines := [] }
  | some (id, _) =>
    { console := { c with manager := (c.manager.finish id).manager, current := none }
      lines := ["(conversation ended)"] }

/-- An error after which the current conversation cannot go on. -/
def isFinal (e : DialogueError) : Bool :=
  match e.kind with
  | .timeout | .lookup => true
  | _ => false

/-- Say something in the current conversation. -/
def say (c : Console) (input : String) : Printed :=
  match c.current with
  | none => { console := c, lines := ["! not talking to anyone"] }
  | some (id, npc) =>
    let reply := c.manager.advance { player := c.player, npc } id input
    let c := { c with manager := reply.manager }
    match reply.result.response with
    | .error e =>
      { console := { c with current := if isFinal e then none else c.current }
        lines := [errorLine e] }
    | .ok r =>
      { console := { c with
          player := reply.result.participants.player
          current := if r.isComplete then none else c.current }
        lines := responseLines r }

/-- The rest of a line that begins with the word `talk`. -/
def talkTarget? (line : String) : Option String :=
  let word := ['t', 'a', 'l', 'k', ' ']
  if word.isPrefixOf line.toList then
    some (Text.trim (String.ofList (line.toList.drop word.length)))
  else none

/-- What one line does.  Blanks around it do not count, and a blank line is none. -/
def step (c : Console) (line : String) : Printed :=
  let line := Text.trim line
  if line.isEmpty then { console := c, lines := [] }
  else if line = "quit" then { console := c, lines := [], hasQuit := true }
  else if line = "bye" then c.leave
  else
    match talkTarget? line with
    | some npcId => c.talk npcId
    | none => c.say line

/-- Let time pass between two lines. -/
def addMillis (c : Console) (ms : Int) : Console :=
  { c with manager := c.manager.addMillis ms }

/-- The lines of a session, each `pause` milliseconds after the one before, up to
`quit`. -/
def runLines (pause : Int) (c : Console) : List String → Console × List String
  | [] => (c, [])
  | line :: rest =>
    let printed := (c.addMillis pause).step line
    if printed.hasQuit then (printed.console, printed.lines)
    else
      let (c, others) := runLines pause printed.console rest
      (c, printed.lines ++ others)

/-- What a session printed, whether it went well, and the manager at its end. -/
structure Session where
  manager : Option Manager
  lines : List String
  succeeded : Bool

def Session.failed (manager : Option Manager) : Session :=
  { manager, lines := [], succeeded := false }

/-- A whole session of a manager that has yet to take up work. -/
def run (manager : Except DialogueError Manager) (content : Option Directory) (playerName : String)
    (pause : Int) (lines : List String) : Session :=
  match manager with
  | .error _ => Session.failed none
  | .ok m =>
    match m.launch [] content with
    | (m, .error _) => Session.failed (some m)
    | (m, .ok ()) =>
      let (c, printed) := runLines pause (new m playerName) lines
      let (m, result) := c.manager.shutdown
      { manager := some m, lines := banner :: printed, succeeded := result.isOk }

end Console

end Parley
