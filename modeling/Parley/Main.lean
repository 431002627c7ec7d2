/-
The program: dialogue at a terminal.

It is configured by the file that `DIALOGUE_CONFIG` names, or else by the other
`DIALOGUE_` variables.  Each line of input is one `Console.step`; before it, the
clock is set and the maintenance task is given the time that has passed.  Saved
conversations are kept in a file of rows at the path of the database.

The exit status is 0 after a session that ended well, 1 otherwise.
-/
import Parley.Console
import Parley.Conversation.Identifier
import Parley.Sampling
import Parley.Store.Rows
import Std.Time.DateTime.Timestamp

namespace Parley.Program

/-- The variables that a configuration is read from. -/
def variableNames : List String :=
  ["DIALOGUE_CONTENT_DIR", "DIALOGUE_DEFAULT_PROVIDER", "DIALOGUE_MAX_CONVERSATIONS",
    "DIALOGUE_TIMEOUT_MINUTES", "DIALOGUE_CLEANUP_SECONDS", "DIALOGUE_NUMERIC_SELECTION",
    "DIALOGUE_DB_PATH"]

def environment : IO Config.Environment := do
  let values : List (String × Option String) ←
    variableNames.mapM fun name => return (name, ← IO.getEnv name)
  return fun name => (values.lookup name).join

/-- The text of a file, if it can be read as text. -/
def readText? (path : String) : IO (Option String) := do
  match ← (IO.FS.readFile path).toBaseIO with
  | .ok text => return some text
  | .error _ => return none

def configuration : IO (Except ConfigError Config) := do
  match ← IO.getEnv "DIALOGUE_CONFIG" with
  | some path => return Config.ofText (← readText? path)
  | none => return Config.ofEnvironment (← environment)

/-- The files of a directory, if there is one. -/
def readDirectory (path : String) : IO (Option Directory) := do
  let list : IO (List (String × File)) := do
    let root ← IO.FS.realPath path
    (← root.readDir).toList.mapM fun entry => do
      match ← (IO.FS.readBinFile entry.path).toBaseIO with
      | .ok bytes => return (entry.fileName, File.ofBytes bytes)
      | .error _ => return (entry.fileName, File.unreadable)
  match ← list.toBaseIO with
  | .ok files => return some (Dict.ofList files)
  | .error _ => return none

/-- The database at a path, which is created if there is none. -/
def openDatabase (path : String) : IO (Except StoreError Store) := do
  let touch : IO Unit := IO.FS.withFile path .append fun _ => return
  match ← touch.toBaseIO with
  | .error _ => return .error .database
  | .ok () =>
    match (← readText? path).bind Store.ofFileText? with
    | some store => return .ok store
    | none => return .error .database

/-- Write the store to its file if it has changed. -/
def saveChanges (before after : Manager) : IO Unit := do
  match after.store with
  | none => return
  | some store =>
    if before.store != some store then
      if let some text := store.fileText? then
        IO.FS.writeFile after.config.persistence.databasePath text

def clock : IO Instant := do
  let nanos := (← Std.Time.Timestamp.now).toNanosecondsSinceUnixEpoch.val
  return ⟨nanos / Instant.nanosPerSecond, (nanos % Instant.nanosPerSecond).toNat⟩

/-- A number of so many random bytes. -/
def entropy (bytes : USize) : IO Nat := do
  return (← IO.getRandomBytes bytes).toList.foldl (fun n b => n * 256 + b.toNat) 0

/-- Ids that no other run of the program uses. -/
def freshIds : IO IdSupply := do
  let seed ← entropy 16
  return { name := fun n => Identifier.ofBits (seed + n) }

/-- Random samples that are others in every run. -/
def samples : IO (Nat → Float) := do
  let seed ← entropy 8
  return Sampling.sample seed.toUInt64

/-- Seconds on a clock that never goes back. -/
def seconds : IO Nat := return (← IO.monoMsNow) / 1000

/-- Bring a console up to the present, `ticked` being when its task last knew the time. -/
def catchUp (c : Console) (ticked : Nat) : IO (Console × Nat) := do
  let present ← seconds
  let before := c.manager.atTime (← clock)
  let (manager, _) := before.tick (present - ticked)
  saveChanges before manager
  return ({ c with manager }, present)

/-- Read and answer lines until there are no more, or the player quits. -/
partial def converse (input output : IO.FS.Stream) (c : Console) (ticked : Nat) : IO Console := do
  let line ← input.getLine
  let (c, ticked) ← catchUp c ticked
  if line.isEmpty then return c
  let printed := c.step line
  for text in printed.lines do
    output.putStrLn text
  output.flush
  if printed.hasQuit then return printed.console
  converse input output printed.console ticked

/-- Say on the error output why the program fails. -/
def fail (message : String) : IO UInt32 := do
  (← IO.getStderr).putStrLn message
  return 1

/-- A session of a manager that has taken up work. -/
def session (m : Manager) : IO UInt32 := do
  let output ← IO.getStdout
  let playerName := (← IO.getEnv "DIALOGUE_PLAYER").getD "Traveller"
  output.putStrLn Console.banner
  output.flush
  let c ← converse (← IO.getStdin) output (Console.new m playerName) (← seconds)
  let (m, result) := c.manager.shutdown
  saveChanges c.manager m
  match result with
  | .ok () => return 0
  | .error e => fail e.message

def run : IO UInt32 := do
  match ← configuration with
  | .error e => fail e.message
  | .ok config =>
    let database ←
      if config.persistence.enabled then openDatabase config.persistence.databasePath
      else pure (.ok (.database []))
    match Manager.openWith config (← freshIds) (← clock) database with
    | .error e => fail e.message
    | .ok m =>
      let m := { m with sample := ← samples }
      match m.launch [] (← readDirectory config.contentDir) with
      | (_, .error e) => fail e.message
      | (m, .ok ()) => session m

end Parley.Program

def main : IO UInt32 := Parley.Program.run
