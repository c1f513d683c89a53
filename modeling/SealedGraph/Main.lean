import SealedGraph.CommandLine.Outcome
import Std.Time.DateTime.Timestamp

/-!
# The program

Looks up what surrounds a command, and writes its outcome.
-/

namespace SealedGraph.Main

open CommandLine

/-- What is found under the name of a file. -/
def content (name : String) : IO Content := do
  try
    return .text (← IO.FS.readFile name)
  catch
    | .noFileOrDirectory .. => return .absent
    | e => return .unreadable (toString e)

/-- The folder of settings files: the one that the environment names, or the
usual one at home. -/
def settingsFolder? : IO (Option String) := do
  match ← IO.getEnv "XDG_CONFIG_HOME" with
  | some folder =>
      if folder.startsWith "/" then return some folder
      else return (← IO.getEnv "HOME").map (· ++ "/.config")
  | none => return (← IO.getEnv "HOME").map (· ++ "/.config")

/-- A key from the system's source of randomness. -/
def freshKey : IO ExchangeKey := do
  let bytes ← IO.getRandomBytes 32
  return ⟨(Word.ofBytes? bytes.data.toList).getD Word.zero⟩

/-- The time of the system's clock. -/
def now : IO Instant := do
  let timestamp ← Std.Time.Timestamp.now
  return ⟨timestamp.toMillisecondsSinceUnixEpoch.val⟩

/-- What surrounds an invocation. -/
def surroundings (invocation : Invocation) : IO Surroundings := do
  let files ← invocation.files.mapM fun name => return (name, ← content name)
  let defaultSettings ←
    match ← settingsFolder? with
    | some folder => some <$> content (folder ++ "/otjson/config.json")
    | none => pure none
  return {
    file := fun name => (files.lookup name).getD .absent
    defaultSettings := defaultSettings
    now := ← now
    freshKey := ← freshKey }

/-- Writes an outcome, and gives its exit code. -/
def write (outcome : Outcome) : IO UInt32 := do
  (← IO.getStdout).putStr outcome.output
  (← IO.getStderr).putStr outcome.errors
  return outcome.code

end SealedGraph.Main

open SealedGraph in
/-- Runs a command. -/
def main (arguments : List String) : IO UInt32 := do
  match CommandLine.Invocation.read (← IO.getEnv "OTJSON_PRIVATE_KEY")
    arguments with
  | .ok invocation =>
      Main.write (invocation.outcome (← Main.surroundings invocation))
  | .error halt => Main.write halt.outcome
