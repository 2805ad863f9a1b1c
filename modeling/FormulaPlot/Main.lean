import FormulaPlot.Command.Run
import FormulaPlot.Log.Timestamp
import FormulaPlot.Main.Image
import Std.Time.DateTime.Timestamp

/-!
# The program

Reads the settings from the environment, runs the command line, and writes what it leaves behind.
-/

open FormulaPlot

namespace FormulaPlot.Program

/-- The variables of the environment that have a value. -/
def environment : IO Settings.Environment := do
  let mut env := []
  for name in Settings.environmentNames do
    if let some text ← IO.getEnv name then env := env ++ [(name, text)]
  return env

/-- The directory of a path. -/
def directory (path : String) : String :=
  let parts := (path.splitOn "/").dropLast
  if parts.isEmpty then "." else if parts == [""] then "/" else "/".intercalate parts

/-- Whether a file can be written under a path. -/
def canWrite (path : String) : IO Bool := do
  try
    let _ ← IO.FS.Handle.mk (directory path) .read
    return true
  catch _ => return false

/-- What the program finds around it, for the path that a command line names. -/
def surroundings (words : List String) : IO Surroundings := do
  let writable ←
    match Request.parse words with
    | .ok (.request { output := some path, .. }) => canWrite path
    | _ => pure true
  return {
    canWrite := fun _ => writable
    temporary := "/tmp/mineplot.png"
    libraries := [("NumPy", Command.version), ("Matplotlib", Command.version)] }

/-- The time of day. -/
def stamp : IO String := do
  let now ← Std.Time.Timestamp.now
  let seconds := Float.ofInt now.toNanosecondsSinceUnixEpoch.val / 1000000000
  return (Timestamp.text seconds).toOption.getD ""

/-- Writes a file that a run left. -/
def writeFile (time : String) : String × FileContents → IO Unit
  | (name, .records rs) => do
    let h ← IO.FS.Handle.mk name .append
    h.putStr (String.join (rs.map (Record.lines time "")))
  | (name, .image points) => IO.FS.writeBinFile name (Image.ofPoints 640 480 points).encode

/-- Runs a command line and gives the exit code. -/
def run (words : List String) : IO UInt32 := do
  match Settings.ofEnvironment (← environment) with
  | .error e =>
    IO.eprintln e.message
    return 1
  | .ok settings =>
    let (result, session) := Session.runCommand { settings } (← surroundings words) words
    let time ← stamp
    match result.outcome with
    | .error e =>
      IO.eprintln e.message
      return 1
    | .ok o =>
      session.files.forM (writeFile time)
      IO.eprint (o.complaint ++ String.join (o.records.map (Record.lines time "")))
      IO.print o.stdout
      return UInt32.ofNat o.exit

end FormulaPlot.Program

/-- Runs the program on the words after its name. -/
def main (words : List String) : IO UInt32 := Program.run words
