import Std.Time.DateTime
import Workplane.Background.Tasks
import Workplane.CommandLine.Options
import Workplane.Http.Api
import Workplane.Storage.FileBlobs

/-!
# The server

Serves a workspace until its input ends: each line is a request, a method and a target and possibly
a body, and is answered by a line with a status and a body.  Objects are kept in memory, snapshots
in files, and the background tasks of the workspace run beside.
-/

namespace Workplane.Server

/-- What requests and tasks share. -/
structure Shared where
  backend : IO.Ref Backend
  /-- Where snapshots are kept. -/
  directory : String
  stopped : IO.Ref Bool

/-- The time of the clock. -/
def readClock : IO Timestamp := do
  let now ← Std.Time.Timestamp.now
  let t := Std.Time.PlainDateTime.ofWallTime (now.toWallTime .zero)
  return ⟨t.year.toInt, t.month.toNat, t.day.toNat, t.hour.toNat, t.minute.toNat,
    t.second.val.toNat, t.nanosecond.toNat⟩

/-- Random digits that name a request or a temporary file. -/
def randomToken : IO String := do
  return Hex.ofBytes (← IO.getRandomBytes 16).toList

/-! ### Calls -/

/-- The name of a file below the directory of snapshots. -/
def fileName (s : Shared) (p : Path) : String :=
  "/".intercalate (s.directory :: p)

/-- Puts a blob into its file.  It is written to a temporary file first, which does not stay if
anything fails. -/
def putBlob (s : Shared) (key : String) (data : ByteArray) : IO Unit := do
  match FileBlobs.Location.ofKey? key with
  | none => throw (IO.userError (FileBlobs.Error.invalidKey key).message)
  | some l =>
    IO.FS.createDirAll (fileName s l.path.dropLast)
    let temporary := fileName s (FileBlobs.temporary l.path (← randomToken))
    try
      IO.FS.writeBinFile temporary data
      IO.FS.rename temporary (fileName s l.path)
    catch e =>
      try IO.FS.removeFile temporary catch _ => pure ()
      throw e

/-- The blob in its file, if there is one. -/
def getBlob (s : Shared) (key : String) : IO (Option ByteArray) := do
  match FileBlobs.Location.ofKey? key with
  | none => throw (IO.userError (FileBlobs.Error.invalidKey key).message)
  | some l =>
    try
      return some (← IO.FS.readBinFile (fileName s l.path))
    catch
      | .noFileOrDirectory .. => return none
      | e => throw e

/-- The answer of a call. -/
def call (s : Shared) : (c : Call) → IO c.Answer
  | .putBlob key data => putBlob s key data
  | .getBlob key => getBlob s key
  | c => s.backend.modifyGet c.answer

/-- Waits for the end of a call until a moment comes; the call goes on after that, unheard. -/
partial def await (task : Task (Except IO.Error α)) (deadline : Nat) : IO (Outcome α) := do
  if ← IO.hasFinished task then
    match task.get with
    | .ok answer => return .answered answer
    | .error e => return .failed [toString e]
  else if (← IO.monoMsNow) < deadline then
    IO.sleep 1
    await task deadline
  else return .gaveUp

/-- Runs a program; each of its calls is given up after its limit. -/
def perform (s : Shared) : Program α → IO α
  | .done result => return result
  | .clock next => do perform s (next (← readClock))
  | .call c limit next => do
    let started ← IO.monoMsNow
    let outcome ← await (← IO.asTask (call s c)) (started + limit)
    perform s (next ⟨outcome, (← IO.monoMsNow) - started⟩)

/-! ### Background tasks -/

/-- The longest sleep, in milliseconds, between two looks at whether the server stops. -/
def slice : Nat := 200

/-- Sleeps unless the server stops first; the result tells whether it did not. -/
partial def sleep (s : Shared) (ms : Nat) : IO Bool := do
  if ← s.stopped.get then return false
  if ms = 0 then return true
  let part := min ms slice
  IO.sleep part.toUInt32
  sleep s (ms - part)

/-- Runs a routine until it ends or the server stops. -/
partial def follow (s : Shared) (r : Routine) : IO Unit := do
  match ← perform s r.round with
  | none => return
  | some (next, pause) => if ← sleep s pause then follow s next

/-! ### Requests -/

/-- The request that a line spells. -/
def requestOfLine (line : List Char) : Http.Request :=
  let rest := (line.dropWhile (· != ' ')).drop 1
  { method := .ofName (String.ofList (line.takeWhile (· != ' ')))
    target := String.ofList (rest.takeWhile (· != ' '))
    body := (String.ofList ((rest.dropWhile (· != ' ')).drop 1)).toUTF8 }

/-- A response as a line. -/
def responseLine (r : Http.Response) : String :=
  match r.body with
  | .json document => s!"{r.status} {document.text}"
  | .text content => s!"{r.status} {content}"

/-- Answers requests until the input ends. -/
partial def serve (s : Shared) (c : Workspace.Config) : IO Unit := do
  let line ← (← IO.getStdin).getLine
  if line.isEmpty then return
  let request := requestOfLine (line.toList.takeWhile (· != '\n'))
  let id := "req_" ++ (← randomToken)
  let response ← perform s (Http.Api.handle c id request)
  let output ← IO.getStdout
  output.putStrLn (responseLine response)
  output.flush
  serve s c

/-- Adds what the snapshots hold and the store does not. -/
def restore (s : Shared) (c : Workspace.Config) : IO Unit := do
  let run (p : StoreProgram Nat) : IO Unit := do
    match ← perform s p.run with
    | .ok _ => return
    | .error e => throw (IO.userError e.message)
  run c.photons.restore
  run c.deployments.restore
  run c.secrets.restore

/-- Serves a workspace. -/
def run (o : CommandLine.Options) (c : Workspace.Config) : IO Unit := do
  let s : Shared := ⟨← IO.mkRef .empty, o.backupDirectory, ← IO.mkRef false⟩
  if o.restoreFromBackup then restore s c
  let tasks ← (Background.tasks c {} {}).mapM fun r => IO.asTask (follow s r) .dedicated
  serve s c
  s.stopped.set true
  for task in tasks do
    let _ ← IO.wait task

/-- The environment variables of the settings. -/
def environment : IO (List (String × String)) := do
  let given ← CommandLine.Setting.all.mapM fun s => do
    return (← IO.getEnv s.environmentName).map fun value => (s.environmentName, value)
  return given.filterMap id

/-- What is printed when help is asked for. -/
def usage : String :=
  "\n".intercalate ("Settings, each with the environment variable that it can come from:" ::
    CommandLine.Setting.all.map fun s => s!"  --{s.name}  {s.environmentName}")

end Workplane.Server

open Workplane in
/-- Reads the options and serves the workspace that they name. -/
def main (words : List String) : IO UInt32 := do
  match CommandLine.Options.parse words (← Server.environment) with
  | .error .displayHelp => IO.println Server.usage; return 0
  | .error .displayVersion => IO.println "0.1.0"; return 0
  | .error e => IO.eprintln e.name; return 2
  | .ok options =>
    match options.config with
    | .error text => IO.eprintln (Workspace.State.unknownMessage text); return 1
    | .ok config => Server.run options config; return 0
