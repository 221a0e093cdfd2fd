import LayerLint.Command.Run

/-!
# The program

Looks at the files that a command may ask for, runs the command on what they hold, and prints what
it comes to.
-/

namespace LayerLint

/-- The fault behind a failed look at a path. -/
def DiskFault.ofError : IO.Error → DiskFault
  | .noFileOrDirectory .. => .missing
  | .permissionDenied .. => .denied
  | .invalidArgument .. => .tooLong
  | .inappropriateType _ code _ => if code == 21 then .isDirectory else .notDirectory
  | _ => .notText

/-- What stood at paths when the program looked. -/
structure Snapshot where
  files : Assoc (Except DiskFault String) := []
  canonical : Assoc String := []

namespace Snapshot

/-- Looks at a path. -/
def look (snapshot : Snapshot) (path : String) : IO Snapshot := do
  let text ←
    try pure (.ok (← IO.FS.readFile path))
    catch error => pure (.error (DiskFault.ofError error))
  let canonical ←
    try pure (snapshot.canonical.set path (← IO.FS.realPath path).toString)
    catch _ => pure snapshot.canonical
  return { files := snapshot.files.set path text, canonical }

/-- The world that a snapshot shows. -/
def world (snapshot : Snapshot) (stdin : Except DiskFault String) (globalDir : Option String) :
    World :=
  { read := fun path => (snapshot.files.get? path).getD (.error .missing)
    isPresent := fun path => (snapshot.canonical.get? path).isSome
    canonical := snapshot.canonical.get?
    stdin
    globalDir }

end Snapshot

/-- The directory of the global configuration. -/
def globalDirOf (configDir home : Option String) : Option String :=
  configDir.or (home.map (Location.below · ".archgraph"))

/-- The world as an invocation may ask for it. -/
def lookAround (invocation : Invocation) : IO World := do
  let globalDir := globalDirOf (← IO.getEnv "ARCHGRAPH_CONFIG_DIR") (← IO.getEnv "HOME")
  match invocation.command.manifest? with
  | none => return (← Snapshot.look {} newConfigName).world (.ok "") globalDir
  | some manifest =>
    let start := projectDir manifest
    let snapshot ← Snapshot.look {} start
    let canonicalStart := (snapshot.canonical.get? start).getD start
    let paths := manifest :: invocation.config.toList ++ configCandidates canonicalStart globalDir
    let snapshot ← paths.foldlM Snapshot.look snapshot
    let stdin ←
      if manifest = stdinPath then
        try pure (.ok (← (← IO.getStdin).readToEnd))
        catch error => pure (.error (DiskFault.ofError error))
      else pure (.ok "")
    return snapshot.world stdin globalDir

/-- Prints an outcome and does what it asks for. -/
def Outcome.perform (outcome : Outcome) : IO UInt32 := do
  for entry in outcome.log do
    IO.eprintln entry.line
  if let some (name, text) := outcome.writes then
    IO.FS.writeFile name text
  IO.print outcome.stdout
  IO.eprint (Failure.text outcome.errors)
  if outcome.exit = 2 then
    IO.eprint helpText
  return UInt32.ofNat outcome.exit

end LayerLint

open LayerLint in
/-- Runs the command that the arguments spell. -/
def main (args : List String) : IO UInt32 := do
  let world ← match parseArgs args with
    | .run invocation => lookAround invocation
    | _ => pure (Snapshot.world {} (.ok "") none)
  (runArgs world args).perform
