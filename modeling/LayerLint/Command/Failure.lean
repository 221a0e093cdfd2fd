import LayerLint.Config.Basic
import LayerLint.Disk.Basic

/-!
# Failures of commands

Why a command could not do its work, with the chain of messages from the outermost to the cause.
-/

namespace LayerLint

/-- Why a file of input could not be used. -/
inductive InputError where
  | unreadable (fault : DiskFault)
  | malformed
  deriving DecidableEq, Repr

/-- Why a command failed. -/
inductive Failure where
  /-- The configuration at this path could not be used. -/
  | config (path : String) (error : InputError)
  /-- The manifest at this path could not be used. -/
  | manifest (path : String) (error : InputError)
  /-- The declared layers have a fault. -/
  | layers (fault : LayerFault)
  /-- A configuration is there and may not be overwritten. -/
  | configExists (path : String)
  /-- A file could not be written. -/
  | write (fault : DiskFault)
  deriving DecidableEq, Repr

/-- A fault of the layers, as an analysis reports it. -/
def LayerFault.configurationMessage (fault : LayerFault) : String :=
  s!"Configuration error: {fault.message}"

namespace Failure

/-- The outermost message about a configuration. -/
def configMessage (path : String) : String :=
  s!"Failed to load config: {path}"

/-- The messages, the outermost first. -/
def chain : Failure → List String
  | .config path (.unreadable fault) =>
    [configMessage path, s!"Failed to read config file {path}: {fault.message}", fault.message]
  | .config path .malformed => [configMessage path, "Failed to parse config"]
  | .manifest path (.unreadable fault) =>
    [s!"Failed to load manifest: {path}", s!"Failed to read manifest {path}: {fault.message}",
      fault.message]
  | .manifest path .malformed =>
    [s!"Failed to load manifest: {path}", "Failed to parse manifest"]
  | .layers fault => ["Failed to build analyzer", fault.configurationMessage, fault.message]
  | .configExists path =>
    [s!"Configuration file already exists at {path}. Use --force to overwrite."]
  | .write fault => [fault.message]

/-- A chain of messages as it is printed: the outermost, then the causes, numbered when there are
several. -/
def text : List String → String
  | [] => ""
  | [message] => Text.unlines [s!"Error: {message}"]
  | [message, cause] => Text.unlines [s!"Error: {message}", "", "Caused by:", s!"    {cause}"]
  | message :: causes =>
    Text.unlines
      ([s!"Error: {message}", "", "Caused by:"] ++
        causes.zipIdx.map fun (cause, index) => s!"    {index}: {cause}")

end Failure

end LayerLint
