import SourceSnapshot.CommandLine.World

/-!
# The command

Takes its arguments from the command line and a description of the world around it, one line, from
the standard input. The files that it writes are made below the directory where it runs.
-/

open SourceSnapshot SourceSnapshot.CommandLine

/-- Where the described working directory stands. -/
def describedLocation : List String := ["work"]

/-- Makes a file and the directories above it. -/
def makeFile (path : String) (bytes : ByteArray) : IO Unit := do
  IO.FS.createDirAll (FileSystem.Path.ofText path).parent.text
  IO.FS.writeBinFile path bytes

/-- Runs the command once. -/
def main (arguments : List String) : IO UInt32 := do
  match Json.parse? (← (← IO.getStdin).getLine) with
  | some (.object members) =>
    let moment := momentOf members
    let world := worldOf describedLocation moment.instant.text members
    let outcome := run arguments world
    IO.print outcome.stdout
    IO.eprint outcome.stderr
    match outcome.ending with
    | .crash cause => IO.eprintln cause.message
    | _ => pure ()
    for (path, data) in outcome.fileSystem.filesAddedTo world.fileSystem do
      makeFile path data.bytes
    return UInt32.ofNat outcome.ending.exitCode
  | _ =>
    IO.eprintln "a description of the world is expected on the standard input"
    return 2
