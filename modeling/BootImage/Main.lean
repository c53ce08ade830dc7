import BootImage.CommandLine.Run

/-! The program, on the files and streams of the system. -/

namespace BootImage

open CommandLine

/-- A fault of the system. -/
def systemFault : IO.Error → FileFault
  | .noFileOrDirectory .. => .missing
  | .permissionDenied .. => .denied
  | .inappropriateType _ code _ => if code = 20 then .notDirectory else .isDirectory
  | other => .other (toString other)

/-- Runs an action on files, with the fault if it fails. -/
def attempt {α : Type} (action : IO α) : IO (Except FileFault α) := do
  try
    let a ← action
    pure (.ok a)
  catch e => pure (.error (systemFault e))

/-- The files of the system. -/
def systemHost : Host IO where
  read path := attempt do
    let bytes ← IO.FS.readBinFile path
    pure bytes.data.toList
  write path text := attempt (IO.FS.writeFile path text)

end BootImage

/-- Runs the program on its arguments. -/
def main (arguments : List String) : IO UInt32 := do
  let exit ← BootImage.CommandLine.run BootImage.systemHost arguments
  IO.print exit.stdout
  IO.eprint exit.stderr
  pure exit.status.toUInt32
