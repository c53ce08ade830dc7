import BootImage.CommandLine.Host
import BootImage.CommandLine.Options
import BootImage.CommandLine.Report
import BootImage.Layout.Script
import BootImage.SectionList

/-! Running a command.

    A command ends with an exit status: zero where all is well, one where an image breaks its layout
    or two images differ, and two where the command could not be carried out. -/

namespace BootImage.CommandLine

/-- Why a command could not be carried out. -/
inductive Fault where
  | reading (path : String) (fault : FileFault)
  | writing (path : String) (fault : FileFault)
  | sectionList (path : String) (fault : SectionList.Fault)
  | layout (fault : BootImage.Fault)
  | elf (path : String) (fault : Elf.Fault)
  deriving DecidableEq

/-- The wording of a fault. -/
def Fault.message : Fault → String
  | .reading path fault => s!"reading {path}: {fault.message}"
  | .writing path fault => s!"writing {path}: {fault.message}"
  | .sectionList path fault => s!"in {path}: {fault.message}"
  | .layout fault => fault.message
  | .elf path fault => s!"parsing {path}: {fault.message}"

/-- What a command leaves. -/
structure Outcome where
  status : UInt8
  output : String := ""
  events : List Log.Event := []
  fault : Option Fault := none

/-- The outcome of a command that printed these lines. -/
def printed (status : UInt8) (lines : List String) (events : List Log.Event) : Outcome :=
  { status := status, output := Text.ofLines lines, events := events }

/-- The outcome of a command that could not be carried out. -/
def failed (fault : Fault) (events : List Log.Event) : Outcome :=
  { status := 2, events := events, fault := some fault }

/-- The command that prints a link map, on the bytes of the section list. -/
def planOutcome (path : String) (bytes : List UInt8) (collect : Bool) : Outcome :=
  match Text.decode? bytes with
  | none => failed (.reading path .notText) []
  | some text =>
    match SectionList.parse text.toList with
    | .error fault => failed (.sectionList path fault) []
    | .ok inputs =>
      let events := (Standard.layout.linkNotes inputs collect).map (·.event)
      match Standard.layout.link inputs collect with
      | .error fault => failed (.layout fault) events
      | .ok m => printed 0 (linkMapLines m) events

/-- The command that verifies an image, on the bytes of the file. -/
def verifyOutcome (path : String) (bytes : List UInt8) : Outcome :=
  match Elf.File.read bytes with
  | .error fault => failed (.elf path fault) []
  | .ok f =>
    match (Standard.layout.violations f.image).length with
    | 0 => printed 0 (verifyLines f) []
    | count => printed 1 (verifyLines f) [⟨.warn, "image_check", s!"{path}: {count} violations"⟩]

/-- The command that compares two images, on the bytes of the files. -/
def compareOutcome (first second : String) (firstBytes secondBytes : List UInt8) : Outcome :=
  match Elf.File.read firstBytes, Elf.File.read secondBytes with
  | .error fault, _ => failed (.elf first fault) []
  | .ok _, .error fault => failed (.elf second fault) []
  | .ok a, .ok b =>
    printed (if (a.differences b).isEmpty then 0 else 1) (compareLines first second a b) []

variable {m : Type → Type} [Monad m]

/-- Continues with the bytes of a file, if it can be read. -/
def Host.withFile (host : Host m) (path : String) (next : List UInt8 → m Outcome) : m Outcome := do
  match ← host.read path with
  | .error fault => pure (failed (.reading path fault) [])
  | .ok bytes => next bytes

/-- Carries out a command. -/
def Command.run (host : Host m) : Command → m Outcome
  | .script output =>
    match Standard.layout.fault?, output with
    | some fault, _ => pure (failed (.layout fault) [])
    | none, none => pure { status := 0, output := Standard.layout.script }
    | none, some path => do
      match ← host.write path Standard.layout.script with
      | .error fault => pure (failed (.writing path fault) [])
      | .ok _ => pure { status := 0, events := [⟨.info, "image_check", s!"wrote {path}"⟩] }
  | .plan list collect =>
    host.withFile list fun bytes => pure (planOutcome list bytes collect)
  | .verify image => host.withFile image fun bytes => pure (verifyOutcome image bytes)
  | .compare first second =>
    host.withFile first fun a =>
      host.withFile second fun b => pure (compareOutcome first second a b)

/-- What the program leaves: its exit status, and what it writes to its two streams. -/
structure Exit where
  status : UInt8
  stdout : String
  stderr : String
  deriving DecidableEq

/-- Shows the events that are asked for, and then the fault. -/
def Outcome.exit (o : Outcome) (verbosity : Nat) : Exit where
  status := o.status
  stdout := o.output
  stderr := Text.ofLines ((o.events.filter (·.isShown verbosity)).map (·.coloured) ++
    o.fault.toList.map fun f => s!"Error: {f.message}")

/-- The exit after arguments that are not understood. -/
def usageExit : Exit := ⟨2, "", Text.ofLines ["usage"]⟩

/-- The exit that tells the version. -/
def versionExit : Exit := ⟨0, Text.ofLines ["image-check 0.1.0"], ""⟩

/-- Runs the program on its arguments. -/
def run (host : Host m) (arguments : List String) : m Exit :=
  match parse? arguments with
  | none => pure usageExit
  | some .version => pure versionExit
  | some (.command verbosity command) => do
    let outcome ← command.run host
    pure (outcome.exit verbosity)

end BootImage.CommandLine
