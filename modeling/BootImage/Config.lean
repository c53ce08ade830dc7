import BootImage.Boot.Header
import BootImage.Layout.Rules
import BootImage.Layout.Script
import BootImage.Layout.Standard
import BootImage.Text.Quoted

/-! Build configuration.

    Three words of the boot header can be set by environment variables when an image is built. The
    step that reads them writes two files: the header words as constants, and the linker script.
    It asks for the variables in order and stops at the first that is no 32-bit number, and then it
    writes nothing. -/

namespace BootImage.Config

/-- A header word that can be set. -/
structure Setting where
  variableName : String
  constant : String
  default : UInt32
  doc : String

/-- The number that identifies the application. -/
def appId : Setting := ⟨"RT0_APP_ID", "APP_ID", 0x300, "Application id."⟩

/-- The room for the heap. -/
def heapSize : Setting :=
  ⟨"RT0_HEAP_SIZE", "HEAP_SIZE", 0, "Heap size in bytes, 0 to let the runtime decide."⟩

/-- The room for the linear heap. -/
def linearHeapSize : Setting :=
  ⟨"RT0_LINEAR_HEAP_SIZE", "LINEAR_HEAP_SIZE", 0,
    "Linear heap size in bytes, 0 to let the runtime decide."⟩

/-- The settings, in the order in which they are asked for. -/
def settings : List Setting := [appId, heapSize, linearHeapSize]

/-- The header of an image that is built without any variable set. -/
def defaultHeader : Boot.Header :=
  .assembled appId.default heapSize.default linearHeapSize.default

/-- Why the step fails. -/
inductive Fault where
  | noDirectory
  | notNumber (variableName value : String) (fault : Number.Fault)
  | tooLarge (variableName value : String)
  | badLayout (fault : BootImage.Fault)
  deriving DecidableEq

/-- The wording of a failure. -/
def Fault.message : Fault → String
  | .noDirectory => "OUT_DIR is set by cargo: NotPresent"
  | .notNumber variableName value fault =>
    s!"{variableName}={Text.quote value} is not a number: {fault.message}"
  | .tooLarge variableName value =>
    s!"{variableName}={Text.quote value} does not fit in 32 bits"
  | .badLayout fault => s!"invalid layout descriptor: {fault.message}"

/-- The word of a setting: its default where the variable is not set. -/
def Setting.read (s : Setting) : Option String → Except Fault UInt32
  | none => .ok s.default
  | some value =>
    match Number.parse value.toList with
    | .error fault => .error (.notNumber s.variableName value fault)
    | .ok n =>
      if n.toNat < UInt32.size then .ok n.toUInt32 else .error (.tooLarge s.variableName value)

/-- The line that asks to build again when the variable changes. -/
def Setting.watchLine (s : Setting) : String :=
  s!"cargo:rerun-if-env-changed={s.variableName}"

/-- The declaration of the word as a constant. -/
def Setting.declaration (s : Setting) (value : UInt32) : String :=
  s!"/// {s.doc}\npub const {s.constant}: u32 = {Number.hex value.toNat};\n"

/-- Reads settings in order: the lines that ask for them, up to one that fails, and the words. -/
def readSettings (env : String → Option String) :
    List Setting → List String × Except Fault (List UInt32)
  | [] => ([], .ok [])
  | s :: rest =>
    match s.read (env s.variableName) with
    | .error fault => ([s.watchLine], .error fault)
    | .ok value =>
      let (lines, values) := readSettings env rest
      (s.watchLine :: lines, values.map (value :: ·))

/-- The words of the settings as constants. -/
def declarations (values : List UInt32) : String :=
  String.join (List.zipWith (·.declaration ·) settings values)

/-- The lines that tell the build where the script is and when to run the step again. -/
def linkLines (env : String → Option String) (directory : String) : List String :=
  [s!"cargo:rustc-link-search={directory}"] ++
    (if env "CARGO_CFG_TARGET_OS" = some "horizon" then
      ["cargo:rustc-link-arg-tests=-Tlink.x", "cargo:rustc-link-arg-tests=-nostartfiles"]
    else []) ++
    ["cargo:rerun-if-changed=build.rs"]

/-- What the step prints and writes. -/
structure Outcome where
  lines : List String
  fault : Option Fault
  headerConstants : Option String
  linkerScript : Option String

/-- Runs the step with the given variables and the directory for its files. -/
def run (env : String → Option String) : Option String → Outcome
  | none => ⟨[], some .noDirectory, none, none⟩
  | some directory =>
    match readSettings env settings with
    | (lines, .error fault) => ⟨lines, some fault, none, none⟩
    | (lines, .ok values) =>
      match Standard.layout.fault? with
      | some fault => ⟨lines, some (.badLayout fault), some (declarations values), none⟩
      | none =>
        ⟨lines ++ linkLines env directory, none, some (declarations values),
          some Standard.layout.script⟩

end BootImage.Config
