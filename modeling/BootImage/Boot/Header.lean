import BootImage.Bytes
import BootImage.Permissions

/-! The boot header.

    Six words follow the entry branch of an image. The loader, or a launcher, writes them before the
    image runs, so their order and width are fixed.

        entry + 0x00   branch to the entry code
              + 0x04   services         address of the service list, zero if the loader started it
              + 0x08   appId
              + 0x0c   heapSize         zero: the runtime decides
              + 0x10   linearHeapSize   zero: the runtime decides
              + 0x14   arguments        address of the argument block, zero if there is none
              + 0x18   runFlags         restrictions for the runtime
              + 0x1c   entry code -/

namespace BootImage.Boot

/-- The branch in front of the header takes so many bytes. -/
def entryBranchSize : Nat := 4

/-- The header takes so many bytes. -/
def headerSize : Nat := 24

/-- The offsets of the header words from the entry, in order. -/
def headerOffsets : List Nat := [0x04, 0x08, 0x0c, 0x10, 0x14, 0x18]

/-- Restrictions that the runtime should observe; bits without a name are kept. -/
structure RunFlags where
  bits : UInt32
  deriving DecidableEq

namespace RunFlags

/-- Some launchers need the applet service to be worked around. -/
def aptWorkaround (f : RunFlags) : Bool := hasBits f.bits 1

/-- The applet service has to be set up again. -/
def aptReinit (f : RunFlags) : Bool := hasBits f.bits 2

/-- The launcher can start another application afterwards. -/
def aptChainload (f : RunFlags) : Bool := hasBits f.bits 4

/-- The flags by name. -/
def text (f : RunFlags) : String :=
  flagText "RunFlags" [("APT_WORKAROUND", 1), ("APT_REINIT", 2), ("APT_CHAINLOAD", 4)] f.bits

end RunFlags

/-- How the image was started. -/
inductive LaunchMode where
  /-- By the system loader. -/
  | standalone
  /-- By a launcher that hands over service handles. -/
  | launcher
  deriving DecidableEq

/-- The name of the mode. -/
def LaunchMode.name : LaunchMode → String
  | .standalone => "Standalone"
  | .launcher => "Launcher"

/-- The header, word for word. -/
structure Header where
  services : UInt32
  appId : UInt32
  heapSize : UInt32
  linearHeapSize : UInt32
  arguments : UInt32
  runFlags : UInt32
  deriving DecidableEq

/-- The system call that ends the process of an image the loader started. -/
def exitProcessCall : Nat := 3

/-- A word, unless it is zero. -/
def nonZero? (word : UInt32) : Option UInt32 := if word = 0 then none else some word

namespace Header

/-- The words in order. -/
def words (h : Header) : List UInt32 :=
  [h.services, h.appId, h.heapSize, h.linearHeapSize, h.arguments, h.runFlags]

/-- The header of six words, in order. -/
def ofWords? : List UInt32 → Option Header
  | [services, appId, heapSize, linearHeapSize, arguments, runFlags] =>
    some { services, appId, heapSize, linearHeapSize, arguments, runFlags }
  | _ => none

/-- A header is rebuilt from its words. -/
@[simp] theorem ofWords?_words (h : Header) : ofWords? h.words = some h := rfl

/-- The header as it is built into an image, before a loader or launcher writes to it. -/
def assembled (appId heapSize linearHeapSize : UInt32) : Header :=
  { services := 0, appId, heapSize, linearHeapSize, arguments := 0, runFlags := 0 }

/-- The bytes of the header, each word with its least significant byte first. -/
def bytes (h : Header) : List UInt8 := h.words.flatMap Bytes.ofWord

/-- Reads the header from the bytes of an image, which start at the entry. -/
def read? (image : List UInt8) : Option Header := do
  let words ← headerOffsets.mapM (Bytes.word? image)
  ofWords? words

/-- A launcher hands over a service list, and the loader does not. -/
def launchMode (h : Header) : LaunchMode := if h.services = 0 then .standalone else .launcher

/-- The heap size that is asked for, unless the runtime decides. -/
def heapSize? (h : Header) : Option UInt32 := nonZero? h.heapSize

/-- The linear heap size that is asked for, unless the runtime decides. -/
def linearHeapSize? (h : Header) : Option UInt32 := nonZero? h.linearHeapSize

/-- The restrictions that are asked for, with the bits that have no name. -/
def flags (h : Header) : RunFlags := ⟨h.runFlags⟩

/-- The address of the argument block, if there is one. -/
def arguments? (h : Header) : Option UInt32 := nonZero? h.arguments

/-- The address of the service list, if there is one. -/
def services? (h : Header) : Option UInt32 := nonZero? h.services

/-- The words of the header by the names that other tools know them by. -/
def text (h : Header) : String :=
  let names := ["service_override_ptr", "app_id", "heap_size", "linear_heap_size", "arg_list_ptr",
    "run_flags"]
  let fields := List.zipWith (fun name word => s!"{name}: {word.toNat}") names h.words
  "ImageHeader \x7b " ++ ", ".intercalate fields ++ " \x7d"

end Header

end BootImage.Boot
