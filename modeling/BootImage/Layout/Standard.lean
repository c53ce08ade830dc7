import BootImage.Layout.Basic

/-! The standard layout.

    Code starts at the load address with the entry section, read-only data and writable data follow
    on pages of their own, and the zeroed data ends the image. Debug data is collected unloaded.

        0x00100000  +----------------------------+  text (R+X)
                    | .text                      |    .crt0 first
                    +----------------------------+  rodata (R)
                    | .rodata .ARM.extab         |
                    | .ARM.exidx                 |
                    +----------------------------+  data (R+W)
                    | .data                      |
                    | .preinit_array .init_array |
                    | .bss                       |
                    +----------------------------+  __end__ -/

namespace BootImage

namespace Standard

/-- Where the loader maps the first segment. -/
def loadAddress : UInt64 := 0x100000

/-- Segments start on pages of this size. -/
def pageSize : UInt64 := 0x1000

/-- The symbol at which an image starts. -/
def entrySymbol : String := "_start"

/-- The input that the entry code stands in. -/
def entrySection : String := ".crt0"

/-- The function that the entry code calls. -/
def runtimeInitSymbol : String := "__rt0_runtime_init"

/-- The room for thread-local data inside the zeroed data. -/
def tlsReservedSize : UInt64 := 0

/-- The width of an entry of a hook list. -/
def pointerSize : UInt64 := 4

/-- The symbols that the entry code and the runtime depend on. -/
def contractSymbols : List String :=
  ["__bss_start__", "__bss_end__", "__data_start__", "__data_end__", "__tls_start", "__tls_end",
    "__preinit_array_start", "__preinit_array_end", "__init_array_start", "__init_array_end",
    "__end__"]

/-- Places what matches, in listed order. -/
def place (patterns : List String) : Statement := .input { patterns }

/-- Places what matches, in listed order, and keeps it. -/
def keep (patterns : List String) : Statement := .input { patterns, keep := true }

/-- The code, which starts with the entry. -/
def text : Segment where
  name := "text"
  permissions := .code
  sections := [{
    name := ".text"
    align := 4
    statements := [
      keep [entrySection], keep [".text.start"], keep [".init"], keep [".fini"], .align 4,
      place [".text", ".text.*", ".gnu.linkonce.t.*", ".stub", ".glue_7", ".glue_7t",
        ".vfp11_veneer", ".v4_bx"],
      .align 4] }]

/-- The data that is only read. -/
def rodata : Segment where
  name := "rodata"
  permissions := .readOnly
  sections := [
    { name := ".rodata"
      align := 4
      statements := [place [".rodata", ".rodata.*", ".gnu.linkonce.r.*"], .align 4] },
    { name := ".ARM.extab"
      align := 4
      statements := [place [".ARM.extab*", ".gnu.linkonce.armextab.*"]] },
    { name := ".ARM.exidx"
      align := 4
      statements := [
        .symbol "__exidx_start", place [".ARM.exidx*", ".gnu.linkonce.armexidx.*"],
        .symbol "__exidx_end"] }]

/-- A kept list of function pointers between two symbols, those with a priority first. -/
def hookList (name prioritized first last : String) : Section where
  name := name
  align := pointerSize
  statements := [
    .symbol first, .input { patterns := [prioritized], keep := true, order := .byPriority },
    keep [name], .symbol last]

/-- The data that is written, the zeroed data last. -/
def data : Segment where
  name := "data"
  permissions := .readWrite
  sections := [
    { name := ".data"
      align := 4
      statements := [
        .symbol "__data_start__", place [".data", ".data.*", ".gnu.linkonce.d.*"], .align 4,
        .symbol "__data_end__"] },
    hookList ".preinit_array" ".preinit_array.*" "__preinit_array_start" "__preinit_array_end",
    hookList ".init_array" ".init_array.*" "__init_array_start" "__init_array_end",
    { name := ".bss"
      align := 4
      contents := .zeroed
      statements := [
        .symbol "__bss_start__", .symbol "__tls_start", .reserve tlsReservedSize,
        .symbol "__tls_end", place [".dynbss", ".bss", ".bss.*", ".gnu.linkonce.b*", "COMMON"],
        .align 4, .symbol "__bss_end__", .symbol "__end__"] }]

/-- The debug sections; each places the inputs of its own name, and some others with them. -/
def debugSections : List (String × List String) :=
  [(".comment", []), (".ARM.attributes", []), (".debug", []), (".line", []),
    (".debug_srcinfo", []), (".debug_sfnames", []), (".debug_aranges", []),
    (".debug_pubnames", []), (".debug_pubtypes", []), (".debug_info", [".gnu.linkonce.wi.*"]),
    (".debug_abbrev", []), (".debug_line", []), (".debug_line_str", []), (".debug_frame", []),
    (".debug_str", []), (".debug_loc", []), (".debug_loclists", []), (".debug_ranges", []),
    (".debug_rnglists", []), (".debug_macinfo", []), (".debug_macro", [])]

/-- The layout of every image of the system. -/
def layout : Layout where
  outputFormat := "elf32-littlearm"
  outputArch := "arm"
  entry := entrySymbol
  entrySection := entrySection
  loadAddress := loadAddress
  pageSize := pageSize
  segments := [text, rodata, data]
  unloaded := debugSections.map fun (name, others) =>
    { name := name, statements := [place (name :: others)] }
  required := contractSymbols

end Standard

end BootImage
