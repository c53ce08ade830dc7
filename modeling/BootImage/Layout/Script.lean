import BootImage.Layout.Basic
import BootImage.Text.Blank

/-! The linker script of a layout.

    The script is a list of lines: the target, the program headers, and the sections with their
    statements. It is a function of the layout alone, so one layout always has one script. -/

namespace BootImage

open Number

/-- A pattern with the ordering that is asked for it. -/
def Order.wrap : Order → String → String
  | .listed, pattern => pattern
  | .byName, pattern => s!"SORT_BY_NAME({pattern})"
  | .byPriority, pattern => s!"SORT_BY_INIT_PRIORITY({pattern})"

/-- The statement that places the inputs of a rule. -/
def InputRule.text (rule : InputRule) : String :=
  let patterns := " ".intercalate (rule.patterns.map rule.order.wrap)
  if rule.keep then s!"KEEP(*({patterns}))" else s!"*({patterns})"

/-- The statement in the language of the script. -/
def Statement.text : Statement → String
  | .symbol name => s!"{name} = .;"
  | .align alignment => s!". = ALIGN({alignment.toNat});"
  | .reserve size => s!". += {hex size.toNat};"
  | .input rule => rule.text

/-- How a section that is not stored in the file is marked. -/
def Contents.mark : Contents → String
  | .stored => ""
  | .zeroed => " (NOLOAD)"

/-- The lines of a loaded section, which names the segment that carries it. -/
def Section.loadedLines (segment : String) (s : Section) : List String :=
  ["", s!"    {s.name}{s.contents.mark} : ALIGN({s.align.toNat})", "    \x7b"] ++
    s.statements.map (fun statement => s!"        {statement.text}") ++
    [s!"    \x7d :{segment}"]

/-- The line of a section that is collected at address zero. -/
def Section.unloadedLine (s : Section) : String :=
  s!"    {s.name} 0 : \x7b " ++ String.join (s.statements.map fun st => s!"{st.text} ") ++ "\x7d"

/-- The lines of a segment; each but the first starts on a page of its own. -/
def Segment.scriptLines (pageSize : UInt64) (segment : Segment) (first : Bool) : List String :=
  (if first then [] else ["", s!"    . = ALIGN({hex pageSize.toNat});"]) ++
    segment.sections.flatMap (·.loadedLines segment.name)

namespace Layout

/-- The lines of the script. -/
def scriptLines (d : Layout) : List String :=
  ["/* Generated by image-layout. Do not edit. */",
    "",
    s!"OUTPUT_FORMAT(\"{d.outputFormat}\")",
    s!"OUTPUT_ARCH({d.outputArch})",
    s!"ENTRY({d.entry})",
    s!"EXTERN({d.entry})",
    "",
    "PHDRS",
    "\x7b"] ++
  d.segments.map (fun s => s!"    {s.name} PT_LOAD FLAGS({s.permissions.bits.toNat});") ++
  ["\x7d",
    "",
    "SECTIONS",
    "\x7b",
    s!"    . = {hex d.loadAddress.toNat};"] ++
  (d.segments.take 1).flatMap (·.scriptLines d.pageSize true) ++
  (d.segments.drop 1).flatMap (·.scriptLines d.pageSize false) ++
  (if d.unloaded.isEmpty then []
    else ["", "    /* Not loaded. */"] ++ d.unloaded.map (·.unloadedLine)) ++
  ["\x7d"]

/-- The script, each of its lines ended by a line feed. -/
def script (d : Layout) : String := Text.ofLines d.scriptLines

end Layout

end BootImage
