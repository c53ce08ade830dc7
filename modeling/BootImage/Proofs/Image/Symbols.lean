import BootImage.Proofs.Image.Linked
import BootImage.Proofs.LinkMap.Symbols

/-! Required symbols of linked images.

    The rules of a layout take every symbol for defined that some section defines, loaded or not. A
    link map has the symbols of the loaded sections only. So of the required symbols exactly those
    of unloaded sections are missing from a linked image. The main statement is
    `Layout.missingSymbol_mem_violations_iff`.

        loaded     .text         symbol _start           _start     in the link map
        unloaded   .debug_info   symbol __debug_start    -          missing, where it is required -/

namespace BootImage

open Word

namespace Layout

variable {d : Layout} {inputs : List Input} {collect : Bool} {m : LinkMap}

/-- Verification misses the required symbols that have no value, and no others. -/
theorem Linked.missingSymbol_mem_violations (h : d.Linked inputs collect m) {name : String} :
    .missingSymbol name ∈ d.violations m.image ↔
      name ∈ d.required ∧ m.symbols.get? name = none := by
  have hrule : .missingSymbol name ∈ m.image.symbolRule d ↔
      name ∈ d.required ∧ m.symbols.get? name = none := by
    simp [Image.symbolRule, LinkMap.image]
  rw [← hrule]
  constructor
  · intro hv
    rcases m.image.mem_violations hv with hv | hv | hv | hv
    · simp [h.entryRule_eq] at hv
    · rw [h.segmentRule_eq] at hv
      split at hv <;> simp at hv
    · exact hv
    · cases hv
  · intro hv
    simp [violations, hv]

/-- A required symbol that no loaded section defines is one of an unloaded section. -/
theorem Sound.not_mem_loaded_iff (h : d.Sound) {name : String} (hname : name ∈ d.required) :
    name ∉ d.loaded.flatMap (·.symbols) ↔ name ∈ d.unloaded.flatMap (·.symbols) := by
  have hdefined := h.required name hname
  have hnodup := h.symbols_nodup
  rw [symbols, sections, List.flatMap_append] at hdefined hnodup
  have hdisjoint := List.disjoint_of_nodup_append hnodup
  rcases List.mem_append.1 hdefined with hloaded | hunloaded
  · exact ⟨fun hnot => absurd hloaded hnot, fun hunloaded => absurd hunloaded (hdisjoint hloaded)⟩
  · exact ⟨fun _ => hunloaded, fun _ hloaded => hdisjoint hloaded hunloaded⟩

/-- In an image that was linked, a required symbol is missing exactly if an unloaded section defines
    it and it is not the entry; then it has no value, and all other required symbols have one. -/
theorem missingSymbol_mem_violations_iff (h : d.link inputs collect = .ok m) (name : String) :
    (.missingSymbol name ∈ d.violations m.image ↔
      name ∈ d.required ∧ name ∈ d.unloaded.flatMap (·.symbols) ∧ name ≠ d.entry) ∧
    (name ∈ d.required → (m.symbols.get? name = none ↔
      name ∈ d.unloaded.flatMap (·.symbols) ∧ name ≠ d.entry)) := by
  have hlinked := linked_of_link h
  have hnone : name ∈ d.required → (m.symbols.get? name = none ↔
      name ∈ d.unloaded.flatMap (·.symbols) ∧ name ≠ d.entry) := by
    intro hname
    rw [← hlinked.sound.not_mem_loaded_iff hname, ← Option.not_isSome_iff_eq_none,
      hlinked.isSome_get?_iff, not_or]
  refine ⟨?_, hnone⟩
  rw [hlinked.missingSymbol_mem_violations]
  exact and_congr_right hnone

/-- A layout that requires a symbol of its debug section. -/
def debugSymbol : Layout where
  outputFormat := "elf32-littlearm"
  outputArch := "arm"
  entry := "_start"
  entrySection := ".crt0"
  loadAddress := 0x100000
  pageSize := 0x1000
  segments := [⟨"text", .code,
    [{ name := ".text", align := 4, statements := [Standard.keep [".crt0"]] }]⟩]
  unloaded := [{ name := ".debug_info",
                 statements := [.symbol "__debug_start", Standard.place [".debug_info"]] }]
  required := ["__debug_start"]

/-- The code and the debug data that this layout links. -/
def debugInputs : List Input := [⟨".crt0", 0x40, 4, true⟩, ⟨".debug_info", 0x10, 1, true⟩]

/-- It is linked, and the symbol has no value. -/
theorem exists_link_debugSymbol : ∃ m, debugSymbol.link debugInputs false = .ok m ∧
    m.symbols.get? "__debug_start" = none := by
  obtain ⟨m, hm⟩ := exists_of_isOk (e := debugSymbol.link debugInputs false) (by decide +kernel)
  have hvalue : (debugSymbol.link debugInputs false).toOption.map
      (·.symbols.get? "__debug_start") = some none := by
    decide +kernel
  rw [hm] at hvalue
  exact ⟨m, hm, by simpa [Except.toOption] using hvalue⟩

/-- Verification misses the symbol, since an unloaded section defines it. -/
theorem missingSymbol_mem_violations_iff_debugSymbol :
    ∃ m, debugSymbol.link debugInputs false = .ok m ∧
      .missingSymbol "__debug_start" ∈ debugSymbol.violations m.image ∧
      (.missingSymbol "__debug_start" ∈ debugSymbol.violations m.image ↔
        "__debug_start" ∈ debugSymbol.required ∧
          "__debug_start" ∈ debugSymbol.unloaded.flatMap (·.symbols) ∧
            "__debug_start" ≠ debugSymbol.entry) ∧
      ("__debug_start" ∈ debugSymbol.required → (m.symbols.get? "__debug_start" = none ↔
        "__debug_start" ∈ debugSymbol.unloaded.flatMap (·.symbols) ∧
          "__debug_start" ≠ debugSymbol.entry)) := by
  obtain ⟨m, hm, -⟩ := exists_link_debugSymbol
  have hiff := missingSymbol_mem_violations_iff hm "__debug_start"
  exact ⟨m, hm, hiff.1.2 (by decide), hiff⟩

/-- A required symbol need not have a value in an image that was linked. -/
theorem not_forall_isSome_get?_required : ¬ ∀ (d : Layout) (inputs : List Input) (collect : Bool)
    (m : LinkMap), d.link inputs collect = .ok m →
      ∀ name ∈ d.required, (m.symbols.get? name).isSome = true := by
  intro h
  obtain ⟨m, hm, hnone⟩ := exists_link_debugSymbol
  have hsome := h _ _ _ m hm "__debug_start" (by decide)
  rw [hnone] at hsome
  cases hsome

end Layout

end BootImage
