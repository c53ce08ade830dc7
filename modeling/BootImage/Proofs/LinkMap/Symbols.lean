import BootImage.Proofs.LinkMap.Linked
import BootImage.Proofs.LinkMap.Steps
import BootImage.Proofs.SymbolTable

/-! Symbols of a link map.

    A section gives values to exactly the symbols that it defines. No name is defined twice, so the
    table of a link map has for each symbol of a segment the value that its section gives, and the
    entry besides.

        segments ── sections ── symbols      _start
                 name = position             = entry -/

namespace BootImage

namespace MappedSection

theorem map_fst_symbols (m : MappedSection) :
    m.symbols.map (·.1) = (m.extents.map (·.step)).filterMap (·.defines?) := by
  rw [symbols, List.map_filterMap, List.filterMap_map]
  refine List.filterMap_congr fun e _ => ?_
  cases hstep : e.step <;> simp [Extent.symbol?, Step.defines?, hstep]

end MappedSection

/-- A section gives values to its symbols, in order. -/
theorem Section.Mapped.map_fst_symbols {r : Routing} {s : Section} {c : UInt64}
    {m : MappedSection} (h : s.Mapped r c m) : m.symbols.map (·.1) = s.symbols := by
  rw [m.map_fst_symbols, h.map_step, s.defines_steps]

/-- Sections give values to their symbols, in order. -/
theorem map_fst_flatMap_symbols {r : Routing} {ss : List Section} {ts : List MappedSection}
    (h : List.Forall₂ (fun s t => ∃ c, s.Mapped r c t) ss ts) :
    (ts.flatMap (·.symbols)).map (·.1) = ss.flatMap (·.symbols) := by
  have hsame : ss.map (·.symbols) = ts.map fun t => t.symbols.map (·.1) :=
    map_eq_of_forall₂ (h.imp fun _ _ ⟨_, hmapped⟩ => hmapped.map_fst_symbols.symm)
  rw [List.map_flatMap, List.flatMap_def, ← hsame, List.flatMap_def]

namespace Layout.Linked

variable {d : Layout} {inputs : List Input} {collect : Bool} {m : LinkMap}

theorem map_fst_symbols (h : d.Linked inputs collect m) :
    ((m.segments.flatMap (·.sections)).flatMap (·.symbols)).map (·.1) =
      d.loaded.flatMap (·.symbols) :=
  map_fst_flatMap_symbols h.loaded

/-- The table has the symbols of the loaded sections, but that the entry is set last. -/
theorem symbols_eq (h : d.Linked inputs collect m) :
    m.symbols = (SymbolTable.ofList
      ((m.segments.flatMap (·.sections)).flatMap (·.symbols))).insert d.entry m.entry := by
  rw [List.flatMap_assoc]
  exact h.symbols

/-- No loaded symbol is defined twice. -/
theorem nodup_symbols (h : d.Linked inputs collect m) :
    (((m.segments.flatMap (·.sections)).flatMap (·.symbols)).map (·.1)).Nodup := by
  have hloaded : (d.loaded.flatMap (·.symbols)).Sublist d.symbols := by
    rw [Layout.symbols, Layout.sections, List.flatMap_append]
    exact List.sublist_append_left _ _
  rw [h.map_fst_symbols]
  exact h.sound.symbols_nodup.sublist hloaded

/-- A name other than the entry has the value that the loaded sections give it, if any. -/
theorem get?_of_ne (h : d.Linked inputs collect m) {name : String} (hne : name ≠ d.entry) :
    m.symbols.get? name =
      (((m.segments.flatMap (·.sections)).flatMap (·.symbols)).find? (·.1 == name)).map (·.2) := by
  rw [h.symbols_eq, SymbolTable.get?_insert_of_ne _ hne, SymbolTable.get?_ofList h.nodup_symbols]

/-- The entry has the address of the entry section. -/
theorem get?_entry (h : d.Linked inputs collect m) : m.symbols.get? d.entry = some m.entry := by
  rw [h.symbols, SymbolTable.get?_insert_self]

/-- A symbol of a loaded section has the value that the section gives it. -/
theorem get?_of_mem_symbols (h : d.Linked inputs collect m) {t : MappedSection}
    (ht : t ∈ m.segments.flatMap (·.sections)) {name : String} {value : UInt64}
    (hmem : (name, value) ∈ t.symbols) (hne : name ≠ d.entry) :
    m.symbols.get? name = some value := by
  rw [h.symbols_eq, SymbolTable.get?_insert_of_ne _ hne]
  exact SymbolTable.get?_ofList_of_mem h.nodup_symbols (List.mem_flatMap.2 ⟨t, ht, hmem⟩)

/-- The symbols that have a value are those of the loaded sections, and the entry. -/
theorem isSome_get?_iff (h : d.Linked inputs collect m) {name : String} :
    (m.symbols.get? name).isSome = true ↔ name ∈ d.loaded.flatMap (·.symbols) ∨ name = d.entry := by
  rcases eq_or_ne name d.entry with rfl | hne
  · simp [h.get?_entry]
  · rw [h.get?_of_ne hne, Option.isSome_map, List.isSome_find?, ← h.map_fst_symbols]
    generalize (m.segments.flatMap (·.sections)).flatMap (·.symbols) = pairs
    simp [hne]

/-- Every symbol that a segment of the layout defines has a value. -/
theorem isSome_get? (h : d.Linked inputs collect m) {name : String}
    (hname : name ∈ d.loaded.flatMap (·.symbols)) : (m.symbols.get? name).isSome = true :=
  h.isSome_get?_iff.2 (.inl hname)

end Layout.Linked

end BootImage
