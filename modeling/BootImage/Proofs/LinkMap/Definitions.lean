import BootImage.Proofs.LinkMap.Brackets
import BootImage.Proofs.LinkMap.Positions

/-! Where symbols are defined.

    A statement defines a symbol at the location that the cursor has reached. No two statements
    define one name, so while the table of symbols is filled no value is replaced. The entry is set
    last and replaces whatever value it had. So every definition keeps its location exactly if no
    statement defines the entry away from its address. The main statement is
    `Layout.defines_of_link`.

        .text     input .crt0     symbol _start
                  |== .crt0 ==|
                  entry       location of _start, which the entry replaces -/

namespace BootImage

open Cursor

/-! ### What it is to define -/

/-- What the statements of the segments define, in order: each symbol with its location. -/
def LinkMap.definitions (m : LinkMap) : List (String × UInt64) :=
  (m.segments.flatMap (·.sections)).flatMap (·.symbols)

/-- The cursor is at this location when it comes to a statement of a loaded section: the statements
    in front of it take the cursor there from the start of the section. -/
def LinkMap.ReachesAt (m : LinkMap) (d : Layout) (r : Routing) (position : Nat × Nat)
    (location : UInt64) : Prop :=
  ∃ s t es, d.loaded[position.1]? = some s ∧
    (m.segments.flatMap (·.sections))[position.1]? = some t ∧
    sweep? Step.move? (Statement.stepsFrom r s.name 0 (s.statements.take position.2)) t.address =
      some (es, location)

/-- The statement defines the symbol, and the cursor comes to it at this location. -/
def LinkMap.LocatedAt (m : LinkMap) (d : Layout) (r : Routing) (position : Nat × Nat)
    (name : String) (location : UInt64) : Prop :=
  d.DefinesAt position name ∧ m.ReachesAt d r position location

/-- The table of a link map has what the statements define, but that the entry is set last: no
    definition replaces another, each symbol has its location unless it is the entry, and all have
    it exactly if no statement defines the entry elsewhere. -/
structure LinkMap.Defines (m : LinkMap) (d : Layout) (r : Routing) : Prop where
  table : m.symbols = (SymbolTable.ofList m.definitions).insert d.entry m.entry
  fresh : ∀ before name location after, m.definitions = before ++ (name, location) :: after →
    (SymbolTable.ofList before).get? name = none
  replaced : ∀ old, (SymbolTable.ofList m.definitions).get? d.entry = some old ↔
    ∃ position, m.LocatedAt d r position d.entry old
  located : ∀ position name, d.DefinesAt position name → ∃ location,
    m.ReachesAt d r position location ∧
      m.symbols.get? name = some (if name = d.entry then m.entry else location)
  kept_iff : (∀ position name location, m.LocatedAt d r position name location →
      m.symbols.get? name = some location) ↔
    ∀ position location, m.LocatedAt d r position d.entry location → location = m.entry

namespace Layout.Linked

variable {d : Layout} {inputs : List Input} {collect : Bool} {m : LinkMap} {position : Nat × Nat}
  {name : String} {location : UInt64}

/-- A statement that defines a symbol is reached at one location, the one that its section gives the
    symbol. -/
theorem exists_reachesAt (h : d.Linked inputs collect m) (hdefines : d.DefinesAt position name) :
    ∃ location, m.ReachesAt d (d.routing collect inputs) position location ∧
      (name, location) ∈ m.definitions := by
  obtain ⟨s, hs, hstatement⟩ := hdefines
  obtain ⟨t, ht, c, hmapped⟩ := exists_getElem?_of_forall₂ h.loaded.flip hs
  obtain ⟨location, es, -, hmem, hbefore, -⟩ := hmapped.cut_symbol hstatement
  exact ⟨location, ⟨s, t, es, hs, ht, hbefore.sweep?_eq⟩,
    List.mem_flatMap.2 ⟨t, List.mem_of_getElem? ht, hmem⟩⟩

end Layout.Linked

theorem LinkMap.ReachesAt.eq {d : Layout} {r : Routing} {m : LinkMap} {position : Nat × Nat}
    {location other : UInt64} (h : m.ReachesAt d r position location)
    (h' : m.ReachesAt d r position other) : location = other := by
  obtain ⟨s, t, es, hs, ht, hsweep⟩ := h
  obtain ⟨s', t', es', hs', ht', hsweep'⟩ := h'
  obtain rfl : s = s' := Option.some.inj (hs.symm.trans hs')
  obtain rfl : t = t' := Option.some.inj (ht.symm.trans ht')
  exact (Prod.mk.inj (Option.some.inj (hsweep.symm.trans hsweep'))).2

namespace Layout.Linked

variable {d : Layout} {inputs : List Input} {collect : Bool} {m : LinkMap} {position : Nat × Nat}
  {name : String} {location : UInt64}

/-- What is defined is what statements define, at their locations. -/
theorem mem_definitions_iff (h : d.Linked inputs collect m) :
    (name, location) ∈ m.definitions ↔
      ∃ position, m.LocatedAt d (d.routing collect inputs) position name location := by
  constructor
  · intro hmem
    obtain ⟨t, ht, hsymbol⟩ := List.mem_flatMap.1 hmem
    obtain ⟨k, hk⟩ := List.mem_iff_getElem?.1 ht
    obtain ⟨s, hs, c, hmapped⟩ := exists_getElem?_of_forall₂ h.loaded hk
    have hname : name ∈ s.symbols := hmapped.map_fst_symbols ▸ List.mem_map_of_mem hsymbol
    obtain ⟨statement, hstatement, hsymbol⟩ := List.mem_filterMap.1 hname
    obtain ⟨i, hi⟩ := List.mem_iff_getElem?.1 hstatement
    have hdefines : d.DefinesAt (k, i) name := by
      cases statement with
      | symbol other => cases hsymbol; exact ⟨s, hs, hi⟩
      | _ => cases hsymbol
    obtain ⟨other, hreaches, hother⟩ := h.exists_reachesAt hdefines
    -- the name is defined once, so this is the location that was asked for
    have hsame := List.inj_on_of_nodup_map h.nodup_symbols hother hmem rfl
    obtain rfl : other = location := congrArg Prod.snd hsame
    exact ⟨(k, i), hdefines, hreaches⟩
  · rintro ⟨position, hdefines, hreaches⟩
    obtain ⟨other, hreaches', hmem⟩ := h.exists_reachesAt hdefines
    rwa [hreaches.eq hreaches']

/-- Among what statements define, no name is set twice. -/
theorem fresh (h : d.Linked inputs collect m) {before after : List (String × UInt64)}
    (hsplit : m.definitions = before ++ (name, location) :: after) :
    (SymbolTable.ofList before).get? name = none := by
  have hnodup : (m.definitions.map (·.1)).Nodup := h.nodup_symbols
  rw [hsplit, List.map_append, List.map_cons, List.nodup_append] at hnodup
  refine SymbolTable.get?_insertAll_of_not_mem fun hmem => ?_
  exact hnodup.2.2 name hmem name List.mem_cons_self rfl

/-- Before the entry is set, a symbol has a value exactly if a statement defines it, and then this
    is its location. -/
theorem get?_ofList_definitions (h : d.Linked inputs collect m) :
    (SymbolTable.ofList m.definitions).get? name = some location ↔
      ∃ position, m.LocatedAt d (d.routing collect inputs) position name location := by
  have hnodup : (m.definitions.map (·.1)).Nodup := h.nodup_symbols
  rw [← h.mem_definitions_iff]
  constructor
  · intro hget
    rw [SymbolTable.get?_ofList hnodup, Option.map_eq_some_iff] at hget
    obtain ⟨p, hfind, rfl⟩ := hget
    obtain rfl : p.1 = name := by simpa using List.find?_some hfind
    exact List.mem_of_find?_eq_some hfind
  · exact SymbolTable.get?_ofList_of_mem hnodup

/-- A symbol that is not the entry keeps its location, and the entry has its address. -/
theorem get?_of_locatedAt (h : d.Linked inputs collect m)
    (hlocated : m.LocatedAt d (d.routing collect inputs) position name location) :
    m.symbols.get? name = some (if name = d.entry then m.entry else location) := by
  split
  · next heq => exact heq ▸ h.get?_entry
  · next hne =>
    rw [h.symbols_eq, SymbolTable.get?_insert_of_ne _ hne]
    exact h.get?_ofList_definitions.2 ⟨position, hlocated⟩

end Layout.Linked

namespace Layout

variable {d : Layout} {inputs : List Input} {collect : Bool} {m : LinkMap}

/-- Every successful link defines its symbols at their locations, but for the entry. -/
theorem defines_of_link (h : d.link inputs collect = .ok m) :
    m.Defines d (d.routing collect inputs) where
  table := (linked_of_link h).symbols_eq
  fresh _ _ _ _ hsplit := (linked_of_link h).fresh hsplit
  replaced _ := (linked_of_link h).get?_ofList_definitions
  located position name hdefines := by
    obtain ⟨location, hreaches, -⟩ := (linked_of_link h).exists_reachesAt hdefines
    exact ⟨location, hreaches, (linked_of_link h).get?_of_locatedAt ⟨hdefines, hreaches⟩⟩
  kept_iff := by
    have hlinked := linked_of_link h
    constructor
    · intro hkept position location hlocated
      exact Option.some.inj ((hkept _ _ _ hlocated).symm.trans hlinked.get?_entry)
    · intro hentry position name location hlocated
      rw [hlinked.get?_of_locatedAt hlocated]
      split
      · next heq =>
        subst heq
        rw [hentry position location hlocated]
      · rfl

/-- A layout that defines its entry behind the entry section. -/
def lateEntry : Layout where
  outputFormat := "elf32-littlearm"
  outputArch := "arm"
  entry := "_start"
  entrySection := ".crt0"
  loadAddress := 0x100000
  pageSize := 0x1000
  segments := [⟨"text", .code,
    [{ name := ".text", align := 4, statements := [Standard.keep [".crt0"], .symbol "_start"] }]⟩]
  unloaded := []
  required := ["_start"]

/-- It is linked; its statements define the entry behind the code, and the entry is its start. -/
theorem exists_link_lateEntry : ∃ m, lateEntry.link [⟨".crt0", 0x40, 4, true⟩] false = .ok m ∧
    m.definitions = [("_start", 0x100040)] ∧ m.entry = 0x100000 := by
  have hvalues : (lateEntry.link [⟨".crt0", 0x40, 4, true⟩] false).toOption.map
      (fun m => (m.definitions, m.entry)) = some ([("_start", 0x100040)], 0x100000) := by
    decide +kernel
  obtain ⟨m, hm, hvalues⟩ := Option.map_eq_some_iff.1 hvalues
  obtain ⟨hdefinitions, hentry⟩ := Prod.mk.inj hvalues
  exact ⟨m, eq_ok_of_toOption hm, hdefinitions, hentry⟩

/-- The entry replaces the value of its definition. -/
theorem defines_of_link_lateEntry :
    ∃ m, lateEntry.link [⟨".crt0", 0x40, 4, true⟩] false = .ok m ∧
      (SymbolTable.ofList m.definitions).get? "_start" = some 0x100040 ∧
      m.symbols.get? "_start" = some 0x100000 ∧
      m.Defines lateEntry (lateEntry.routing false [⟨".crt0", 0x40, 4, true⟩]) := by
  obtain ⟨m, hm, hdefinitions, hentry⟩ := exists_link_lateEntry
  refine ⟨m, hm, ?_, ?_, defines_of_link hm⟩
  · rw [hdefinitions]
    decide +kernel
  · rw [← hentry]
    exact (linked_of_link hm).get?_entry

/-- A symbol need not have the location at which its statement defines it. -/
theorem not_forall_get?_location : ¬ ∀ (d : Layout) (inputs : List Input) (collect : Bool)
    (m : LinkMap), d.link inputs collect = .ok m → ∀ position name location,
      m.LocatedAt d (d.routing collect inputs) position name location →
        m.symbols.get? name = some location := by
  intro h
  obtain ⟨m, hm, hdefinitions, hentry⟩ := exists_link_lateEntry
  have hlinked := linked_of_link hm
  have hmem : ("_start", 0x100040) ∈ m.definitions := hdefinitions ▸ List.mem_singleton_self _
  obtain ⟨position, hlocated⟩ := hlinked.mem_definitions_iff.1 hmem
  have hvalue := h _ _ _ m hm position _ _ hlocated
  have hstart : m.symbols.get? "_start" = some m.entry := hlinked.get?_entry
  rw [hstart, hentry] at hvalue
  exact absurd (Option.some.inj hvalue) (by decide)

end Layout

end BootImage
