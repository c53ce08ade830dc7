/-! Symbol tables.

    A table maps names to addresses. It is kept as a list in strictly ascending order of the names,
    so two tables with the same values are the same list, and a table is listed by name. The main
    statements say what looking a name up gives after a value is set. -/

namespace BootImage

/-- Names with their values, in strictly ascending order of the names. -/
structure SymbolTable where
  entries : List (String × UInt64)
  sorted : entries.Pairwise fun a b => a.1 < b.1
  deriving DecidableEq

namespace SymbolTable

/-- Sets a name in a sorted list of entries, replacing the value that it had. -/
def setEntry (name : String) (value : UInt64) : List (String × UInt64) → List (String × UInt64)
  | [] => [(name, value)]
  | e :: rest =>
    if name < e.1 then (name, value) :: e :: rest
    else if name = e.1 then (name, value) :: rest
    else e :: setEntry name value rest

/-- Setting a name brings no other entry in. -/
theorem mem_setEntry {name : String} {value : UInt64} {e : String × UInt64} :
    ∀ {entries : List (String × UInt64)}, e ∈ setEntry name value entries →
      e = (name, value) ∨ e ∈ entries
  | [], h => by simpa [setEntry] using h
  | x :: rest, h => by
    rw [setEntry] at h
    split at h
    · simpa using h
    · split at h
      · rcases List.mem_cons.1 h with h | h
        · exact .inl h
        · exact .inr (List.mem_cons_of_mem _ h)
      · rcases List.mem_cons.1 h with rfl | h
        · exact .inr List.mem_cons_self
        · exact (mem_setEntry h).imp_right (List.mem_cons_of_mem _)

/-- Setting a name keeps the order. -/
theorem pairwise_setEntry (name : String) (value : UInt64) :
    ∀ {entries : List (String × UInt64)}, (entries.Pairwise fun a b => a.1 < b.1) →
      (setEntry name value entries).Pairwise fun a b => a.1 < b.1
  | [], _ => by simp [setEntry]
  | x :: rest, h => by
    obtain ⟨hx, hrest⟩ := List.pairwise_cons.1 h
    rw [setEntry]
    split
    · next hlt =>
      refine List.pairwise_cons.2 ⟨fun e he => ?_, h⟩
      rcases List.mem_cons.1 he with rfl | he
      · exact hlt
      · exact String.lt_trans hlt (hx e he)
    · next hnot =>
      split
      · next heq => exact List.pairwise_cons.2 ⟨fun e he => heq ▸ hx e he, hrest⟩
      · next hne =>
        refine List.pairwise_cons.2 ⟨fun e he => ?_, pairwise_setEntry name value hrest⟩
        rcases mem_setEntry he with rfl | he
        · exact Decidable.byContradiction fun hge =>
            hne (String.le_antisymm (String.not_lt.1 hge) (String.not_lt.1 hnot))
        · exact hx e he

/-- The table without names. -/
def empty : SymbolTable := ⟨[], .nil⟩

/-- A table that is not given has no names. -/
instance : Inhabited SymbolTable := ⟨empty⟩

/-- The value of a name. -/
def get? (table : SymbolTable) (name : String) : Option UInt64 := table.entries.lookup name

/-- The table with one name set; a value that it had is replaced. -/
def insert (table : SymbolTable) (name : String) (value : UInt64) : SymbolTable :=
  ⟨setEntry name value table.entries, pairwise_setEntry name value table.sorted⟩

/-- The table without one name. -/
def erase (table : SymbolTable) (name : String) : SymbolTable :=
  ⟨table.entries.filter (·.1 != name), table.sorted.filter _⟩

/-- Sets the names in order, so of two values for one name the last stays. -/
def insertAll (table : SymbolTable) (pairs : List (String × UInt64)) : SymbolTable :=
  pairs.foldl (fun t p => t.insert p.1 p.2) table

/-- The table of the pairs; of two values for one name the last stays. -/
def ofList (pairs : List (String × UInt64)) : SymbolTable := empty.insertAll pairs

/-- The name that was set is found. -/
theorem lookup_setEntry_self (name : String) (value : UInt64) :
    ∀ entries : List (String × UInt64), (setEntry name value entries).lookup name = some value
  | [] => by rw [setEntry, List.lookup_cons_self]
  | (key, old) :: rest => by
    rw [setEntry]
    split
    · rw [List.lookup_cons_self]
    · split
      · rw [List.lookup_cons_self]
      · next hne =>
        rw [List.lookup_cons, beq_false_of_ne hne, lookup_setEntry_self name value rest]

/-- Other names are found as before. -/
theorem lookup_setEntry_of_ne {name other : String} (h : other ≠ name) (value : UInt64) :
    ∀ entries : List (String × UInt64),
      (setEntry name value entries).lookup other = entries.lookup other
  | [] => by rw [setEntry, List.lookup_cons, beq_false_of_ne h]
  | (key, old) :: rest => by
    rw [setEntry]
    split
    · rw [List.lookup_cons, beq_false_of_ne h]
    · split
      · next heq =>
        have hkey : other ≠ key := fun hk => h (hk.trans heq.symm)
        rw [List.lookup_cons, List.lookup_cons, beq_false_of_ne h, beq_false_of_ne hkey]
      · rw [List.lookup_cons, List.lookup_cons, lookup_setEntry_of_ne h value rest]

/-- A name that was set has its value. -/
@[simp] theorem get?_insert_self (table : SymbolTable) (name : String) (value : UInt64) :
    (table.insert name value).get? name = some value :=
  lookup_setEntry_self name value table.entries

/-- Setting a name leaves the others. -/
theorem get?_insert_of_ne (table : SymbolTable) {name other : String} (h : other ≠ name)
    (value : UInt64) : (table.insert name value).get? other = table.get? other :=
  lookup_setEntry_of_ne h value table.entries

end SymbolTable

end BootImage
