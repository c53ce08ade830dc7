import BootImage.SymbolTable
import Mathlib.Data.List.Basic

/-! Tables that are made from a list.

    The names of the list are set one after the other, so a name ends with the value that was set
    last. Where no name comes twice that is its only value, and a table answers exactly what the
    list says. -/

namespace BootImage.SymbolTable

/-- Values that are mapped are found where they were. -/
theorem lookup_map {α β : Type} (g : α → β) (name : String) : ∀ pairs : List (String × α),
    (pairs.map fun p => (p.1, g p.2)).lookup name = (pairs.lookup name).map g
  | [] => rfl
  | (key, a) :: rest => by
    rw [List.map_cons, List.lookup_cons, List.lookup_cons, lookup_map g name rest]
    cases name == key <;> rfl

/-- A name that was set has its last value, any other the value that it had. -/
theorem get?_insertAll (name : String) : ∀ (pairs : List (String × UInt64)) (table : SymbolTable),
    (table.insertAll pairs).get? name = (pairs.reverse.lookup name).or (table.get? name)
  | [], _ => rfl
  | (key, value) :: rest, table => by
    have ih : ((table.insert key value).insertAll rest).get? name =
        (rest.reverse.lookup name).or ((table.insert key value).get? name) :=
      get?_insertAll name rest _
    have hfirst : (table.insert key value).get? name =
        ([(key, value)].lookup name).or (table.get? name) := by
      by_cases hkey : name = key
      · rw [hkey, get?_insert_self, List.lookup_cons_self, Option.some_or]
      · rw [get?_insert_of_ne table hkey, List.lookup_cons, beq_false_of_ne hkey]
        rfl
    rw [List.reverse_cons, List.lookup_append, Option.or_assoc, ← hfirst]
    exact ih

/-- Setting names leaves the others. -/
theorem get?_insertAll_of_not_mem {name : String} {pairs : List (String × UInt64)}
    {table : SymbolTable} (h : name ∉ pairs.map (·.1)) :
    (table.insertAll pairs).get? name = table.get? name := by
  have hnone : pairs.reverse.lookup name = none := by
    rw [List.lookup_eq_none_iff]
    rintro p hp
    have hne : name ≠ p.1 := fun heq => h (heq ▸ List.mem_map_of_mem (List.mem_reverse.1 hp))
    simpa using hne
  rw [get?_insertAll, hnone, Option.none_or]

/-- Where no name comes twice, every name of the list has its value. -/
theorem get?_insertAll_of_mem {name : String} {value : UInt64} :
    ∀ {pairs : List (String × UInt64)} {table : SymbolTable}, (pairs.map (·.1)).Nodup →
      (name, value) ∈ pairs → (table.insertAll pairs).get? name = some value
  | (key, old) :: rest, table, hnodup, h => by
    rw [List.map_cons, List.nodup_cons] at hnodup
    obtain ⟨hfresh, hrest⟩ := hnodup
    rcases List.mem_cons.1 h with heq | h
    · obtain ⟨rfl, rfl⟩ := Prod.mk.inj heq
      have hlast : ((table.insert name value).insertAll rest).get? name =
          (table.insert name value).get? name := get?_insertAll_of_not_mem hfresh
      exact hlast.trans (get?_insert_self table name value)
    · have ih : ((table.insert key old).insertAll rest).get? name = some value :=
        get?_insertAll_of_mem hrest h
      exact ih

theorem get?_ofList_of_mem {pairs : List (String × UInt64)} (hnodup : (pairs.map (·.1)).Nodup)
    {name : String} {value : UInt64} (h : (name, value) ∈ pairs) :
    (ofList pairs).get? name = some value :=
  get?_insertAll_of_mem hnodup h

/-- Where no name comes twice, the table answers what the list says. -/
theorem get?_ofList {pairs : List (String × UInt64)} (hnodup : (pairs.map (·.1)).Nodup)
    (name : String) : (ofList pairs).get? name = (pairs.find? (·.1 == name)).map (·.2) := by
  cases hfind : pairs.find? (·.1 == name) with
  | none =>
    have hfresh : name ∉ pairs.map (·.1) := by
      rintro hmem
      obtain ⟨p, hp, rfl⟩ := List.mem_map.1 hmem
      exact List.find?_eq_none.1 hfind p hp (beq_self_eq_true _)
    exact get?_insertAll_of_not_mem hfresh
  | some p =>
    obtain rfl : p.1 = name := by simpa using List.find?_some hfind
    exact get?_ofList_of_mem hnodup (List.mem_of_find?_eq_some hfind)

/-- The table answers with the last value that the list has for a name. -/
theorem get?_ofList_eq_lookup (pairs : List (String × UInt64)) (name : String) :
    (ofList pairs).get? name = pairs.reverse.lookup name := by
  have hempty : empty.get? name = none := rfl
  rw [ofList, get?_insertAll, hempty, Option.or_none]

end BootImage.SymbolTable
