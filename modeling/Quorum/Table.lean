/-!
# Finite tables

A table assigns values to finitely many keys.  Entries keep the order in which
their keys were first inserted; no key occurs twice, which is part of the type.
The main statements give the lookups and the keys after an insertion.
-/

namespace Quorum

variable {κ α : Type}

/-- Finitely many entries with distinct keys. -/
structure Table (κ α : Type) where
  entries : List (κ × α)
  nodup_keys : (entries.map Prod.fst).Nodup

namespace Table

/-- The table without entries. -/
def empty : Table κ α := ⟨[], List.nodup_nil⟩

/-- The keys, in the order of their first insertion. -/
def keys (table : Table κ α) : List κ := table.entries.map Prod.fst

/-- The number of entries. -/
def size (table : Table κ α) : Nat := table.entries.length

/-- Whether there is no entry. -/
def isEmpty (table : Table κ α) : Bool := table.entries.isEmpty

variable [DecidableEq κ]

/-- The first value in a list of entries with the given key. -/
def lookup? (key : κ) : List (κ × α) → Option α
  | [] => none
  | (k, v) :: rest => if k = key then some v else lookup? key rest

/-- Replaces the first entry with the given key, or adds one at the end. -/
def insertEntry (key : κ) (value : α) : List (κ × α) → List (κ × α)
  | [] => [(key, value)]
  | (k, v) :: rest =>
    if k = key then (key, value) :: rest else (k, v) :: insertEntry key value rest

theorem map_fst_insertEntry (key : κ) (value : α) (entries : List (κ × α)) :
    (insertEntry key value entries).map Prod.fst =
      if key ∈ entries.map Prod.fst then entries.map Prod.fst
      else entries.map Prod.fst ++ [key] := by
  induction entries with
  | nil => simp [insertEntry]
  | cons entry rest ih =>
    obtain ⟨k, v⟩ := entry
    by_cases h : k = key
    · simp [insertEntry, h]
    · have h' : ¬ key = k := fun e => h e.symm
      simp only [insertEntry, h, if_false, List.map_cons, ih, List.mem_cons, h', false_or]
      split <;> simp

/-- The value of a key. -/
def get? (table : Table κ α) (key : κ) : Option α := lookup? key table.entries

/-- Whether a key has a value. -/
def contains (table : Table κ α) (key : κ) : Bool := (table.get? key).isSome

/-- The table in which a key has the given value and all others have theirs. -/
def insert (table : Table κ α) (key : κ) (value : α) : Table κ α where
  entries := insertEntry key value table.entries
  nodup_keys := by
    rw [map_fst_insertEntry]
    split
    · exact table.nodup_keys
    · rename_i h
      rw [List.nodup_append]
      exact ⟨table.nodup_keys, by simp, fun a ha b hb => by
        rw [List.mem_singleton] at hb
        subst hb
        exact fun e => h (e ▸ ha)⟩

/-- The table with the given entries; the last one of each key counts. -/
def ofList (entries : List (κ × α)) : Table κ α :=
  entries.foldl (fun table entry => table.insert entry.1 entry.2) empty

/-- The keys after an insertion. -/
theorem keys_insert (table : Table κ α) (key : κ) (value : α) :
    (table.insert key value).keys =
      if key ∈ table.keys then table.keys else table.keys ++ [key] :=
  map_fst_insertEntry key value table.entries

/-- A lookup after an insertion. -/
theorem get?_insert (table : Table κ α) (key other : κ) (value : α) :
    (table.insert key value).get? other = if key = other then some value else table.get? other := by
  show lookup? other (insertEntry key value table.entries) = _
  rw [get?]
  induction table.entries with
  | nil => simp [insertEntry, lookup?]
  | cons entry rest ih =>
    obtain ⟨k, v⟩ := entry
    by_cases h : k = key
    · subst h
      by_cases h' : k = other <;> simp [insertEntry, lookup?, h']
    · simp only [insertEntry, h, if_false, lookup?, ih]
      by_cases h' : k = other
      · subst h'
        have h'' : ¬ key = k := fun e => h e.symm
        simp [h'']
      · simp [h']

/-- A key has a value exactly if it is one of the keys. -/
theorem contains_iff_mem_keys (table : Table κ α) (key : κ) :
    table.contains key = true ↔ key ∈ table.keys := by
  show (lookup? key table.entries).isSome = true ↔ key ∈ table.entries.map Prod.fst
  induction table.entries with
  | nil => simp [lookup?]
  | cons entry rest ih =>
    obtain ⟨k, v⟩ := entry
    by_cases h : k = key
    · simp [lookup?, h]
    · have h' : ¬ key = k := fun e => h e.symm
      simp only [lookup?, h, if_false, ih, List.map_cons, List.mem_cons, h', false_or]

end Table
end Quorum
