import Mathlib.Data.List.Induction
import Mathlib.Data.List.Nodup
import Mathlib.Data.List.Perm.Subperm
import Quorum.Table

/-!
# Lookups in tables

For a table that is made from a list, the last entry of a key counts; where the list does
not contradict itself, a lookup finds exactly its entries.
-/

namespace Quorum
namespace Table

variable {κ α : Type}

/-- No key of the entries has two values. -/
def Unambiguous (entries : List (κ × α)) : Prop :=
  ∀ key value other, (key, value) ∈ entries → (key, other) ∈ entries → value = other

theorem unambiguous_of_nodup {entries : List (κ × α)} (h : (entries.map Prod.fst).Nodup) :
    Unambiguous entries := by
  intro key value other hvalue hother
  exact congrArg Prod.snd (List.inj_on_of_nodup_map h hvalue hother rfl)

variable [DecidableEq κ]

theorem lookup?_eq_some_iff {entries : List (κ × α)} (h : Unambiguous entries) {key : κ}
    {value : α} : lookup? key entries = some value ↔ (key, value) ∈ entries := by
  induction entries with
  | nil => simp [lookup?]
  | cons entry rest ih =>
      obtain ⟨k, v⟩ := entry
      have hrest : Unambiguous rest := fun key value other hvalue hother =>
        h key value other (by simp [hvalue]) (by simp [hother])
      by_cases hkey : k = key
      · subst hkey
        rw [lookup?, if_pos rfl, Option.some.injEq]
        constructor
        · rintro rfl
          simp
        · exact h k v value (by simp)
      · have hne : (key, value) ≠ (k, v) := fun heq => hkey (congrArg Prod.fst heq).symm
        rw [lookup?, if_neg hkey, ih hrest, List.mem_cons, or_iff_right hne]

theorem exists_lookup?_iff {entries : List (κ × α)} {key : κ} :
    (∃ value, lookup? key entries = some value) ↔ key ∈ entries.map Prod.fst := by
  induction entries with
  | nil => simp [lookup?]
  | cons entry rest ih =>
      by_cases hkey : entry.1 = key
      · simp [lookup?, hkey]
      · simp [lookup?, hkey, Ne.symm hkey, ih]

theorem ofList_concat (entries : List (κ × α)) (entry : κ × α) :
    ofList (entries ++ [entry]) = (ofList entries).insert entry.1 entry.2 := by
  simp [ofList]

theorem get?_ofList (entries : List (κ × α)) (key : κ) :
    (ofList entries).get? key = lookup? key entries.reverse := by
  induction entries using List.reverseRecOn with
  | nil => rfl
  | append_singleton entries entry ih =>
      rw [ofList_concat, get?_insert, ih, List.reverse_concat, lookup?]

/-- A list that does not contradict itself is found in its table. -/
theorem get?_ofList_eq_some_iff {entries : List (κ × α)} (h : Unambiguous entries) {key : κ}
    {value : α} : (ofList entries).get? key = some value ↔ (key, value) ∈ entries := by
  have hreverse : Unambiguous entries.reverse := by
    intro key value other hvalue hother
    exact h key value other (List.mem_reverse.1 hvalue) (List.mem_reverse.1 hother)
  rw [get?_ofList, lookup?_eq_some_iff hreverse, List.mem_reverse]

/-- The keys of a list are those of its table. -/
theorem contains_ofList_iff {entries : List (κ × α)} {key : κ} :
    (ofList entries).contains key = true ↔ key ∈ entries.map Prod.fst := by
  rw [contains, get?_ofList, Option.isSome_iff_exists, exists_lookup?_iff, List.map_reverse,
    List.mem_reverse]

theorem get?_eq_some_iff {table : Table κ α} {key : κ} {value : α} :
    table.get? key = some value ↔ (key, value) ∈ table.entries :=
  lookup?_eq_some_iff (unambiguous_of_nodup table.nodup_keys)

theorem mem_keys_iff {table : Table κ α} {key : κ} :
    key ∈ table.keys ↔ ∃ value, table.get? key = some value := by
  rw [← contains_iff_mem_keys, contains, Option.isSome_iff_exists]

/-- A list in which all keys occur has at least as many places with a value as the table has
entries. -/
theorem size_le_countP {table : Table κ α} {items : List κ} (h : table.keys ⊆ items) :
    table.size ≤ items.countP table.contains := by
  have hsubset : table.keys ⊆ items.filter table.contains := fun key hkey =>
    List.mem_filter.2 ⟨h hkey, (table.contains_iff_mem_keys key).2 hkey⟩
  calc
    table.size
    _ = table.keys.length := (List.length_map _).symm
    _ ≤ (items.filter table.contains).length :=
      (List.subperm_of_subset table.nodup_keys hsubset).length_le
    _ = items.countP table.contains := List.countP_eq_length_filter.symm

theorem insertEntry_of_not_mem {entries : List (κ × α)} {key : κ}
    (h : key ∉ entries.map Prod.fst) (value : α) :
    insertEntry key value entries = entries ++ [(key, value)] := by
  induction entries with
  | nil => rfl
  | cons entry rest ih =>
      obtain ⟨k, v⟩ := entry
      rw [List.map_cons, List.mem_cons, not_or] at h
      rw [insertEntry, if_neg (Ne.symm h.1), ih h.2, List.cons_append]

/-- A new key is added at the end. -/
theorem entries_insert_of_not_mem {table : Table κ α} {key : κ} (h : key ∉ table.keys)
    (value : α) : (table.insert key value).entries = table.entries ++ [(key, value)] :=
  insertEntry_of_not_mem h value

end Table
end Quorum
