import Mathlib.Data.List.Basic
import Mathlib.Data.List.Induction
import StreamQuery.Value.Basic

/-!
# Entries in insertion order

What inserting entries does to their keys and to look-ups. A key keeps the place where it was
inserted first and the value that was inserted last.
-/

namespace StreamQuery

variable {α : Type}

/-- The keys of entries, in order. -/
def keysOf (entries : List (String × α)) : List String :=
  entries.map (·.1)

theorem mem_of_lookup? {key : String} {value : α} {entries : List (String × α)}
    (h : lookup? key entries = some value) : (key, value) ∈ entries := by
  induction entries with
  | nil => cases h
  | cons entry rest ih =>
    rw [lookup?] at h
    split at h
    · next hkey =>
      cases h
      rw [← eq_of_beq hkey]
      exact List.mem_cons_self
    · exact List.mem_cons_of_mem _ (ih h)

theorem lookup?_insertEntry (key other : String) (value : α) (entries : List (String × α)) :
    lookup? other (insertEntry key value entries) =
      if key == other then some value else lookup? other entries := by
  induction entries with
  | nil => rfl
  | cons entry rest ih =>
    obtain ⟨first, held⟩ := entry
    by_cases hkey : first = key
    · subst hkey
      by_cases hother : first = other <;> simp [insertEntry, lookup?, hother]
    · by_cases hother : first = other
      · subst hother
        simp [insertEntry, lookup?, hkey, Ne.symm hkey]
      · simp [insertEntry, lookup?, hkey, hother, ih]

theorem keysOf_insertEntry_of_mem {key : String} {entries : List (String × α)}
    (h : key ∈ keysOf entries) (value : α) :
    keysOf (insertEntry key value entries) = keysOf entries := by
  induction entries with
  | nil => cases h
  | cons entry rest ih =>
    obtain ⟨first, held⟩ := entry
    by_cases hkey : first = key
    · simp [insertEntry, keysOf, hkey]
    · have hrest : key ∈ keysOf rest := by simpa [keysOf, Ne.symm hkey] using h
      simpa [insertEntry, keysOf, hkey] using ih hrest

theorem keysOf_insertEntry_of_not_mem {key : String} {entries : List (String × α)}
    (h : key ∉ keysOf entries) (value : α) :
    keysOf (insertEntry key value entries) = keysOf entries ++ [key] := by
  induction entries with
  | nil => rfl
  | cons entry rest ih =>
    obtain ⟨first, held⟩ := entry
    simp only [keysOf, List.map_cons, List.mem_cons, not_or] at h
    simpa [insertEntry, keysOf, Ne.symm h.1] using ih h.2

theorem insertEntry_of_not_mem {key : String} {entries : List (String × α)}
    (h : key ∉ keysOf entries) (value : α) :
    insertEntry key value entries = entries ++ [(key, value)] := by
  induction entries with
  | nil => rfl
  | cons entry rest ih =>
    obtain ⟨first, held⟩ := entry
    simp only [keysOf, List.map_cons, List.mem_cons, not_or] at h
    simpa [insertEntry, keysOf, Ne.symm h.1] using ih h.2

/-- Entries with different keys are determined by their keys and the values looked up. -/
theorem map_value_eq_filterMap_lookup? {entries : List (String × α)}
    (h : (keysOf entries).Nodup) :
    entries.map (·.2) = (keysOf entries).filterMap (lookup? · entries) := by
  induction entries with
  | nil => rfl
  | cons entry rest ih =>
    obtain ⟨key, value⟩ := entry
    obtain ⟨hkey, hrest⟩ := List.nodup_cons.mp h
    have hlookup : ∀ other ∈ keysOf rest,
        lookup? other ((key, value) :: rest) = lookup? other rest := by
      intro other hother
      have hne : key ≠ other := fun heq => hkey (heq ▸ hother)
      simp [lookup?, hne]
    change value :: rest.map (·.2) = _
    rw [ih hrest]
    change _ = (key :: keysOf rest).filterMap _
    rw [List.filterMap_cons_some (b := value) (by simp [lookup?]), List.filterMap_congr hlookup]

/-! ### Many insertions -/

theorem insertEntries_concat (entries added : List (String × α)) (entry : String × α) :
    insertEntries entries (added ++ [entry]) =
      insertEntry entry.1 entry.2 (insertEntries entries added) := by
  rw [insertEntries, List.foldl_append]
  rfl

/-- Entries with different keys are inserted one after the other. -/
theorem insertEntries_of_nodup {added : List (String × α)} (h : (keysOf added).Nodup) :
    insertEntries [] added = added := by
  induction added using List.reverseRecOn with
  | nil => rfl
  | append_singleton added entry ih =>
    rw [keysOf, List.map_append, List.map_singleton, List.nodup_append] at h
    rw [insertEntries_concat, ih h.1]
    exact insertEntry_of_not_mem (fun hmem => h.2.2 _ hmem _ List.mem_cons_self rfl) entry.2

/-- The keys of inserted entries, each at its first place. -/
theorem keysOf_insertEntries (added : List (String × α)) :
    keysOf (insertEntries [] added) = (keysOf added).eraseDups := by
  induction added using List.reverseRecOn with
  | nil => rfl
  | append_singleton added entry ih =>
    have hkeys : keysOf (added ++ [entry]) = keysOf added ++ [entry.1] := List.map_append
    rw [insertEntries_concat, hkeys, List.eraseDups_append, ← ih]
    by_cases hkey : entry.1 ∈ keysOf added
    · rw [keysOf_insertEntry_of_mem (by rwa [ih, List.mem_eraseDups])]
      simp [List.removeAll, hkey]
    · rw [keysOf_insertEntry_of_not_mem (by rwa [ih, List.mem_eraseDups])]
      simp [List.removeAll, hkey, List.eraseDups_cons]

theorem nodup_keysOf_insertEntries (added : List (String × α)) :
    (keysOf (insertEntries [] added)).Nodup := by
  induction added using List.reverseRecOn with
  | nil => exact List.nodup_nil
  | append_singleton added entry ih =>
    rw [insertEntries_concat]
    by_cases hkey : entry.1 ∈ keysOf (insertEntries [] added)
    · rwa [keysOf_insertEntry_of_mem hkey]
    · rw [keysOf_insertEntry_of_not_mem hkey]
      simpa [List.nodup_append] using ⟨ih, fun key hmem heq => hkey (heq ▸ hmem)⟩

/-- Of the entries with a key the value of the last one is found. -/
theorem lookup?_insertEntries (key : String) (added : List (String × α)) :
    lookup? key (insertEntries [] added) =
      ((added.filter (·.1 == key)).getLast?).map (·.2) := by
  induction added using List.reverseRecOn with
  | nil => rfl
  | append_singleton added entry ih =>
    rw [insertEntries_concat, lookup?_insertEntry, List.filter_append]
    by_cases hkey : entry.1 = key
    · simp [hkey]
    · simp [hkey, ih]

/-- The values of inserted entries: for every key the last one, at the place of the first one. -/
theorem map_value_insertEntries (added : List (String × α)) :
    (insertEntries [] added).map (·.2) = (keysOf added).eraseDups.filterMap fun key =>
      ((added.filter (·.1 == key)).getLast?).map (·.2) := by
  rw [map_value_eq_filterMap_lookup? (nodup_keysOf_insertEntries added), keysOf_insertEntries]
  exact List.filterMap_congr fun key _ => lookup?_insertEntries key added

end StreamQuery
