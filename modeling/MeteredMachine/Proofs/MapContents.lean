import Mathlib.Data.List.Basic
import Mathlib.Data.List.Induction
import MeteredMachine.SortedMap

/-!
# What a sorted map holds

A sorted map answers a look-up with the one entry that has the key, so its entries and its
look-ups say the same: two maps with the same look-ups are equal, whatever led to them.  A map
that is made of a list holds the last entry that the list has for a key, and it holds the whole
list if no key comes twice.

Main results:

- Theorem {lit}`SortedMap.find?_eq_some_iff`: look-ups and entries.
- Theorem {lit}`SortedMap.ext_find?`: a map is determined by its look-ups.
- Theorems {lit}`SortedMap.find?_erase_self` and {lit}`SortedMap.find?_erase_of_ne`: what an
  erasure does to look-ups.
- Theorems {lit}`SortedMap.find?_ofList` and {lit}`SortedMap.perm_entries_ofList`: the map of a
  list.
-/

namespace MeteredMachine

namespace SortedMap

variable {κ ν : Type}

/-! ## Look-ups and entries -/

theorem nodup_of_pairwise_ne {entries : List (κ × ν)}
    (hkeys : entries.Pairwise fun a b => a.1 ≠ b.1) : entries.Nodup :=
  hkeys.imp fun hne heq => hne (congrArg Prod.fst heq)

variable [Ord κ]

@[simp] theorem lookup?_nil (key : κ) : lookup? key ([] : List (κ × ν)) = none := rfl

section

variable [Std.LawfulEqOrd κ]

theorem ne_of_compare_lt {a b : κ} (h : compare a b = .lt) : a ≠ b := by
  rintro rfl
  rw [Std.ReflOrd.compare_self] at h
  cases h

@[simp] theorem lookup?_cons_self (key : κ) (value : ν) (rest : List (κ × ν)) :
    lookup? key ((key, value) :: rest) = some value := by
  rw [lookup?, if_pos Std.ReflOrd.compare_self]

theorem lookup?_cons_of_ne {key other : κ} (hne : key ≠ other) (value : ν) (rest : List (κ × ν)) :
    lookup? key ((other, value) :: rest) = lookup? key rest := by
  rw [lookup?, if_neg (fun heq => hne (Std.LawfulEqOrd.eq_of_compare heq))]

/-- A key is looked up in the front part of a list first. -/
theorem lookup?_append (key : κ) (front back : List (κ × ν)) :
    lookup? key (front ++ back) = (lookup? key front).or (lookup? key back) := by
  induction front with
  | nil => rfl
  | cons entry front ih =>
    obtain ⟨k, v⟩ := entry
    by_cases hkey : key = k
    · subst hkey
      simp
    · rw [List.cons_append, lookup?_cons_of_ne hkey, lookup?_cons_of_ne hkey, ih]

theorem mem_of_lookup? {key : κ} {value : ν} {entries : List (κ × ν)}
    (h : lookup? key entries = some value) : (key, value) ∈ entries := by
  induction entries with
  | nil => cases h
  | cons entry rest ih =>
    obtain ⟨k, v⟩ := entry
    by_cases hkey : key = k
    · subst hkey
      rw [lookup?_cons_self] at h
      cases h
      exact List.mem_cons_self
    · rw [lookup?_cons_of_ne hkey] at h
      exact List.mem_cons_of_mem _ (ih h)

theorem lookup?_of_mem {key : κ} {value : ν} {entries : List (κ × ν)}
    (hkeys : entries.Pairwise fun a b => a.1 ≠ b.1) (hmem : (key, value) ∈ entries) :
    lookup? key entries = some value := by
  induction entries with
  | nil => cases hmem
  | cons entry rest ih =>
    obtain ⟨hhead, hrest⟩ := List.pairwise_cons.1 hkeys
    rcases List.mem_cons.1 hmem with rfl | hmem
    · exact lookup?_cons_self key value rest
    · rw [lookup?_cons_of_ne (hhead _ hmem).symm]
      exact ih hrest hmem

theorem pairwise_ne_entries (m : SortedMap κ ν) : m.entries.Pairwise fun a b => a.1 ≠ b.1 :=
  m.sorted.imp ne_of_compare_lt

/-- A look-up gives a value exactly when the map has an entry with the key and the value. -/
theorem find?_eq_some_iff {m : SortedMap κ ν} {key : κ} {value : ν} :
    m.find? key = some value ↔ (key, value) ∈ m.entries :=
  ⟨mem_of_lookup?, lookup?_of_mem m.pairwise_ne_entries⟩

theorem find?_eq_none_iff {m : SortedMap κ ν} {key : κ} :
    m.find? key = none ↔ ∀ value, (key, value) ∉ m.entries := by
  rw [Option.eq_none_iff_forall_ne_some]
  exact forall_congr' fun value => not_congr find?_eq_some_iff

end

/-- A map is determined by its entries in any order. -/
theorem ext_perm [Std.TransOrd κ] {m n : SortedMap κ ν} (h : m.entries.Perm n.entries) :
    m = n := by
  have hentries : m.entries = n.entries := by
    refine h.eq_of_pairwise ?_ m.sorted n.sorted
    intro a b _ _ hab hba
    exact absurd hba (Std.OrientedCmp.not_lt_of_lt hab)
  cases m
  cases n
  congr

/-- A map is determined by its look-ups. -/
theorem ext_find? [Std.TransOrd κ] [Std.LawfulEqOrd κ] {m n : SortedMap κ ν}
    (h : ∀ key, m.find? key = n.find? key) : m = n := by
  apply ext_perm
  rw [List.perm_ext_iff_of_nodup (nodup_of_pairwise_ne m.pairwise_ne_entries)
    (nodup_of_pairwise_ne n.pairwise_ne_entries)]
  intro entry
  rw [← find?_eq_some_iff, h, find?_eq_some_iff]

/-! ## Empty maps and erasure -/

theorem eq_empty_of_isEmpty {m : SortedMap κ ν} (h : m.isEmpty = true) : m = empty := by
  obtain ⟨entries, sorted⟩ := m
  obtain rfl := List.isEmpty_iff.1 h
  rfl

section

variable [Std.LawfulEqOrd κ]

theorem mem_entries_erase {m : SortedMap κ ν} {key : κ} {entry : κ × ν} :
    entry ∈ (m.erase key).entries ↔ entry ∈ m.entries ∧ entry.1 ≠ key := by
  have hkey : (compare key entry.1 != .eq) = true ↔ entry.1 ≠ key := by
    rw [bne_iff_ne, ne_eq, Std.LawfulEqOrd.compare_eq_iff_eq, ne_eq, eq_comm]
  rw [erase, List.mem_filter, hkey]

@[simp] theorem find?_erase_self (m : SortedMap κ ν) (key : κ) :
    (m.erase key).find? key = none := by
  rw [find?_eq_none_iff]
  intro value hmem
  exact (mem_entries_erase.1 hmem).2 rfl

theorem find?_erase_of_ne (m : SortedMap κ ν) {key other : κ} (hne : other ≠ key) :
    (m.erase key).find? other = m.find? other := by
  apply Option.ext
  intro value
  rw [find?_eq_some_iff, find?_eq_some_iff, mem_entries_erase]
  exact and_iff_left hne

end

/-! ## Maps of lists -/

section

variable [Std.TransOrd κ] [Std.LawfulEqOrd κ]

/-- The map of a list answers with the last entry of a key. -/
theorem find?_ofList (entries : List (κ × ν)) (key : κ) :
    (ofList entries).find? key = lookup? key entries.reverse := by
  induction entries using List.reverseRecOn with
  | nil => rfl
  | append_singleton entries entry ih =>
    obtain ⟨k, v⟩ := entry
    rw [ofList, List.foldl_concat, ← ofList, List.reverse_concat]
    by_cases hkey : key = k
    · subst hkey
      rw [find?_insert_self, lookup?_cons_self]
    · rw [find?_insert_of_ne _ _ hkey, lookup?_cons_of_ne hkey, ih]

/-- The map of a list in which no key comes twice has the entries of the list. -/
theorem perm_entries_ofList {entries : List (κ × ν)}
    (hkeys : entries.Pairwise fun a b => a.1 ≠ b.1) : (ofList entries).entries.Perm entries := by
  have hreverse : entries.reverse.Pairwise fun a b => a.1 ≠ b.1 :=
    List.pairwise_reverse.2 (hkeys.imp Ne.symm)
  rw [List.perm_ext_iff_of_nodup (nodup_of_pairwise_ne (pairwise_ne_entries _))
    (nodup_of_pairwise_ne hkeys)]
  intro entry
  have hmem : entry ∈ entries ↔ entry ∈ entries.reverse := List.mem_reverse.symm
  rw [← find?_eq_some_iff, find?_ofList, hmem]
  exact ⟨mem_of_lookup?, lookup?_of_mem hreverse⟩

end

end SortedMap

end MeteredMachine
