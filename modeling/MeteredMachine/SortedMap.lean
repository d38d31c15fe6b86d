/-!
# Sorted maps

A map as the list of its entries in strictly ascending order of the keys.  The
order is part of the type, so two maps with the same look-ups are equal.

Main results:

- Theorems {lit}`SortedMap.find?_insert_self` and {lit}`SortedMap.find?_insert_of_ne` say
  what an insertion does to look-ups.
-/

namespace MeteredMachine

/-- A map whose entries are in strictly ascending order of their keys. -/
structure SortedMap (κ ν : Type) [Ord κ] where
  /-- The entries in order. -/
  entries : List (κ × ν)
  /-- The keys ascend strictly. -/
  sorted : entries.Pairwise fun a b => compare a.1 b.1 = .lt
deriving DecidableEq

namespace SortedMap

variable {κ ν : Type} [Ord κ]

/-! ## Lists of entries -/

/-- Puts an entry in its place and replaces the entry of the same key. -/
def insertEntry (key : κ) (value : ν) : List (κ × ν) → List (κ × ν)
  | [] => [(key, value)]
  | (k, v) :: rest =>
    match compare key k with
    | .lt => (key, value) :: (k, v) :: rest
    | .eq => (key, value) :: rest
    | .gt => (k, v) :: insertEntry key value rest

/-- The value of the first entry with the key. -/
def lookup? (key : κ) : List (κ × ν) → Option ν
  | [] => none
  | (k, v) :: rest => if compare key k = .eq then some v else lookup? key rest

/-- An inserted list holds the new entry and old ones only. -/
theorem mem_insertEntry {key : κ} {value : ν} {e : κ × ν} {l : List (κ × ν)}
    (h : e ∈ insertEntry key value l) : e = (key, value) ∨ e ∈ l := by
  induction l with
  | nil => simpa [insertEntry] using h
  | cons head rest ih =>
    obtain ⟨k, v⟩ := head
    rw [insertEntry] at h
    split at h <;> grind

/-- Insertion keeps the order. -/
theorem pairwise_insertEntry [Std.TransOrd κ] [Std.LawfulEqOrd κ] (key : κ) (value : ν)
    {l : List (κ × ν)} (h : l.Pairwise fun a b => compare a.1 b.1 = .lt) :
    (insertEntry key value l).Pairwise fun a b => compare a.1 b.1 = .lt := by
  induction l with
  | nil => simp [insertEntry]
  | cons head rest ih =>
    obtain ⟨k, v⟩ := head
    obtain ⟨hhead, hrest⟩ := List.pairwise_cons.1 h
    rw [insertEntry]
    split
    next hlt =>
      refine List.pairwise_cons.2 ⟨fun e he => ?_, h⟩
      rcases List.mem_cons.1 he with rfl | he
      · exact hlt
      · exact Std.TransCmp.lt_trans hlt (hhead e he)
    next heq =>
      have hkey : key = k := Std.LawfulEqCmp.eq_of_compare heq
      subst hkey
      exact List.pairwise_cons.2 ⟨hhead, hrest⟩
    next hgt =>
      refine List.pairwise_cons.2 ⟨fun e he => ?_, ih hrest⟩
      rcases mem_insertEntry he with rfl | he
      · exact Std.OrientedCmp.lt_of_gt hgt
      · exact hhead e he

/-! ## Maps -/

/-- The map without entries. -/
def empty : SortedMap κ ν :=
  ⟨[], .nil⟩

instance : Inhabited (SortedMap κ ν) := ⟨empty⟩

/-- Whether the map has no entries. -/
def isEmpty (m : SortedMap κ ν) : Bool :=
  m.entries.isEmpty

/-- The value of a key. -/
def find? (m : SortedMap κ ν) (key : κ) : Option ν :=
  lookup? key m.entries

/-- The map without a key. -/
def erase (m : SortedMap κ ν) (key : κ) : SortedMap κ ν :=
  ⟨m.entries.filter fun e => compare key e.1 != .eq, m.sorted.filter _⟩

/-- The map in which a key has a value. -/
def insert [Std.TransOrd κ] [Std.LawfulEqOrd κ] (m : SortedMap κ ν) (key : κ) (value : ν) :
    SortedMap κ ν :=
  ⟨insertEntry key value m.entries, pairwise_insertEntry key value m.sorted⟩

/-- The map of a list of entries, in which the last entry of a key counts. -/
def ofList [Std.TransOrd κ] [Std.LawfulEqOrd κ] (entries : List (κ × ν)) : SortedMap κ ν :=
  entries.foldl (fun m e => m.insert e.1 e.2) empty

/-- A key that was inserted has its value. -/
theorem find?_insert_self [Std.TransOrd κ] [Std.LawfulEqOrd κ] (m : SortedMap κ ν) (key : κ)
    (value : ν) : (m.insert key value).find? key = some value := by
  obtain ⟨l, h⟩ := m
  simp only [find?, insert]
  clear h
  induction l with
  | nil => simp [insertEntry, lookup?]
  | cons head rest ih =>
    obtain ⟨k, v⟩ := head
    rw [insertEntry]
    split <;> simp_all [lookup?]

/-- An insertion leaves the values of other keys alone. -/
theorem find?_insert_of_ne [Std.TransOrd κ] [Std.LawfulEqOrd κ] (m : SortedMap κ ν)
    {key other : κ} (value : ν) (hne : other ≠ key) :
    (m.insert key value).find? other = m.find? other := by
  obtain ⟨l, h⟩ := m
  have hcmp : compare other key ≠ .eq := fun heq => hne (Std.LawfulEqCmp.eq_of_compare heq)
  simp only [find?, insert]
  clear h
  induction l with
  | nil => simp [insertEntry, lookup?, hcmp]
  | cons head rest ih =>
    obtain ⟨k, v⟩ := head
    rw [insertEntry]
    split
    next => simp [lookup?, hcmp]
    next heq =>
      have hkey : key = k := Std.LawfulEqCmp.eq_of_compare heq
      subst hkey
      simp [lookup?, hcmp]
    next => simp [lookup?, ih]

end SortedMap

end MeteredMachine
