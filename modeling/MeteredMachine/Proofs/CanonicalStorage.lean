import MeteredMachine.Proofs.MapContents
import MeteredMachine.Storage

/-!
# Storages are determined by what they answer

Setting a slot changes the answer for that slot alone, and a storage keeps neither a slot that is
zero nor an account without slots.  So what a storage holds can be read off its answers: storages
that answer alike are equal, in whatever order their slots were set and however often.

Main results:

- Theorem {lit}`Storage.get_set`: what setting a slot does to answers.
- Structure {lit}`Storage.Canonical` and theorem {lit}`Storage.Canonical.set`: nothing
  superfluous is kept.
- Theorem {lit}`Storage.Canonical.ext`: a canonical storage is determined by its answers.
- Theorem {lit}`Storage.updates_canonical` says what a storage is after any updates.
-/

namespace MeteredMachine

namespace Storage

/-! ## Answers -/

section

variable (s : Storage) (address : Address) (slots : Slots)

theorem slots_setSlots_self : (s.setSlots address slots).slots address = slots := by
  rw [setSlots]
  split
  next hempty =>
    rw [Storage.slots, SortedMap.find?_erase_self, SortedMap.eq_empty_of_isEmpty hempty]
    rfl
  next =>
    rw [Storage.slots, SortedMap.find?_insert_self]
    rfl

theorem slots_setSlots_of_ne {other : Address} (hne : other ≠ address) :
    (s.setSlots address slots).slots other = s.slots other := by
  rw [setSlots]
  split
  next => rw [Storage.slots, SortedMap.find?_erase_of_ne _ hne, Storage.slots]
  next => rw [Storage.slots, SortedMap.find?_insert_of_ne _ _ hne, Storage.slots]

end

/-- Among the slots of an account, clearing a slot makes it zero and inserting gives it the
value. -/
theorem getD_find?_changed (slots : Slots) (key slot value : Word) :
    ((if value.isZero then slots.erase key else slots.insert key value).find? slot).getD 0 =
      if slot = key then value else (slots.find? slot).getD 0 := by
  split
  next hzero =>
    have hvalue : value = 0 := (Word.eq_zero_iff value).2 ((Word.isZero_iff value).1 hzero)
    split
    next hslot =>
      rw [hslot, SortedMap.find?_erase_self, hvalue]
      rfl
    next hslot => rw [SortedMap.find?_erase_of_ne _ hslot]
  next =>
    split
    next hslot =>
      rw [hslot, SortedMap.find?_insert_self]
      rfl
    next hslot => rw [SortedMap.find?_insert_of_ne _ _ hslot]

/-- Setting a slot changes the answer for that slot alone. -/
theorem get_set (s : Storage) (address other : Address) (key slot value : Word) :
    (s.set address key value).get other slot =
      if other = address ∧ slot = key then value else s.get other slot := by
  rw [get, set, get]
  by_cases haddress : other = address
  · subst haddress
    rw [slots_setSlots_self, getD_find?_changed]
    simp
  · rw [slots_setSlots_of_ne _ _ _ haddress, if_neg (fun h => haddress h.1)]

/-! ## Nothing superfluous -/

/-- A storage keeps no account without slots and no slot that is zero. -/
structure Canonical (s : Storage) : Prop where
  slots_ne : ∀ address slots, (address, slots) ∈ s.accounts.entries → slots.entries ≠ []
  value_ne : ∀ address slots, (address, slots) ∈ s.accounts.entries →
    ∀ key value, (key, value) ∈ slots.entries → value ≠ 0

theorem canonical_empty : Canonical empty :=
  ⟨fun _ _ h => (List.not_mem_nil h).elim, fun _ _ h => (List.not_mem_nil h).elim⟩

namespace Canonical

variable {s t : Storage}

/-- The slots that an account is shown to have are not zero. -/
theorem ne_zero_of_mem_slots (h : s.Canonical) {address : Address} {key value : Word}
    (hmem : (key, value) ∈ (s.slots address).entries) : value ≠ 0 := by
  rw [slots] at hmem
  cases hfind : s.accounts.find? address with
  | none =>
    rw [hfind] at hmem
    exact (List.not_mem_nil hmem).elim
  | some slots =>
    rw [hfind] at hmem
    exact h.value_ne address slots (SortedMap.find?_eq_some_iff.1 hfind) key value hmem

theorem setSlots (h : s.Canonical) (address : Address) {slots : Slots}
    (hslots : ∀ key value, (key, value) ∈ slots.entries → value ≠ 0) :
    (s.setSlots address slots).Canonical := by
  rw [Storage.setSlots]
  split
  next =>
    -- Dropping an account adds nothing.
    refine ⟨fun a kept hmem => ?_, fun a kept hmem => ?_⟩
    · exact h.slots_ne a kept (SortedMap.mem_entries_erase.1 hmem).1
    · exact h.value_ne a kept (SortedMap.mem_entries_erase.1 hmem).1
  next hempty =>
    refine ⟨fun a kept hmem => ?_, fun a kept hmem => ?_⟩
    · rcases SortedMap.mem_insertEntry hmem with hnew | hold
      · cases hnew
        exact fun hnil => hempty (List.isEmpty_iff.2 hnil)
      · exact h.slots_ne a kept hold
    · rcases SortedMap.mem_insertEntry hmem with hnew | hold
      · cases hnew
        exact hslots
      · exact h.value_ne a kept hold

/-- Setting a slot keeps a storage canonical. -/
theorem set (h : s.Canonical) (address : Address) (key value : Word) :
    (s.set address key value).Canonical := by
  apply h.setSlots
  intro k v hmem
  split at hmem
  next => exact h.ne_zero_of_mem_slots (SortedMap.mem_entries_erase.1 hmem).1
  next hzero =>
    rcases SortedMap.mem_insertEntry hmem with hnew | hold
    · cases hnew
      rwa [ne_eq, Word.eq_zero_iff, ← Word.isZero_iff]
    · exact h.ne_zero_of_mem_slots hold

/-- An account has exactly the slots that are answered with something other than zero. -/
theorem mem_slots_iff (h : s.Canonical) {address : Address} {key value : Word} :
    (key, value) ∈ (s.slots address).entries ↔ value ≠ 0 ∧ s.get address key = value := by
  rw [get]
  constructor
  · intro hmem
    refine ⟨h.ne_zero_of_mem_slots hmem, ?_⟩
    rw [SortedMap.find?_eq_some_iff.2 hmem]
    rfl
  · rintro ⟨hne, hget⟩
    cases hfind : (s.slots address).find? key with
    | none =>
      rw [hfind] at hget
      exact absurd hget.symm hne
    | some found =>
      rw [hfind] at hget
      rw [← SortedMap.find?_eq_some_iff, hfind]
      exact congrArg some hget

/-- An account is kept exactly if it has slots. -/
theorem find?_accounts_eq (h : s.Canonical) (address : Address) :
    s.accounts.find? address =
      if (s.slots address).isEmpty then none else some (s.slots address) := by
  rw [slots]
  cases hfind : s.accounts.find? address with
  | none => rfl
  | some slots =>
    have hne := h.slots_ne address slots (SortedMap.find?_eq_some_iff.1 hfind)
    exact (if_neg (fun hempty => hne (List.isEmpty_iff.1 hempty))).symm

/-- A canonical storage is determined by its answers. -/
theorem ext (hs : s.Canonical) (ht : t.Canonical)
    (hget : ∀ address key, s.get address key = t.get address key) : s = t := by
  have hslots : ∀ address, s.slots address = t.slots address := by
    intro address
    apply SortedMap.ext_find?
    intro key
    apply Option.ext
    intro value
    rw [SortedMap.find?_eq_some_iff, SortedMap.find?_eq_some_iff, hs.mem_slots_iff,
      ht.mem_slots_iff, hget]
  have haccounts : s.accounts = t.accounts := by
    apply SortedMap.ext_find?
    intro address
    rw [hs.find?_accounts_eq, ht.find?_accounts_eq, hslots]
  cases s
  cases t
  exact congrArg Storage.mk haccounts

end Canonical

/-! ## Updates -/

/-- A slot and the value that it is set to. -/
structure Update where
  /-- The account. -/
  address : Address
  /-- The slot. -/
  key : Word
  /-- The new value. -/
  value : Word

/-- Sets a slot as an update says. -/
def update (s : Storage) (u : Update) : Storage :=
  s.set u.address u.key u.value

/-- The storage after some updates from an empty one, in order. -/
def ofUpdates (updates : List Update) : Storage :=
  updates.foldl update empty

/-- The value of the last update of a slot. -/
def lastValue? (updates : List Update) (address : Address) (key : Word) : Option Word :=
  (updates.reverse.find? fun u => u.address = address ∧ u.key = key).map Update.value

theorem ofUpdates_concat (updates : List Update) (u : Update) :
    ofUpdates (updates ++ [u]) = (ofUpdates updates).update u := by
  rw [ofUpdates, List.foldl_concat, ofUpdates]

theorem canonical_ofUpdates (updates : List Update) : (ofUpdates updates).Canonical := by
  induction updates using List.reverseRecOn with
  | nil => exact canonical_empty
  | append_singleton updates u ih =>
    rw [ofUpdates_concat]
    exact ih.set u.address u.key u.value

/-- The answer for a slot is the value of its last update. -/
theorem get_ofUpdates (updates : List Update) (address : Address) (key : Word) :
    (ofUpdates updates).get address key = (lastValue? updates address key).getD 0 := by
  induction updates using List.reverseRecOn with
  | nil => rfl
  | append_singleton updates u ih =>
    rw [ofUpdates_concat, update, get_set, lastValue?, List.reverse_concat, List.find?_cons]
    by_cases hslot : u.address = address ∧ u.key = key
    · rw [if_pos ⟨hslot.1.symm, hslot.2.symm⟩]
      simp [hslot]
    · rw [if_neg (fun h => hslot ⟨h.1.symm, h.2.symm⟩), ih, lastValue?]
      simp [hslot]

/-- Updates of two slots commute. -/
theorem Canonical.update_comm {s : Storage} (h : s.Canonical) {u w : Update}
    (hne : (u.address, u.key) ≠ (w.address, w.key)) :
    (s.update u).update w = (s.update w).update u := by
  refine ((h.set _ _ _).set _ _ _).ext ((h.set _ _ _).set _ _ _) ?_
  intro address key
  simp only [update, get_set]
  grind

/-- A storage is a total map with one form.  After any updates it answers for a slot with the
value of its last update, and with zero if there is none; an account has exactly the slots whose
answers are not zero, in ascending order of their numbers; no account without slots and no slot
that is zero is kept; and updates of two slots commute.  Two lists of updates with the same
answers lead to the same accounts. -/
theorem updates_canonical :
    (∀ updates : List Update,
      let s := ofUpdates updates
      (∀ address key, s.get address key = (lastValue? updates address key).getD 0) ∧
      (∀ address key value, (key, value) ∈ (s.slots address).entries ↔
        value ≠ 0 ∧ s.get address key = value) ∧
      (∀ address, (s.slots address).entries.Pairwise fun a b => a.1.toNat < b.1.toNat) ∧
      s.Canonical ∧
      ∀ u w : Update, (u.address, u.key) ≠ (w.address, w.key) →
        (s.update u).update w = (s.update w).update u) ∧
    ∀ updates others : List Update,
      (∀ address key, (ofUpdates updates).get address key = (ofUpdates others).get address key) →
        (ofUpdates updates).accounts = (ofUpdates others).accounts := by
  refine ⟨?_, ?_⟩
  · intro updates s
    have hs : s.Canonical := canonical_ofUpdates updates
    refine ⟨get_ofUpdates updates, fun _ _ _ => hs.mem_slots_iff, ?_, hs,
      fun u w hne => hs.update_comm hne⟩
    intro address
    refine (s.slots address).sorted.imp ?_
    intro a b hlt
    rwa [Word.compare_eq, Nat.compare_eq_lt] at hlt
  · intro updates others hget
    rw [(canonical_ofUpdates updates).ext (canonical_ofUpdates others) hget]

end Storage

end MeteredMachine
