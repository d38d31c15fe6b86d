import MeteredMachine.Proofs.PlaceValue
import MeteredMachine.Proofs.Pricing

/-!
# Memory as a map of bytes

Memory stands for a map from all addresses to bytes, which is zero where memory ends.  Covering a
range grows memory and does not change the map, reading a range gives the map there, and writing
changes the map on the written range and nowhere else.

Main results:

- Definition {lit}`Memory.byteAt` is the map.
- Theorems {lit}`Memory.byteAt_cover`, {lit}`Memory.byteAt_store` and {lit}`Memory.value_load` say
  what growing, writing and reading mean for it.
- Theorem {lit}`Memory.size_cover_eq_max`: memory grows to whole words behind a range.
-/

namespace MeteredMachine

namespace Memory

/-- The byte at an address, which is zero where memory ends. -/
def byteAt (m : Memory) (address : Nat) : UInt8 :=
  m.bytes[address]?.getD 0

variable (m : Memory) (offset : Nat)

/-- Whole words behind a range that memory covers already are covered too. -/
theorem size_cover_eq_max {m : Memory} {length : Nat} (haligned : 32 ∣ m.size)
    (hlength : length ≠ 0) :
    (m.cover offset length).size = max m.size (32 * ((offset + length + 31) / 32)) := by
  obtain ⟨words, hwords⟩ := haligned
  rw [size_cover, wordsFor]
  split <;> omega

theorem le_size_cover {length : Nat} (hlength : length ≠ 0) :
    offset + length ≤ (m.cover offset length).size := by
  rw [size_cover, wordsFor]
  split <;> omega

/-- Growing memory adds zeros, which were read there before. -/
@[simp] theorem byteAt_cover (length address : Nat) :
    (m.cover offset length).byteAt address = m.byteAt address := by
  unfold cover
  split
  next =>
    unfold byteAt
    rw [Array.getElem?_append]
    split
    next => rfl
    next hge =>
      have hend : m.bytes[address]? = none := Array.getElem?_eq_none (by omega)
      rw [hend, Array.getElem?_replicate]
      split <;> rfl
  next => rfl

theorem getElem?_overwrite {bytes : Array UInt8} {source : List UInt8} {position : Nat}
    (hfits : position + source.length ≤ bytes.size) (address : Nat) :
    (overwrite bytes position source)[address]? =
      if position ≤ address ∧ address < position + source.length then source[address - position]?
      else bytes[address]? := by
  induction source generalizing bytes position with
  | nil => simp [overwrite]
  | cons byte rest ih =>
    simp only [List.length_cons] at hfits ⊢
    rw [overwrite, ih (by simp; omega), Array.getElem?_setIfInBounds]
    by_cases hfirst : address = position
    · have hlt : position < bytes.size := by omega
      simp [hfirst, hlt]
    · by_cases hin : position ≤ address ∧ address < position + (rest.length + 1)
      · have hrest : position + 1 ≤ address ∧ address < position + 1 + rest.length := by omega
        have hindex : address - position = address - (position + 1) + 1 := by omega
        rw [if_pos hin, if_pos hrest, hindex, List.getElem?_cons_succ]
      · have hrest : ¬ (position + 1 ≤ address ∧ address < position + 1 + rest.length) := by omega
        rw [if_neg hin, if_neg hrest, if_neg (fun h => hfirst h.symm)]

/-- Writing changes the bytes of the written range and no others. -/
theorem byteAt_store (source : List UInt8) (address : Nat) :
    (m.store offset source).byteAt address =
      if offset ≤ address ∧ address < offset + source.length then
        source[address - offset]?.getD 0
      else m.byteAt address := by
  cases source with
  | nil =>
    rw [if_neg (by simp)]
    exact byteAt_cover m offset 0 address
  | cons byte rest =>
    have hne : (byte :: rest).length ≠ 0 := by simp
    have hfits := m.le_size_cover offset hne
    rw [byteAt, store, getElem?_overwrite hfits]
    split
    next => rfl
    next => exact byteAt_cover m offset _ address

theorem byteAt_storeWord (w : Word) (address : Nat) :
    (m.storeWord offset w).byteAt address =
      if offset ≤ address ∧ address < offset + 32 then
        UInt8.ofNat (w.toNat / 256 ^ (31 - (address - offset)))
      else m.byteAt address := by
  rw [storeWord, byteAt_store, Word.length_toBytes]
  split
  next hin =>
    have hindex : address - offset < 32 := by omega
    rw [Word.toBytes, Word.byteCount, BigEndian.getElem?_encode hindex, Option.getD_some]
  next => rfl

theorem byteAt_storeByte (byte : UInt8) (address : Nat) :
    (m.storeByte offset byte).byteAt address =
      if address = offset then byte else m.byteAt address := by
  rw [storeByte, byteAt_store, List.length_singleton]
  by_cases hsame : address = offset
  · simp [hsame]
  · rw [if_neg hsame, if_neg (by omega)]

/-- Reading a range gives its bytes. -/
theorem value_load (length : Nat) :
    (m.load offset length).value = (List.range length).map fun i => m.byteAt (offset + i) := by
  by_cases hzero : length = 0
  · simp [load, hzero]
  · have hfits := m.le_size_cover offset hzero
    rw [size] at hfits
    apply List.ext_getElem
    · simp [load]
      omega
    · intro i hi hi'
      have hlt : offset + i < (m.cover offset length).bytes.size := by
        simp at hi'
        omega
      have hbyte := m.byteAt_cover offset length (offset + i)
      rw [byteAt, Array.getElem?_eq_getElem hlt, Option.getD_some] at hbyte
      simpa [load] using hbyte

end Memory

end MeteredMachine
