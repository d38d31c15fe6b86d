import Mathlib.Tactic.IntervalCases
import MeteredMachine.Opcode.Basic
import MeteredMachine.Proofs.SignificantBytes
import MeteredMachine.Storage

/-!
# Limbs, bytes and order of words

A word can be given by its value, by four limbs with the lowest first, and by 32 bytes with the highest
first.  Each form determines the others, short byte strings stand for words as well, and the order of
words is the order of their values.  As the bytes come highest first, that is also the order of the byte
strings as in a dictionary; of limbs, which come lowest first, the like would be wrong.

Main results:

- Theorem {lit}`BigEndian.value_lt_value_iff`: byte strings of one length are in the order of their
  values.
- Theorems {lit}`Word.limbs_ofLimbs` and {lit}`Word.ofLimbs_limbs`: words and their limbs determine each
  other.
- Theorem {lit}`Word.lt_iff_toBytes`: words are in the order of their bytes.
- Theorem {lit}`Word.forms_agree` collects the laws of the three forms.
-/

namespace MeteredMachine

namespace BigEndian

/-- The higher of two digits decides, and where they agree, what stands below them. -/
theorem mul_add_lt_iff {x y low other place : Nat} (hlow : low < place) (hother : other < place) :
    x * place + low < y * place + other ↔ x < y ∨ x = y ∧ low < other := by
  rcases Nat.lt_trichotomy x y with hlt | rfl | hgt
  · have hmul : (x + 1) * place ≤ y * place := Nat.mul_le_mul_right place hlt
    rw [Nat.add_mul] at hmul
    omega
  · omega
  · have hmul : (y + 1) * place ≤ x * place := Nat.mul_le_mul_right place hgt
    rw [Nat.add_mul] at hmul
    omega

/-- Byte strings of one length are in the order of their values. -/
theorem value_lt_value_iff {a b : List UInt8} (hlength : a.length = b.length) :
    value a < value b ↔ a < b := by
  induction a generalizing b with
  | nil =>
    obtain rfl : b = [] := List.length_eq_zero_iff.1 hlength.symm
    simp
  | cons x a ih =>
    cases b with
    | nil => cases hlength
    | cons y b =>
      have hrest : a.length = b.length := Nat.succ.inj hlength
      -- Only because the rests have one length do the first bytes stand at the same place.
      have hlow := value_lt a
      rw [hrest] at hlow
      rw [value_cons, value_cons, hrest, mul_add_lt_iff hlow (value_lt b), List.cons_lt_cons_iff,
        ih hrest, UInt8.lt_iff_toNat_lt, UInt8.toNat_inj]

/-- Bytes that differ in leading zeros only are those with the same value. -/
theorem dropWhile_eq_iff (a b : List UInt8) :
    a.dropWhile (· == 0) = b.dropWhile (· == 0) ↔ value a = value b := by
  constructor
  · intro h
    rw [← value_dropWhile a, h, value_dropWhile]
  · intro h
    have hiff (count : Nat) :
        (a.dropWhile (· == 0)).length ≤ count ↔ (b.dropWhile (· == 0)).length ≤ count := by
      rw [length_dropWhile_le_iff, length_dropWhile_le_iff, h]
    have hlength : (a.dropWhile (· == 0)).length = (b.dropWhile (· == 0)).length :=
      Nat.le_antisymm ((hiff _).2 (Nat.le_refl _)) ((hiff _).1 (Nat.le_refl _))
    rw [← encode_value (a.dropWhile (· == 0)), ← encode_value (b.dropWhile (· == 0)), hlength,
      value_dropWhile, value_dropWhile, h]

end BigEndian

namespace Word

/-! ## Limbs -/

theorem get_limbs (w : Word) (i : Fin 4) : w.limbs.get i = w.limb i.val :=
  match i with
  | 0 | 1 | 2 | 3 => rfl

/-- The word of four limbs has these limbs. -/
theorem limbs_ofLimbs (limbs : Vector UInt64 4) : (ofLimbs limbs).limbs = limbs := by
  have h0 := limbs[0].toNat_lt
  have h1 := limbs[1].toNat_lt
  have h2 := limbs[2].toNat_lt
  have h3 := limbs[3].toNat_lt
  apply Vector.ext
  intro i hi
  have hlimb : (ofLimbs limbs).limbs[i] = (ofLimbs limbs).limb i := get_limbs _ ⟨i, hi⟩
  apply UInt64.toNat_inj.1
  rw [hlimb, toNat_limb, toNat_ofLimbs, valueOfLimbs_eq]
  interval_cases i <;> omega

/-- A word is the word of its limbs. -/
theorem ofLimbs_limbs (w : Word) : ofLimbs w.limbs = w := by
  have hlt := w.toNat_lt
  rw [modulus] at hlt
  have hlimb (i : Nat) (hi : i < 4) : w.limbs[i].toNat = w.toNat / 2 ^ (64 * i) % 2 ^ 64 := by
    rw [← toNat_limb]
    exact congrArg UInt64.toNat (w.get_limbs ⟨i, hi⟩)
  apply ext_toNat
  rw [toNat_ofLimbs, valueOfLimbs_eq, hlimb 0, hlimb 1, hlimb 2, hlimb 3]
  omega

/-- A limb holds the 64 bits at its place. -/
theorem testBit_limbs (w : Word) (i : Fin 4) {j : Nat} (hj : j < 64) :
    (w.limbs.get i).toNat.testBit j = w.toNat.testBit (64 * i.val + j) := by
  rw [get_limbs, toNat_limb, Nat.testBit_mod_two_pow, Nat.testBit_div_two_pow]
  simp [hj, Nat.add_comm]

/-! ## Bytes and order -/

/-- Byte strings of at most 32 bytes stand for one word exactly when they differ in leading zeros
only. -/
theorem ofBytes?_eq_iff {a b : List UInt8} (ha : a.length ≤ 32) (hb : b.length ≤ 32) :
    ofBytes? a = ofBytes? b ↔ a.dropWhile (· == 0) = b.dropWhile (· == 0) := by
  rw [ofBytes?_of_le ha, ofBytes?_of_le hb, Except.ok.injEq, ← toNat_inj, toNat_ofBytes_of_le ha,
    toNat_ofBytes_of_le hb, BigEndian.dropWhile_eq_iff]

/-- Words are in the order of their bytes. -/
theorem lt_iff_toBytes (a b : Word) : a < b ↔ a.toBytes < b.toBytes := by
  rw [lt_iff, ← value_toBytes a, ← value_toBytes b]
  exact BigEndian.value_lt_value_iff (by rw [length_toBytes, length_toBytes])

theorem toBytes_inj {a b : Word} : a.toBytes = b.toBytes ↔ a = b := by
  refine ⟨?_, congrArg toBytes⟩
  intro h
  rw [← ofBytes_toBytes a, h, ofBytes_toBytes]

theorem compare_eq_lt_iff (a b : Word) : compare a b = .lt ↔ a.toBytes < b.toBytes := by
  rw [compare_eq, Nat.compare_eq_lt, ← lt_iff, lt_iff_toBytes]

/-- Sorted words are in the order of their bytes. -/
theorem pairwise_mergeSort (words : List Word) :
    (words.mergeSort fun a b => (compare a b).isLE).Pairwise fun a b => a.toBytes ≤ b.toBytes := by
  have hle (a b : Word) : (compare a b).isLE = true ↔ a.toNat ≤ b.toNat := by
    rw [compare_eq, Nat.isLE_compare]
  have hsorted : (words.mergeSort fun a b => (compare a b).isLE).Pairwise
      fun a b => (compare a b).isLE = true := by
    apply List.pairwise_mergeSort
    · intro a b c hab hbc
      rw [hle] at hab hbc ⊢
      exact Nat.le_trans hab hbc
    · intro a b
      rw [Bool.or_eq_true, hle, hle]
      exact Nat.le_total _ _
  refine hsorted.imp ?_
  intro a b hab hlt
  rw [hle] at hab
  rw [← lt_iff_toBytes, lt_iff] at hlt
  exact Nat.not_lt.2 hab hlt

/-- Value, limbs and bytes of a word determine each other.  Words and strings of 32 bytes correspond one to
one; a shorter string stands for the word whose bytes are zeros and that string, so that leading zeros do
not count and nothing else does, and a longer string is refused with its length.  Words and four limbs
correspond one to one, and a limb holds the 64 bits at its place.  The order of words is the order of their
values and of their bytes as in a dictionary; instructions that compare, the keys of a storage and
sorting go by it. -/
theorem forms_agree :
    (∀ w : Word, w.toBytes.length = 32 ∧ ofBytes w.toBytes = w) ∧
      (∀ bytes : List UInt8, bytes.length = 32 → (ofBytes bytes).toBytes = bytes) ∧
      (∀ bytes : List UInt8, bytes.length ≤ 32 → ∃ w, ofBytes? bytes = .ok w ∧
        w.toBytes = List.replicate (32 - bytes.length) 0 ++ bytes) ∧
      (∀ bytes : List UInt8, 32 < bytes.length →
        ofBytes? bytes = .error (.wrongLength 32 bytes.length)) ∧
      (∀ a b : List UInt8, a.length ≤ 32 → b.length ≤ 32 →
        (ofBytes? a = ofBytes? b ↔ a.dropWhile (· == 0) = b.dropWhile (· == 0))) ∧
      (∀ w : Word, ofLimbs w.limbs = w) ∧
      (∀ limbs : Vector UInt64 4, (ofLimbs limbs).limbs = limbs) ∧
      (∀ (w : Word) (i : Fin 4), ∀ j < 64,
        (w.limbs.get i).toNat.testBit j = w.toNat.testBit (64 * i.val + j)) ∧
      (∀ a b : Word, compare a b = compare a.toNat b.toNat ∧
        (compare a b = .lt ↔ a.toBytes < b.toBytes) ∧ (compare a b = .eq ↔ a.toBytes = b.toBytes) ∧
        BinaryOp.lt.apply a b = ofBool (a.toBytes < b.toBytes) ∧
        BinaryOp.gt.apply a b = ofBool (b.toBytes < a.toBytes)) ∧
      (∀ (s : Storage) (address : Address),
        (s.slots address).entries.Pairwise fun a b => a.1.toBytes < b.1.toBytes) ∧
      ∀ words : List Word, (words.mergeSort fun a b => (compare a b).isLE).Pairwise
        fun a b => a.toBytes ≤ b.toBytes := by
  refine ⟨fun w => ⟨w.length_toBytes, w.ofBytes_toBytes⟩, ?_, ?_, fun bytes hlt => if_pos hlt,
    fun a b => ofBytes?_eq_iff, ofLimbs_limbs, limbs_ofLimbs, fun w i j => w.testBit_limbs i, ?_, ?_,
    pairwise_mergeSort⟩
  · intro bytes hlength
    have hbytes := toBytes_ofBytes (Nat.le_of_eq hlength)
    rwa [hlength, Nat.sub_self, List.replicate_zero, List.nil_append] at hbytes
  · intro bytes hle
    exact ⟨ofBytes bytes, ofBytes?_of_le hle, toBytes_ofBytes hle⟩
  · intro a b
    have happly (a b : Word) : ofBool (a < b) = ofBool (a.toBytes < b.toBytes) :=
      congrArg ofBool (decide_eq_decide.2 (lt_iff_toBytes a b))
    refine ⟨compare_eq a b, compare_eq_lt_iff a b, ?_, happly a b, happly b a⟩
    rw [toBytes_inj]
    exact Std.LawfulEqOrd.compare_eq_iff_eq
  · intro s address
    refine (s.slots address).sorted.imp ?_
    intro a b hlt
    exact (compare_eq_lt_iff _ _).1 hlt

end Word

end MeteredMachine
