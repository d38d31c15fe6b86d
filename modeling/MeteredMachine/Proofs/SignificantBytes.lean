import Mathlib.Algebra.BigOperators.Fin
import MeteredMachine.Proofs.PlaceValue
import MeteredMachine.Proofs.Pricing

/-!
# Limbs and significant bytes

The measures of a word are found by looking through its limbs from the top, limb by limb, and within
the first limb that is not zero.  What they measure is the value: the position of its highest bit, the
number of its bytes, the price of an exponentiation and whether it fits a host size.  The bytes that
count are those behind the leading zeros of the big-endian bytes.

Main results:

- Definition {lit}`Word.valueOfLimbs` is the value of four limbs, and theorem
  {lit}`Word.toNat_ofLimbs` says that their word has it.
- Theorem {lit}`BigEndian.length_dropWhile_le_iff`: the bytes behind leading zeros are the fewest that
  hold the value.
- Theorem {lit}`Word.length_significant`: as many bytes stand behind the leading zeros of a word as its
  value takes.
- Theorem {lit}`Word.measures_exact` says what every measure is for all limbs.
-/

namespace MeteredMachine

/-! ## Leading zeros -/

namespace BigEndian

/-- Leading zeros do not count. -/
theorem value_dropWhile (bytes : List UInt8) : value (bytes.dropWhile (· == 0)) = value bytes := by
  induction bytes with
  | nil => rfl
  | cons byte rest ih =>
    rw [List.dropWhile_cons]
    split
    next hzero =>
      have hbyte : byte = 0 := by simpa using hzero
      rw [ih, value_cons, hbyte]
      simp
    next => rfl

/-- A first byte that is not zero makes the value as large as its place. -/
theorem pow_le_value_cons {byte : UInt8} (hbyte : byte ≠ 0) (rest : List UInt8) :
    256 ^ rest.length ≤ value (byte :: rest) := by
  have hpos : 0 < byte.toNat := Nat.pos_of_ne_zero fun h => hbyte (UInt8.toNat.inj h)
  calc
    256 ^ rest.length ≤ byte.toNat * 256 ^ rest.length := Nat.le_mul_of_pos_left _ hpos
    _ ≤ value (byte :: rest) := by
      rw [value_cons]
      exact Nat.le_add_right _ _

/-- The bytes behind leading zeros are the fewest that hold the value. -/
theorem length_dropWhile_le_iff (bytes : List UInt8) (count : Nat) :
    (bytes.dropWhile (· == 0)).length ≤ count ↔ value bytes < 256 ^ count := by
  constructor
  · intro hle
    rw [← value_dropWhile]
    exact Nat.lt_of_lt_of_le (value_lt _) (Nat.pow_le_pow_right (by decide) hle)
  · intro hlt
    rw [← value_dropWhile] at hlt
    cases hrest : bytes.dropWhile (· == 0) with
    | nil => exact Nat.zero_le _
    | cons byte rest =>
      have hbyte : byte ≠ 0 := by
        have hhead := List.head?_dropWhile_not (· == (0 : UInt8)) bytes
        simpa [hrest] using hhead
      rw [hrest] at hlt
      have hpow := Nat.lt_of_le_of_lt (pow_le_value_cons hbyte rest) hlt
      exact (Nat.pow_lt_pow_iff_right (by decide)).1 hpow

end BigEndian

namespace Word

/-! ## Limbs -/

/-- The value of four limbs, lowest first. -/
def valueOfLimbs (limbs : Vector UInt64 4) : Nat :=
  ∑ i : Fin 4, limbs[i].toNat * 2 ^ (64 * i.val)

theorem valueOfLimbs_eq (limbs : Vector UInt64 4) :
    valueOfLimbs limbs =
      limbs[0].toNat + limbs[1].toNat * 2 ^ 64 + limbs[2].toNat * 2 ^ 128 +
        limbs[3].toNat * 2 ^ 192 := by
  rw [valueOfLimbs, Fin.sum_univ_four]
  simp

theorem toList_limbs_eq (limbs : Vector UInt64 4) :
    limbs.toList = [limbs[0], limbs[1], limbs[2], limbs[3]] := by
  obtain ⟨⟨list⟩, hlength⟩ := limbs
  match list, hlength with
  | [_, _, _, _], _ => rfl

/-- The word of four limbs has their value. -/
theorem toNat_ofLimbs (limbs : Vector UInt64 4) :
    (ofLimbs limbs).toNat = valueOfLimbs limbs := by
  have h0 := limbs[0].toNat_lt
  have h1 := limbs[1].toNat_lt
  have h2 := limbs[2].toNat_lt
  have h3 := limbs[3].toNat_lt
  rw [valueOfLimbs_eq, ofLimbs, toList_limbs_eq, toNat_ofNat, modulus]
  simp only [List.foldr_cons, List.foldr_nil, UInt64.size]
  omega

/-! ## Significant bytes -/

/-- The bytes of a word behind its leading zeros. -/
def significant (w : Word) : List UInt8 :=
  w.toBytes.dropWhile (· == 0)

theorem value_toBytes (w : Word) : BigEndian.value w.toBytes = w.toNat := by
  rw [← toNat_ofBytes w.length_toBytes, ofBytes_toBytes]

theorem length_significant (w : Word) : w.significant.length = w.byteLength := by
  have hiff (count : Nat) : w.significant.length ≤ count ↔ w.byteLength ≤ count := by
    rw [significant, BigEndian.length_dropWhile_le_iff, value_toBytes, toNat_lt_pow_iff]
  exact Nat.le_antisymm ((hiff _).2 (Nat.le_refl _)) ((hiff _).1 (Nat.le_refl _))

/-- The bytes of a word are its leading zeros and its significant bytes. -/
theorem byteLength_add_leading (w : Word) :
    w.byteLength + (w.toBytes.takeWhile (· == 0)).length = 32 := by
  have hsplit : w.toBytes.takeWhile (· == 0) ++ w.significant = w.toBytes :=
    List.takeWhile_append_dropWhile
  have hlength := congrArg List.length hsplit
  rw [List.length_append, length_significant, length_toBytes] at hlength
  omega

/-- At most 32 bytes are accepted. -/
theorem ofBytes?_of_le {bytes : List UInt8} (h : bytes.length ≤ 32) :
    ofBytes? bytes = .ok (ofBytes bytes) :=
  if_neg (Nat.not_lt.2 h)

/-- The significant bytes of a word stand for it. -/
theorem ofBytes?_significant (w : Word) : ofBytes? w.significant = .ok w := by
  have hle : w.significant.length ≤ 32 := by
    rw [length_significant]
    exact w.byteLength_le
  rw [ofBytes?_of_le hle, ofBytes, significant, BigEndian.value_dropWhile, value_toBytes,
    ofNat_toNat]

/-- A larger value does not take fewer bytes. -/
theorem byteLength_mono {a b : Word} (h : a.toNat ≤ b.toNat) : a.byteLength ≤ b.byteLength := by
  rw [← toNat_lt_pow_iff]
  exact Nat.lt_of_le_of_lt h ((b.toNat_lt_pow_iff _).2 (Nat.le_refl _))

/-- The measures of a word measure the value of its limbs.  The highest set bit is the logarithm of the
value to base two, rounded down, and zero for zero.  The number of bytes is the least that holds the value;
so many bytes stand behind the leading zeros of the word, and they alone stand for it.  The price of an
exponentiation is ten and fifty for each byte of the exponent, and neither falls when the value grows.
A word is a host size exactly when its value fits 64 bits, and then it is that value. -/
theorem measures_exact (limbs : Vector UInt64 4) :
    let w := ofLimbs limbs
    let x := valueOfLimbs limbs
    (0 < x → 2 ^ w.highestSetBit ≤ x ∧ x < 2 ^ (w.highestSetBit + 1)) ∧
      (x = 0 → w.highestSetBit = 0) ∧
      IsLeast {count | x < 256 ^ count} w.byteLength ∧
      w.byteLength + (w.toBytes.takeWhile (· == 0)).length = 32 ∧
      w.significant.length = w.byteLength ∧ ofBytes? w.significant = .ok w ∧
      (expGas w).toNat = 10 + 50 * w.byteLength ∧
      10 ≤ (expGas w).toNat ∧ (expGas w).toNat ≤ 1610 ∧
      (∀ n, w.toSize? = some n ↔ x < 2 ^ 64 ∧ n = x) ∧
      ∀ others : Vector UInt64 4, x ≤ valueOfLimbs others →
        w.byteLength ≤ (ofLimbs others).byteLength ∧ expGas w ≤ expGas (ofLimbs others) := by
  intro w x
  have hvalue : w.toNat = x := toNat_ofLimbs limbs
  have hbytes := w.byteLength_le
  have hgas := toNat_expGas w
  refine ⟨?_, ?_, ?_, w.byteLength_add_leading, w.length_significant, w.ofBytes?_significant, hgas,
    by omega, by omega, ?_, ?_⟩
  · intro hpos
    rw [highestSetBit_eq_log2, hvalue]
    exact ⟨Nat.log2_self_le (Nat.ne_of_gt hpos), Nat.lt_log2_self⟩
  · intro hzero
    rw [highestSetBit_eq_log2, hvalue, hzero]
    rfl
  · rw [← hvalue]
    exact w.isLeast_byteLength
  · intro n
    rw [toSize?_eq, hvalue]
    by_cases hlt : x < sizeLimit
    · rw [if_pos hlt, Option.some_inj]
      exact ⟨fun h => ⟨hlt, h.symm⟩, fun h => h.2.symm⟩
    · rw [if_neg hlt]
      exact ⟨fun h => absurd h (by simp), fun h => absurd h.1 hlt⟩
  · intro others hle
    have hmono : w.byteLength ≤ (ofLimbs others).byteLength :=
      byteLength_mono (by rwa [hvalue, toNat_ofLimbs])
    refine ⟨hmono, ?_⟩
    rw [UInt64.le_iff_toNat_le, hgas, toNat_expGas]
    omega

-- The second limb decides: the value is just above 64 bits, and the lowest limb does not count.
example :
    let w := ofLimbs #v[0xffffffffffffffff, 1, 0, 0]
    w.highestSetBit = 64 ∧ w.byteLength = 9 ∧ w.toSize? = none ∧ expGas w = 460 := by
  decide +kernel

end Word

end MeteredMachine
