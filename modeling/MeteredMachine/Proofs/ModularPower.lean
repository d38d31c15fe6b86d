import Mathlib.Data.Nat.Size
import MeteredMachine.Proofs.WordArithmetic

/-!
# Exponentiation by squaring

Exponentiation runs a loop over three words: the result so far, a base that is squared from round
to round, and an exponent of which the lowest bit is looked at and then dropped.  The loop goes on
while the exponent is not zero.  All three words wrap, so neither that it ends nor what it ends
with can be read off any one round.

Main results:

- Type {lit}`Word.SquaringLoop` holds the runs of the loop, round by round.
- Theorem {lit}`Word.squaringLoop_iff`: from every start there is exactly one run, with one round
  for each bit of the exponent, and it ends with the power.
- Theorems {lit}`Word.pow_add_of_lt` and {lit}`Word.pow_pow_of_lt`: powers of one base multiply and
  nest as long as their exponents do not wrap.
- Theorem {lit}`Word.pow_modular` puts these together.
-/

namespace MeteredMachine

namespace Word

/-! ## The loop -/

/-- The lowest bit of a word. -/
def lowBit (w : Word) : Bool :=
  w.toBitVec.getLsbD 0

/-- A word shifted to the right by one bit. -/
def half (w : Word) : Word :=
  ⟨w.toBitVec >>> 1⟩

/-- The runs of the loop from a result, a base and an exponent, with the number of rounds and the
result at the end. -/
inductive SquaringLoop : Nat → Word → Word → Word → Word → Prop where
  /-- No round is taken once the exponent is zero. -/
  | done (result base : Word) : SquaringLoop 0 result base 0 result
  /-- A round multiplies the result if the lowest bit is set, squares the base and drops the bit. -/
  | round {rounds : Nat} {result base exponent final : Word} (hne : exponent ≠ 0)
    (rest : SquaringLoop rounds (if exponent.lowBit then result * base else result) (base * base)
      exponent.half final) :
    SquaringLoop (rounds + 1) result base exponent final

/-- The lowest bit says whether the value is odd. -/
theorem lowBit_eq_true_iff (w : Word) : w.lowBit = true ↔ w.toNat % 2 = 1 := by
  rw [lowBit, BitVec.getLsbD, Nat.testBit_zero, decide_eq_true_iff]
  rfl

/-- Dropping the lowest bit halves the value. -/
theorem toNat_half (w : Word) : w.half.toNat = w.toNat / 2 := by
  simp [half, toNat, Nat.shiftRight_eq_div_pow]

/-- Half of a number has one bit less. -/
theorem size_eq_size_half_add_one {n : Nat} (hne : n ≠ 0) : n.size = (n / 2).size + 1 := by
  have hbit : Nat.bit n.bodd n.div2 = n := Nat.bit_bodd_div2 n
  have hsize := Nat.size_bit (hbit.symm ▸ hne)
  rwa [hbit, Nat.div2_val] at hsize

/-- The loop of an exponent that fits so many bits ends, with one round for each bit that it has. -/
theorem squaringLoop_powLoop {rounds : Nat} {exponent : Word} (hlt : exponent.toNat < 2 ^ rounds)
    (result base : Word) :
    SquaringLoop exponent.toNat.size result base exponent
      (powLoop rounds result base exponent.toNat) := by
  induction rounds generalizing exponent result base with
  | zero =>
    have hzero : exponent = 0 := (eq_zero_iff exponent).2 (by omega)
    subst hzero
    exact .done result base
  | succ rounds ih =>
    by_cases hzero : exponent = 0
    · subst hzero
      exact .done result base
    · have hne : exponent.toNat ≠ 0 := fun h => hzero ((eq_zero_iff exponent).2 h)
      have hhalf : exponent.half.toNat < 2 ^ rounds := by
        rw [pow_succ] at hlt
        rw [toNat_half]
        omega
      rw [powLoop, if_neg hne, size_eq_size_half_add_one hne, ← toNat_half]
      simp only [← lowBit_eq_true_iff]
      exact .round hzero (ih hhalf _ _)

/-- Two runs of the loop from the same start take the same rounds to the same end. -/
theorem SquaringLoop.unique {rounds rounds' : Nat} {result base exponent final final' : Word}
    (h : SquaringLoop rounds result base exponent final)
    (h' : SquaringLoop rounds' result base exponent final') :
    rounds = rounds' ∧ final = final' := by
  induction h generalizing rounds' with
  | done =>
    cases h' with
    | done => exact ⟨rfl, rfl⟩
    | round hne => exact absurd rfl hne
  | round hne _ ih =>
    cases h' with
    | done => exact absurd rfl hne
    | round _ rest' =>
      obtain ⟨rfl, rfl⟩ := ih rest'
      exact ⟨rfl, rfl⟩

/-- The loop runs in exactly one way, and it ends with the power. -/
theorem squaringLoop_iff (base exponent final : Word) (rounds : Nat) :
    SquaringLoop rounds 1 base exponent final ↔
      rounds = exponent.toNat.size ∧ final = base.pow exponent := by
  have hlt : exponent.toNat < 2 ^ 256 := exponent.toNat_lt
  have hrun := squaringLoop_powLoop hlt 1 base
  constructor
  · intro h
    exact h.unique hrun
  · rintro ⟨rfl, rfl⟩
    exact hrun

/-! ## Laws of powers -/

theorem pow_zero_eq_one (base : Word) : base.pow 0 = 1 := by
  apply ext_toNat
  rw [toNat_pow, toNat_zero, pow_zero, toNat_one]
  decide

/-- Powers of one base multiply, unless the sum of the exponents wraps. -/
theorem pow_add_of_lt {e f : Word} (hlt : e.toNat + f.toNat < 2 ^ 256) (base : Word) :
    base.pow (e + f) = base.pow e * base.pow f := by
  have hsum : (e + f).toNat = e.toNat + f.toNat := by
    rw [toNat_add]
    exact Nat.mod_eq_of_lt hlt
  apply ext_toNat
  rw [toNat_mul, toNat_pow, toNat_pow, toNat_pow, hsum, pow_add]
  exact Nat.mul_mod _ _ _

/-- A power of a power multiplies the exponents, unless their product wraps. -/
theorem pow_pow_of_lt {e f : Word} (hlt : e.toNat * f.toNat < 2 ^ 256) (base : Word) :
    (base.pow e).pow f = base.pow (e * f) := by
  have hproduct : (e * f).toNat = e.toNat * f.toNat := by
    rw [toNat_mul]
    exact Nat.mod_eq_of_lt hlt
  apply ext_toNat
  rw [toNat_pow, toNat_pow, toNat_pow, hproduct, pow_mul]
  exact (Nat.pow_mod _ _ _).symm

/-- Exponentiation is modular.  The loop ends after at most 256 rounds and in no other way than with
the power; the power is that of the values, counted modulo `2 ^ 256`, so that a power with exponent
zero is one; and powers of one base multiply and nest as long as the exponents do not wrap. -/
theorem pow_modular (a e : Word) :
    (∃ rounds, rounds ≤ 256 ∧
        ∀ n final, SquaringLoop n 1 a e final ↔ n = rounds ∧ final = a.pow e) ∧
      (a.pow e).toNat = a.toNat ^ e.toNat % 2 ^ 256 ∧ a.pow 0 = 1 ∧
      ∀ f : Word,
        (e.toNat + f.toNat ≤ 2 ^ 256 - 1 → a.pow (e + f) = a.pow e * a.pow f) ∧
          (e.toNat * f.toNat ≤ 2 ^ 256 - 1 → (a.pow e).pow f = a.pow (e * f)) := by
  refine ⟨⟨e.toNat.size, ?_, ?_⟩, toNat_pow a e, pow_zero_eq_one a, ?_⟩
  · exact Nat.size_le.2 e.toNat_lt
  · intro n final
    exact squaringLoop_iff a e final n
  · intro f
    constructor
    · intro hle
      exact pow_add_of_lt (by omega) a
    · intro hle
      exact pow_pow_of_lt (by omega) a

/-- Exponents of which the sum and the product just fit, for a base that wraps on the way. -/
theorem pow_modular_of_half_words :
    let a : Word := .ofNat (2 ^ 255 + 3)
    let e : Word := .ofNat (2 ^ 128)
    let f : Word := .ofNat (2 ^ 127)
    e.toNat * f.toNat = 2 ^ 255 ∧ a.pow (e + f) = a.pow e * a.pow f ∧
      (a.pow e).pow f = a.pow (e * f) ∧
      ∃ rounds, rounds ≤ 256 ∧ SquaringLoop rounds 1 a e (a.pow e) := by
  intro a e f
  have hsum : e.toNat + f.toNat ≤ 2 ^ 256 - 1 := by decide +kernel
  have hproduct : e.toNat * f.toNat = 2 ^ 255 := by decide +kernel
  obtain ⟨⟨rounds, hle, hruns⟩, _, _, hlaws⟩ := pow_modular a e
  obtain ⟨hadd, hnest⟩ := hlaws f
  exact ⟨hproduct, hadd hsum, hnest (by rw [hproduct]; decide), rounds, hle,
    (hruns _ _).2 ⟨rfl, rfl⟩⟩

end Word

end MeteredMachine
