import MeteredMachine.Proofs.GuardedParts

/-!
# A meter under the calls of a host

A host charges a meter and adjusts its refund counter in any order and by any amounts.  Gas only
moves from the remaining to the spent side, so the two keep making up the limit: a charge is
accepted exactly when it fits beside the charges that were accepted before it, and no 64-bit
number leaves its range.  The refund counter is a sum of its own that stops at the ends of its
range.

Main results:

- Definitions {lit}`Meter.charged` and {lit}`Meter.refundTotal` are the sums that a host would keep.
- Definition {lit}`Guarded.meterCall` is a call in place, where sums and differences may trap.
- Theorem {lit}`Meter.Whole.call`: what one call does to a meter.
- Theorem {lit}`Meter.Whole.mapM_call`: what any sequence of calls does to it.
- Theorem {lit}`Meter.calls_keep_account` puts these together for a fresh meter.
-/

namespace MeteredMachine

/-! ## Sums of a host -/

namespace Meter

namespace Command

/-- The gas that a command takes: the cost of a charge that did not fail. -/
def taken : Command → Option Fault → Nat
  | charge cost, none => cost.toNat
  | _, _ => 0

/-- A refund counter behind a command: a sum that stops at the ends of the 64-bit integers. -/
def count (total : Int) : Command → Int
  | charge _ => total
  | refund delta => max (-2 ^ 63) (min (2 ^ 63 - 1) (total + delta.toInt))

end Command

/-- The sum of the charges that did not fail, among commands and their faults. -/
def charged (commands : List Command) (faults : List (Option Fault)) : Nat :=
  (List.zipWith Command.taken commands faults).sum

/-- The refunds of some commands, added up from left to right. -/
def refundTotal (total : Int) (commands : List Command) : Int :=
  commands.foldl Command.count total

end Meter

/-! ## Calls in place -/

/-- A call on a meter of a host; a charge books the two sides one after the other. -/
def Guarded.meterCall : Meter.Command → StateT Meter Option (Option Fault)
  | .charge cost => do
    let meter ← get
    if cost > meter.remaining then pure (some .outOfGas)
    else do
      let remaining ← sub? meter.remaining.toNat cost.toNat
      set { meter with remaining := .ofNat remaining }
      let spent ← add? UInt64.size meter.spent.toNat cost.toNat
      modify fun booked => { booked with spent := .ofNat spent }
      pure none
  | .refund delta => do
    modify (·.refund delta)
    pure none

namespace Meter

/-- A command as a call on a meter. -/
def call (c : Command) : StateM Meter (Option Fault) := fun meter =>
  let performed := meter.perform c
  (performed.fault?, performed.meter)

/-! ## One call -/

/-- A meter with the given limit, which its remaining and its spent gas make up. -/
structure Whole (limit : UInt64) (meter : Meter) : Prop where
  limit_eq : meter.limit = limit
  sum_eq : meter.remaining.toNat + meter.spent.toNat = limit.toNat

variable {limit : UInt64} {meter : Meter}

theorem whole_ofLimit (limit : UInt64) : (ofLimit limit).Whole limit :=
  ⟨rfl, Nat.add_zero _⟩

theorem Whole.fits (h : meter.Whole limit) :
    meter.remaining.toNat + meter.spent.toNat < UInt64.size :=
  h.sum_eq ▸ limit.toNat_lt

theorem toInt_clamp (n : Int) : (clamp n).toInt = max (-2 ^ 63) (min (2 ^ 63 - 1) n) := by
  rw [clamp, Int64.toInt_minValue, Int64.toInt_maxValue]
  exact Int64.toInt_ofInt_of_le (by omega) (by omega)

/-- A charge is booked if it is within the remaining gas, and leaves the meter alone otherwise. -/
theorem run_call_charge (meter : Meter) (cost : UInt64) :
    (call (.charge cost)).run meter =
      if cost.toNat ≤ meter.remaining.toNat then
        (none, { meter with remaining := meter.remaining - cost, spent := meter.spent + cost })
      else (some .outOfGas, meter) := by
  split
  next hle => simp only [StateT.run, call, perform, charge_of_le hle]
  next hgt => simp only [StateT.run, call, perform, charge_of_lt (Nat.lt_of_not_le hgt)]

/-- A call takes what its command takes from the remaining to the spent gas, and counts its
refund. -/
structure Moves (c : Command) (fault? : Option Fault) (before after : Meter) : Prop where
  limit : after.limit = before.limit
  remaining : after.remaining.toNat + c.taken fault? = before.remaining.toNat
  spent : after.spent.toNat = before.spent.toNat + c.taken fault?
  refunded : after.refunded.toInt = c.count before.refunded.toInt

namespace Whole

variable (h : meter.Whole limit)

include h

theorem moves_call (c : Command) :
    Moves c ((call c).run meter).1 meter ((call c).run meter).2 := by
  cases c with
  | refund delta => exact ⟨rfl, rfl, rfl, toInt_clamp _⟩
  | charge cost =>
    rw [run_call_charge]
    split
    next hle =>
      have hcharge := charge_of_le hle
      exact ⟨rfl, toNat_remaining_of_charge hcharge, toNat_spent_of_charge h.fits hcharge, rfl⟩
    next => exact ⟨rfl, rfl, rfl, rfl⟩

theorem call (c : Command) : ((Meter.call c).run meter).2.Whole limit := by
  have hmoves := h.moves_call c
  refine ⟨hmoves.limit.trans h.limit_eq, ?_⟩
  have hsum := h.sum_eq
  have hremaining := hmoves.remaining
  rw [hmoves.spent]
  omega

/-- A call in place does not trap, and a charge that fails finds the meter as it was. -/
theorem meterCall_eq (c : Command) :
    (Guarded.meterCall c).run meter = some ((Meter.call c).run meter) := by
  cases c with
  | refund delta => rfl
  | charge cost =>
    have hget (k : Meter → StateT Meter Option (Option Fault)) :
        (get >>= k : StateT Meter Option (Option Fault)).run meter = (k meter).run meter := rfl
    rw [run_call_charge, Guarded.meterCall, hget]
    split
    next hgt =>
      have hlt := UInt64.lt_iff_toNat_lt.1 hgt
      rw [if_neg (Nat.not_le.2 hlt)]
      rfl
    next hle =>
      have hcost : cost.toNat ≤ meter.remaining.toNat :=
        UInt64.le_iff_toNat_le.1 (UInt64.not_lt.1 hle)
      have hspent : meter.spent.toNat + cost.toNat < UInt64.size := by
        have hfits := h.fits
        omega
      rw [if_pos hcost, Guarded.sub?_of_le hcost, Guarded.add?_of_lt hspent,
        ← Guarded.ofNat_sub_toNat hcost, ← UInt64.ofNat_toNat (x := meter.spent + cost),
        UInt64.toNat_add, Nat.mod_eq_of_lt hspent]
      rfl

/-! ## Sequences of calls -/

/-- After any calls the spent gas has grown by the charges that did not fail, the remaining gas
makes up the rest, and the refund counter has followed the refunds. -/
theorem mapM_call (commands : List Command) :
    let called := (commands.mapM Meter.call).run meter
    called.2.Whole limit ∧
      called.2.spent.toNat = meter.spent.toNat + charged commands called.1 ∧
      called.2.refunded.toInt = refundTotal meter.refunded.toInt commands := by
  induction commands generalizing meter with
  | nil => exact ⟨h, rfl, rfl⟩
  | cons c rest ih =>
    have hmoves := h.moves_call c
    obtain ⟨hwhole, hspent, hrefunded⟩ := ih (h.call c)
    rw [hmoves.spent, Nat.add_assoc] at hspent
    rw [hmoves.refunded] at hrefunded
    rw [List.mapM_cons]
    exact ⟨hwhole, hspent, hrefunded⟩

end Whole

/-- The account of a fresh meter under any calls.  No 64-bit number of it leaves its range; the
spent gas is the sum of the charges that did not fail, and the remaining gas is what the limit
leaves beside it.  After any calls a charge succeeds exactly when it fits beside that sum, and one
that fails leaves the meter as it was.  Refunds leave the gas alone and charges the refund
counter, which is the sum of the refunds from left to right, kept in its range at each step. -/
theorem calls_keep_account (limit : UInt64) (commands : List Command) :
    let called := (commands.mapM call).run (ofLimit limit)
    let meter := called.2
    let sum := charged commands called.1
    (commands.mapM Guarded.meterCall).run (ofLimit limit) = some called ∧
      meter.limit = limit ∧ meter.spent.toNat = sum ∧ sum ≤ limit.toNat ∧
      meter.remaining.toNat = limit.toNat - sum ∧
      meter.refunded.toInt = refundTotal 0 commands ∧
      (∀ cost, (∃ next, (Guarded.meterCall (.charge cost)).run meter = some (none, next)) ↔
        sum + cost.toNat ≤ limit.toNat) ∧
      (∀ cost fault next, (Guarded.meterCall (.charge cost)).run meter = some (some fault, next) ↔
        limit.toNat < sum + cost.toNat ∧ fault = .outOfGas ∧ next = meter) ∧
      (∀ cost fault? next, (Guarded.meterCall (.charge cost)).run meter = some (fault?, next) →
        next.limit = meter.limit ∧ next.refunded = meter.refunded) ∧
      ∀ delta fault? next, (Guarded.meterCall (.refund delta)).run meter = some (fault?, next) →
        fault? = none ∧ next.limit = meter.limit ∧ next.remaining = meter.remaining ∧
          next.spent = meter.spent := by
  intro called meter sum
  have hfresh := whole_ofLimit limit
  have hhost : (commands.mapM Guarded.meterCall).run (ofLimit limit) = some called :=
    Guarded.mapM_eq_some_of_keeps (fun c _ _ h => ⟨h.meterCall_eq c, h.call c⟩) hfresh
  obtain ⟨hwhole, hspent, hrefunded⟩ : meter.Whole limit ∧ meter.spent.toNat = 0 + sum ∧
      meter.refunded.toInt = refundTotal 0 commands := hfresh.mapM_call commands
  rw [Nat.zero_add] at hspent
  have hsum := hwhole.sum_eq
  have hroom (cost : UInt64) :
      cost.toNat ≤ meter.remaining.toNat ↔ sum + cost.toNat ≤ limit.toNat := by
    omega
  refine ⟨hhost, hwhole.limit_eq, hspent, by omega, by omega, hrefunded, ?_, ?_, ?_, ?_⟩
  · intro cost
    rw [hwhole.meterCall_eq, run_call_charge, ← hroom]
    split
    next hle => exact iff_of_true ⟨_, rfl⟩ hle
    next hgt => exact iff_of_false (by rintro ⟨next, h⟩; cases h) hgt
  · intro cost fault next
    rw [hwhole.meterCall_eq, run_call_charge, ← Nat.not_le, ← hroom]
    split
    next hle => exact iff_of_false (by intro h; cases h) fun h => h.1 hle
    next hgt => simp [hgt, eq_comm]
  · intro cost fault? next h
    rw [hwhole.meterCall_eq, run_call_charge] at h
    split at h <;> cases h <;> exact ⟨rfl, rfl⟩
  · intro delta fault? next h
    rw [hwhole.meterCall_eq] at h
    cases h
    exact ⟨rfl, rfl, rfl, rfl⟩

end Meter

end MeteredMachine
