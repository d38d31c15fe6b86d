import MeteredMachine.Gas.Meter

/-!
# Accounts of a meter

A charge is decided and booked in 64-bit arithmetic.  On a meter that is in balance,
where remaining and spent gas add up to the limit, nothing wraps: a charge moves its
cost from one side to the other as natural numbers.

Main results:

- Structure {lit}`Meter.Balanced` says that a meter is in balance.
- Theorem {lit}`Meter.Balanced.charge`: a charge keeps the balance and books its cost
  exactly.
-/

namespace MeteredMachine

namespace Meter

variable {meter charged : Meter} {cost limit : UInt64}

/-- A charge within the remaining gas is booked. -/
theorem charge_of_le (h : cost.toNat ≤ meter.remaining.toNat) :
    meter.charge cost =
      .ok { meter with remaining := meter.remaining - cost, spent := meter.spent + cost } := by
  have hle : ¬ cost > meter.remaining := UInt64.not_lt.2 (UInt64.le_iff_toNat_le.2 h)
  rw [charge, if_neg hle]

/-- A charge beyond the remaining gas fails. -/
theorem charge_of_lt (h : meter.remaining.toNat < cost.toNat) :
    meter.charge cost = .error .outOfGas := by
  have hgt : cost > meter.remaining := UInt64.lt_iff_toNat_lt.2 h
  rw [charge, if_pos hgt]

/-- A charge that succeeds was within the remaining gas. -/
theorem le_of_charge (h : meter.charge cost = .ok charged) :
    cost.toNat ≤ meter.remaining.toNat := by
  apply Nat.le_of_not_lt
  intro hlt
  rw [charge_of_lt hlt] at h
  cases h

/-- A charge takes its cost out of the remaining gas, without wrapping. -/
theorem toNat_remaining_of_charge (h : meter.charge cost = .ok charged) :
    charged.remaining.toNat + cost.toNat = meter.remaining.toNat := by
  have hle := le_of_charge h
  have hsub := UInt64.toNat_sub_of_le _ _ (UInt64.le_iff_toNat_le.2 hle)
  rw [charge_of_le hle] at h
  cases h
  simp only [hsub]
  omega

/-- A charge adds its cost to the spent gas, without wrapping if all gas of the meter fits. -/
theorem toNat_spent_of_charge
    (hfits : meter.remaining.toNat + meter.spent.toNat < UInt64.size)
    (h : meter.charge cost = .ok charged) :
    charged.spent.toNat = meter.spent.toNat + cost.toNat := by
  have hle := le_of_charge h
  rw [charge_of_le hle] at h
  cases h
  have hadd := UInt64.toNat_add meter.spent cost
  rwa [Nat.mod_eq_of_lt (by rw [UInt64.size] at hfits; omega)] at hadd

/-- A charge fails for want of gas only. -/
theorem eq_outOfGas_of_charge {fault : Fault} (h : meter.charge cost = .error fault) :
    fault = .outOfGas := by
  rw [charge] at h
  split at h <;> cases h
  rfl

/-- A meter with the given limit on which remaining and spent gas add up to the limit and
no refund is booked. -/
structure Balanced (limit : UInt64) (meter : Meter) : Prop where
  limit_eq : meter.limit = limit
  sum_eq : meter.remaining.toNat + meter.spent.toNat = limit.toNat
  refunded_eq : meter.refunded = 0

/-- A fresh meter is in balance. -/
theorem balanced_ofLimit (limit : UInt64) : (ofLimit limit).Balanced limit :=
  ⟨rfl, Nat.add_zero _, rfl⟩

namespace Balanced

/-- A charge moves its cost from the remaining to the spent gas, without wrapping. -/
theorem toNat_charge (h : meter.Balanced limit) (hcharge : meter.charge cost = .ok charged) :
    charged.remaining.toNat + cost.toNat = meter.remaining.toNat ∧
      charged.spent.toNat = meter.spent.toNat + cost.toNat := by
  have hfits : meter.remaining.toNat + meter.spent.toNat < UInt64.size :=
    h.sum_eq ▸ limit.toNat_lt
  exact ⟨toNat_remaining_of_charge hcharge, toNat_spent_of_charge hfits hcharge⟩

/-- A charge keeps a meter in balance. -/
theorem charge (h : meter.Balanced limit) (hcharge : meter.charge cost = .ok charged) :
    charged.Balanced limit := by
  obtain ⟨hremaining, hspent⟩ := h.toNat_charge hcharge
  have hsum := h.sum_eq
  rw [charge_of_le (le_of_charge hcharge)] at hcharge
  cases hcharge
  exact ⟨h.limit_eq, by simp only at hremaining hspent ⊢; omega, h.refunded_eq⟩

end Balanced

end Meter

end MeteredMachine
