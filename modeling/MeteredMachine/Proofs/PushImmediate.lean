import MeteredMachine.Proofs.ByteMap
import MeteredMachine.Proofs.Step

/-!
# Immediates of push instructions

A push instruction copies the bytes behind it into a word of zeros, so that the last byte of the
immediate would be the last of the word.  Where the code ends inside the immediate, the bytes that
are there keep their places and zeros stand for those that are not: the number is filled up at its
low end, while the word around it is filled up at its high end.

Main results:

- Theorem {lit}`State.immediate_eq`: an immediate is read as digits, with zeros for those behind the
  end of the code.
- Theorem {lit}`State.toNat_immediate`: an immediate is the sum of its digits at their places.
- Theorem {lit}`State.toBytes_immediate`: the bytes of an immediate are those of the code, between
  the zeros of the word and the zeros of the missing digits.
- Theorem {lit}`State.eval_of_push`: a push that is paid for and has room puts its immediate on the
  stack and goes on behind it.
- Theorem {lit}`Machine.push_immediate_exact` puts these together for every step.
-/

namespace MeteredMachine

theorem length_toList_extract {α : Type} (items : Array α) (start count : Nat) :
    (items.extract start (start + count)).toList.length = min count (items.size - start) := by
  rw [Array.length_toList, Array.size_extract]
  omega

/-- Reading some places with a default gives the items that are there and then defaults. -/
theorem map_range_getD {α : Type} (items : Array α) (start count : Nat) (filler : α) :
    (List.range count).map (fun j => items[start + j]?.getD filler) =
      (items.extract start (start + count)).toList ++
        List.replicate (count - (items.size - start)) filler := by
  apply List.ext_getElem?
  intro j
  rw [List.getElem?_map, List.getElem?_append, length_toList_extract]
  by_cases hcount : j < count
  · rw [List.getElem?_range hcount, Option.map_some]
    by_cases hthere : j < items.size - start
    · have hplace : start + j < items.size := by omega
      rw [if_pos (by omega), Array.getElem?_toList, Array.getElem?_extract, if_pos (by omega),
        Array.getElem?_eq_getElem hplace, Option.getD_some]
    · rw [if_neg (by omega), Array.getElem?_eq_none (by omega), List.getElem?_replicate,
        if_pos (by omega), Option.getD_none]
  · rw [List.getElem?_eq_none (by rw [List.length_range]; omega), if_neg (by omega),
      List.getElem?_replicate, if_neg (by omega)]
    rfl

/-- Zeros that are overwritten in the middle stay at both ends. -/
theorem Memory.toList_overwrite_replicate {source : List UInt8} {count position : Nat}
    (hfits : position + source.length ≤ count) :
    (overwrite (Array.replicate count 0) position source).toList =
      List.replicate position 0 ++ source ++
        List.replicate (count - (position + source.length)) 0 := by
  apply List.ext_getElem?
  intro i
  rw [Array.getElem?_toList, getElem?_overwrite (by simpa using hfits), List.getElem?_append,
    List.getElem?_append]
  simp only [List.length_append, List.length_replicate, List.getElem?_replicate,
    Array.getElem?_replicate]
  split
  next hin => rw [if_pos hin.2, if_neg (by omega)]
  next hout =>
    by_cases hfront : i < position
    · rw [if_pos (by omega), if_pos (by omega), if_pos hfront, if_pos hfront]
    · rw [if_neg (by omega : ¬ i < position + source.length)]
      congr 1
      rw [eq_iff_iff]
      omega

namespace State

variable {s : State}

/-! ## Values and bytes -/

/-- An immediate of at most 32 bytes is read as digits, with zeros for those that the code does not
have. -/
theorem immediate_eq {size : Nat} (hle : size ≤ 32) :
    s.immediate size =
      Word.ofBytes ((List.range size).map fun j => s.code[s.pc + 1 + j]?.getD 0) := by
  have hlength := length_toList_extract s.code (s.pc + 1) size
  have hmissing : Word.byteCount - (Word.byteCount - size +
      min size (s.code.size - (s.pc + 1))) = size - (s.code.size - (s.pc + 1)) := by
    rw [Word.byteCount]
    omega
  have hfits : Word.byteCount - size +
      (s.code.extract (s.pc + 1) (s.pc + 1 + size)).toList.length ≤ Word.byteCount := by
    rw [hlength, Word.byteCount]
    omega
  rw [immediate, Memory.toList_overwrite_replicate hfits, hlength, hmissing, List.append_assoc,
    ← map_range_getD, Word.ofBytes, Word.ofBytes, BigEndian.value_replicate_append]

/-- An immediate of at most 32 bytes is the sum of its digits at their places. -/
theorem toNat_immediate {size : Nat} (hle : size ≤ 32) :
    (s.immediate size).toNat =
      ∑ j ∈ Finset.range size, (s.code[s.pc + 1 + j]?.getD 0).toNat * 256 ^ (size - 1 - j) := by
  rw [immediate_eq hle, Word.toNat_ofBytes_of_le (by simpa using hle), BigEndian.value_map_range]

/-- The bytes of an immediate are those of the code as far as it goes.  In front of them stand the
zeros that fill up the word, and behind them those that fill up the immediate. -/
theorem toBytes_immediate {size : Nat} (hle : size ≤ 32) :
    (s.immediate size).toBytes =
      List.replicate (32 - size) 0 ++ (s.code.extract (s.pc + 1) (s.pc + 1 + size)).toList ++
        List.replicate (size - (s.code.size - (s.pc + 1))) 0 := by
  rw [immediate_eq hle, Word.toBytes_ofBytes (by simpa using hle), List.length_map,
    List.length_range, map_range_getD, List.append_assoc]

/-! ## Evaluation -/

/-- A push that is paid for and has room puts its immediate on the stack and goes on behind it;
nothing else changes. -/
theorem eval_of_push {index : Fin 32} {gas : Meter}
    (hcurrent : s.currentOpcode? = some (.push index))
    (hcharge : s.gas.charge Schedule.veryLow = .ok gas)
    (hroom : s.stack.size < Schedule.maxStackSize) :
    s.eval =
      { state := { s with
          pc := s.pc + (1 + (index.val + 1))
          stack := ⟨s.stack.items.push (s.immediate (index.val + 1))⟩
          gas }
        exit? := none } := by
  let p : Payment s :=
    { op := .push index
      operands := []
      rest := s.stack.toList
      cost := Schedule.veryLow
      gas
      current_eq := hcurrent
      stack_eq := s.stack.ofList_toList.symm
      length_operands := rfl
      price_eq := rfl
      charge_eq := hcharge }
  have hlength : p.rest.length = s.stack.size := s.stack.length_toList
  have hfits : ¬ p.rest.length + p.op.entry.outputs > Schedule.maxStackSize := by
    rw [hlength]
    exact Nat.not_lt.2 hroom
  have hstack (w : Word) : Stack.ofList (w :: s.stack.toList) = ⟨s.stack.items.push w⟩ := by
    apply Stack.ext_toList
    rw [Stack.toList_ofList]
    simp [Stack.toList]
  rw [p.eval_eq (Nat.le_of_lt hroom), Payment.outcome, Opcode.outcome, if_neg hfits, ← hstack]
  rfl

/-- The byte of a push instruction is decoded as such. -/
theorem currentOpcode?_of_push {index : Fin 32}
    (hbyte : s.code[s.pc]? = some (UInt8.ofNat (0x5f + (index.val + 1)))) :
    s.currentOpcode? = some (.push index) := by
  have hblock : 0x5f + (index.val + 1) = 0x60 + index.val := by omega
  rw [hblock] at hbyte
  rw [currentOpcode?, currentByte?, hbyte, Option.bind_some]
  exact Opcode.ofByte?_toByte (.push index)

end State

namespace Machine

variable {σ : Type}

/-- A push of `n` bytes puts the right word on the stack, on any machine that has the gas and the
room for it.  The digits of the word are the bytes behind the instruction, most significant first,
with zeros for those behind the end of the code.  The program counter goes behind the immediate, the
price is taken, and nothing else changes.  As bytes, the word is what the code has of the immediate
between zeros in front and zeros behind, and an immediate that is all there ends the word. -/
theorem push_immediate_exact (m : Machine σ) (n : Nat) (hpos : 1 ≤ n) (hle : n ≤ 32)
    (hrun : m.status = .running) (hpermitted : m.verdict.refusal? = none)
    (hbyte : m.state.code[m.state.pc]? = some (UInt8.ofNat (0x5f + n)))
    (hgas : 3 ≤ m.state.gas.remaining.toNat) (hroom : m.state.stack.size < 1024) :
    let s := m.state
    let start := s.pc + 1
    let present := (s.code.extract start (start + n)).toList
    ∃ w gas, s.gas.charge 3 = .ok gas ∧
      m.step.state = { s with pc := start + n, stack := ⟨s.stack.items.push w⟩, gas } ∧
      w.toNat = ∑ j ∈ Finset.range n, (s.code[start + j]?.getD 0).toNat * 256 ^ (n - 1 - j) ∧
      w.toBytes =
        List.replicate (32 - n) 0 ++ present ++ List.replicate (n - (s.code.size - start)) 0 ∧
      (start + n ≤ s.code.size → w.toBytes = List.replicate (32 - n) 0 ++ present) := by
  intro s start present
  obtain ⟨k, rfl⟩ := Nat.exists_eq_add_of_le' hpos
  have hcurrent : s.currentOpcode? = some (.push ⟨k, hle⟩) := State.currentOpcode?_of_push hbyte
  obtain ⟨gas, hcharge⟩ : ∃ gas, s.gas.charge 3 = .ok gas := ⟨_, Meter.charge_of_le hgas⟩
  have hnext : s.pc + (1 + (k + 1)) = start + (k + 1) := (Nat.add_assoc _ _ _).symm
  have hbytes := State.toBytes_immediate (s := s) hle
  refine ⟨s.immediate (k + 1), gas, hcharge, ?_, State.toNat_immediate hle, hbytes, ?_⟩
  · rw [step_of_permitted hrun hpermitted, State.advanced,
      State.eval_of_push hcurrent hcharge hroom, ← hnext]
    rfl
  · intro hfits
    have hmissing : k + 1 - (s.code.size - start) = 0 := by omega
    rw [hbytes, hmissing, List.replicate_zero, List.append_nil]

/-- A push of three bytes of which the code has one, above an item that stays. -/
theorem push_immediate_exact_of_truncated :
    let m := (ofCode #[0x62, 0x01] #[] 10 default Policy.permit ()).seed [7]
    m.status = .running ∧ m.verdict.refusal? = none ∧
      ∃ w gas, m.step.state = { m.state with pc := 4, stack := ⟨#[7, w]⟩, gas } ∧
        w.toNat = 0x010000 := by
  intro m
  have hrun : m.status = .running := rfl
  have hpermitted : m.verdict.refusal? = none := rfl
  obtain ⟨w, gas, _, hstep, hvalue, _⟩ := push_immediate_exact m 3 (by decide) (by decide) hrun
    hpermitted (by decide +kernel) (by decide +kernel) (by decide +kernel)
  refine ⟨hrun, hpermitted, w, gas, hstep, hvalue.trans ?_⟩
  decide +kernel

end Machine

end MeteredMachine
