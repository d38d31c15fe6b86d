import MeteredMachine.Proofs.GuardedParts

/-!
# The stack under the calls of a host

A host calls a stack in any order and with any arguments.  The answers are those of a list of at most
1024 items, top first.  On a host the items lie bottom first and are changed in place, so that an index
is counted from the end and a call that fails could have changed something before it failed; here
neither happens: no index leaves its bounds and every failure keeps the stack.

Main results:

- Definition {lit}`Stack.Command.onList` is a call on the list.
- Definition {lit}`Guarded.stackCall` is a call in place, where differences and indices may trap.
- Theorem {lit}`Guarded.stackCall_eq`: a call in place does not trap and does what the operation does.
- Theorem {lit}`Stack.perform_eq_error_iff` says when a call fails, and with which fault.
- Theorem {lit}`Stack.calls_refine_list` puts these together for every sequence of calls.
-/

namespace MeteredMachine

/-! ## Bounded lists -/

namespace Stack.Command

/-- A call on a list of items from the top down. -/
def onList (c : Command) : StateM (List Word) (Except Fault (Option Word)) := fun items =>
  match c, items with
  | push word, items =>
    if items.length < 1024 then (.ok none, word :: items) else (.error .stackOverflow, items)
  | pop, [] => (.error .stackUnderflow, [])
  | pop, top :: rest => (.ok (some top), rest)
  | peek distance, items =>
    match items[distance]? with
    | some word => (.ok (some word), items)
    | none => (.error .stackUnderflow, items)
  | dup 0, items => (.error .stackUnderflow, items)
  | dup (k + 1), items =>
    match items[k]? with
    | some word =>
      if items.length < 1024 then (.ok none, word :: items) else (.error .stackOverflow, items)
    | none => (.error .stackUnderflow, items)
  | swap (k + 1), top :: rest =>
    match rest[k]? with
    | some word => (.ok none, word :: rest.set k top)
    | none => (.error .stackUnderflow, top :: rest)
  | swap _, items => (.error .stackUnderflow, items)
  | clear, _ => (.ok none, [])

/-- The fault of a command on so many items, if it fails. -/
def fault? (c : Command) (count : Nat) : Option Fault :=
  match c with
  | push _ => if count = 1024 then some .stackOverflow else none
  | pop => if count = 0 then some .stackUnderflow else none
  | peek distance => if distance ≥ count then some .stackUnderflow else none
  | dup k =>
    if k = 0 ∨ k > count then some .stackUnderflow
    else if count = 1024 then some .stackOverflow
    else none
  | swap k => if k = 0 ∨ k ≥ count then some .stackUnderflow else none
  | clear => none

end Stack.Command

/-! ## Calls in place -/

namespace Guarded

/-- A change of a stack in place, which may trap; a fault keeps what was done before it. -/
abbrev InPlace := ExceptT Fault (StateT Stack Option)

/-- A command carried out in place. -/
def inPlace (c : Stack.Command) : InPlace (Option Word) := do
  let s ← get
  match c with
  | .push word =>
    if s.size ≥ Schedule.maxStackSize then throw .stackOverflow
    else do
      set (Stack.mk (s.items.push word))
      pure none
  | .pop =>
    match s.items.back? with
    | none => throw .stackUnderflow
    | some word => do
      set (Stack.mk s.items.pop)
      pure (some word)
  | .peek distance =>
    if distance ≥ s.size then throw .stackUnderflow
    else do
      let top ← sub? s.size 1
      let index ← sub? top distance
      let word ← (s.items[index]? : Option Word)
      pure (some word)
  | .dup k =>
    -- On a full stack an item that is missing still counts as an underflow.
    if k = 0 ∨ k > s.size then throw .stackUnderflow
    else if s.size ≥ Schedule.maxStackSize then throw .stackOverflow
    else do
      let index ← sub? s.size k
      let word ← (s.items[index]? : Option Word)
      set (Stack.mk (s.items.push word))
      pure none
  | .swap k =>
    if k = 0 ∨ k ≥ s.size then throw .stackUnderflow
    else do
      let top ← sub? s.size 1
      let index ← sub? top k
      let first ← (s.items[top]? : Option Word)
      let second ← (s.items[index]? : Option Word)
      set (Stack.mk ((s.items.setIfInBounds top second).setIfInBounds index first))
      pure none
  | .clear => do
    set Stack.empty
    pure none

/-- A call on a stack of a host. -/
def stackCall (c : Stack.Command) : StateT Stack Option (Except Fault (Option Word)) :=
  (inPlace c).run

/-- What does not trap is handed on to the rest of a call. -/
theorem run_liftM_bind {α β : Type} {value? : Option α} {a : α} (h : value? = some a)
    (k : α → InPlace β) (s : Stack) :
    ((liftM value? : InPlace α) >>= k).run.run s = (k a).run.run s := by
  rw [h]
  rfl

/-- A call in place does not trap, and a fault finds the stack as it was. -/
theorem stackCall_eq (c : Stack.Command) (s : Stack) :
    (stackCall c).run s = some ((s.perform c).answer, (s.perform c).stack) := by
  have hget (k : Stack → InPlace (Option Word)) :
      (get >>= k : InPlace (Option Word)).run.run s = (k s).run.run s := rfl
  rw [stackCall, inPlace, hget]
  cases c with
  | push word =>
    dsimp only
    rw [Stack.perform, Stack.push]
    split <;> rfl
  | pop =>
    dsimp only
    rw [Stack.perform, Stack.pop]
    cases s.items.back? with
    | none => rfl
    | some word => rfl
  | peek distance =>
    dsimp only
    rw [Stack.perform, Stack.peek]
    by_cases hlt : distance < s.items.size
    · have hone : 1 ≤ s.size := Nat.one_le_of_lt hlt
      have hdistance : distance ≤ s.size - 1 := Nat.le_pred_of_lt hlt
      have hindex : s.size - 1 - distance < s.items.size := by rw [Stack.size]; omega
      rw [if_neg (show ¬ distance ≥ s.size from Nat.not_le.2 hlt), dif_pos hlt,
        run_liftM_bind (sub?_of_le hone), run_liftM_bind (sub?_of_le hdistance),
        run_liftM_bind (Array.getElem?_eq_getElem hindex)]
      rfl
    · rw [if_pos (show distance ≥ s.size from Nat.le_of_not_lt hlt), dif_neg hlt]
      rfl
  | dup k =>
    dsimp only
    rw [Stack.perform, Stack.dup]
    by_cases hin : 0 < k ∧ k ≤ s.items.size
    · have hout : ¬ (k = 0 ∨ k > s.size) := by rw [Stack.size]; omega
      have hle : k ≤ s.size := hin.2
      have hindex : s.size - k < s.items.size := by rw [Stack.size]; omega
      rw [if_neg hout, dif_pos hin]
      split
      · rfl
      · rw [run_liftM_bind (sub?_of_le hle), run_liftM_bind (Array.getElem?_eq_getElem hindex)]
        rfl
    · have hout : k = 0 ∨ k > s.size := by rw [Stack.size]; omega
      rw [if_pos hout, dif_neg hin]
      rfl
  | swap k =>
    dsimp only
    rw [Stack.perform, Stack.swap]
    by_cases hin : 0 < k ∧ k < s.items.size
    · have hout : ¬ (k = 0 ∨ k ≥ s.size) := by rw [Stack.size]; omega
      have hone : 1 ≤ s.size := by rw [Stack.size]; omega
      have hdistance : k ≤ s.size - 1 := by rw [Stack.size]; omega
      have htop : s.size - 1 < s.items.size := by rw [Stack.size]; omega
      have hindex : s.size - 1 - k < s.items.size := by rw [Stack.size]; omega
      have hswap : s.items.swap (s.size - 1) (s.size - 1 - k) htop hindex =
          (s.items.setIfInBounds (s.size - 1) s.items[s.size - 1 - k]).setIfInBounds
            (s.size - 1 - k) s.items[s.size - 1] := by
        simp [Array.swap, Array.setIfInBounds, htop, hindex]
      rw [if_neg hout, dif_pos hin, run_liftM_bind (sub?_of_le hone),
        run_liftM_bind (sub?_of_le hdistance), run_liftM_bind (Array.getElem?_eq_getElem htop),
        run_liftM_bind (Array.getElem?_eq_getElem hindex), ← hswap]
      rfl
    · have hout : k = 0 ∨ k ≥ s.size := by rw [Stack.size]; omega
      rw [if_pos hout, dif_neg hin]
      rfl
  | clear => rfl

end Guarded

/-! ## The stack as a bounded list -/

namespace Stack

/-- A command as a call on a stack. -/
def call (c : Command) : StateM Stack (Except Fault (Option Word)) := fun s =>
  let performed := s.perform c
  (performed.answer, performed.stack)

/-- A copy on a stack that is given as a list. -/
theorem dup_ofList (items : List Word) (k : Nat) :
    (ofList items).dup k =
      if k = 0 ∨ k > items.length then .error .stackUnderflow
      else if items.length ≥ Schedule.maxStackSize then .error .stackOverflow
      else .ok (ofList (items.getD (k - 1) 0 :: items)) := by
  rw [← map_ofList_map_toList (dup _ _), dup_toList, size_ofList, toList_ofList]
  split
  · rfl
  · split <;> rfl

/-- An exchange on a stack that is given as a list. -/
theorem swap_ofList (items : List Word) (k : Nat) :
    (ofList items).swap k =
      if k = 0 ∨ k ≥ items.length then .error .stackUnderflow
      else .ok (ofList ((items.set 0 (items.getD k 0)).set k (items.getD 0 0))) := by
  rw [← map_ofList_map_toList (swap _ _), swap_toList, size_ofList, toList_ofList]
  split <;> rfl

/-- A call on a stack is the call on its list. -/
theorem perform_ofList (items : List Word) (c : Command) :
    (((ofList items).perform c).answer, ((ofList items).perform c).stack.toList) =
      c.onList.run items := by
  have hroom : items.length ≥ Schedule.maxStackSize ↔ ¬ items.length < 1024 :=
    Nat.not_lt.symm
  cases c with
  | push word =>
    rw [perform, push_ofList]
    by_cases hlt : items.length < 1024
    · simp [Command.onList, StateT.run, hroom, hlt]
    · simp [Command.onList, StateT.run, hroom, hlt]
  | pop =>
    cases items with
    | nil => rfl
    | cons top rest =>
      rw [perform, pop_ofList_cons]
      simp [Command.onList, StateT.run]
  | peek distance =>
    rw [perform, peek_toList, toList_ofList]
    cases hitem : items[distance]? with
    | none => simp [Command.onList, StateT.run, hitem, Except.map]
    | some word => simp [Command.onList, StateT.run, hitem, Except.map]
  | dup k =>
    rw [perform, dup_ofList]
    cases k with
    | zero => simp [Command.onList, StateT.run]
    | succ k =>
      rcases Nat.lt_or_ge k items.length with hk | hk
      · by_cases hlt : items.length < 1024
        · simp [Command.onList, StateT.run, hroom, hlt, hk, Nat.not_le.2 hk]
        · simp [Command.onList, StateT.run, hroom, hlt, hk, Nat.not_le.2 hk]
      · simp [Command.onList, StateT.run, hk]
  | swap k =>
    rw [perform, swap_ofList]
    cases k with
    | zero => simp [Command.onList, StateT.run]
    | succ k =>
      cases items with
      | nil => simp [Command.onList, StateT.run]
      | cons top rest =>
        rcases Nat.lt_or_ge k rest.length with hk | hk
        · simp [Command.onList, StateT.run, hk, Nat.not_le.2 hk]
        · simp [Command.onList, StateT.run, hk]
  | clear => rfl

/-- A command that has a fault fails with it and leaves the stack as it was; any other succeeds. -/
theorem perform_cases {s : Stack} (hle : s.size ≤ 1024) (c : Command) :
    match c.fault? s.size with
    | some fault => s.perform c = { stack := s, answer := .error fault }
    | none => ∃ word?, (s.perform c).answer = .ok word? := by
  have hfull : s.size ≥ Schedule.maxStackSize ↔ s.size = 1024 :=
    ⟨Nat.le_antisymm hle, fun h => Nat.le_of_eq h.symm⟩
  cases c with
  | push word =>
    rw [Command.fault?, perform, push]
    by_cases hcount : s.size = 1024
    · rw [if_pos hcount, if_pos (hfull.2 hcount)]
    · rw [if_neg hcount, if_neg (mt hfull.1 hcount)]
      exact ⟨none, rfl⟩
  | pop =>
    rw [Command.fault?, perform, pop]
    by_cases hzero : s.size = 0
    · rw [if_pos hzero, Array.back?_eq_none_iff.2 (Array.eq_empty_of_size_eq_zero hzero)]
    · have hlt : s.items.size - 1 < s.items.size := by rw [size] at hzero; omega
      rw [if_neg hzero, Array.back?, Array.getElem?_eq_getElem hlt]
      exact ⟨some _, rfl⟩
  | peek distance =>
    rw [Command.fault?, perform, peek]
    by_cases hlt : distance < s.items.size
    · have hcount : ¬ distance ≥ s.size := Nat.not_le.2 hlt
      rw [if_neg hcount, dif_pos hlt]
      exact ⟨some _, rfl⟩
    · have hcount : distance ≥ s.size := Nat.le_of_not_lt hlt
      rw [if_pos hcount, dif_neg hlt]
      rfl
  | dup k =>
    rw [Command.fault?, perform, dup]
    by_cases hin : 0 < k ∧ k ≤ s.items.size
    · have hcount : ¬ (k = 0 ∨ k > s.size) := by rw [size]; omega
      rw [if_neg hcount, dif_pos hin]
      by_cases hcount : s.size = 1024
      · rw [if_pos hcount, if_pos (hfull.2 hcount)]
      · rw [if_neg hcount, if_neg (mt hfull.1 hcount)]
        exact ⟨none, rfl⟩
    · have hcount : k = 0 ∨ k > s.size := by rw [size]; omega
      rw [if_pos hcount, dif_neg hin]
  | swap k =>
    rw [Command.fault?, perform, swap]
    by_cases hin : 0 < k ∧ k < s.items.size
    · have hcount : ¬ (k = 0 ∨ k ≥ s.size) := by rw [size]; omega
      rw [if_neg hcount, dif_pos hin]
      exact ⟨none, rfl⟩
    · have hcount : k = 0 ∨ k ≥ s.size := by rw [size]; omega
      rw [if_pos hcount, dif_neg hin]
  | clear => exact ⟨none, rfl⟩

/-- A command fails exactly with its fault, and then the stack is as it was. -/
theorem perform_eq_error_iff {s : Stack} (hle : s.size ≤ 1024) (c : Command) (fault : Fault)
    (t : Stack) :
    s.perform c = { stack := t, answer := .error fault } ↔
      c.fault? s.size = some fault ∧ t = s := by
  have hcases := perform_cases hle c
  cases hfault : c.fault? s.size with
  | none =>
    rw [hfault] at hcases
    obtain ⟨word?, hanswer⟩ := hcases
    constructor
    · intro h
      rw [h] at hanswer
      cases hanswer
    · rintro ⟨h, _⟩
      cases h
  | some expected =>
    rw [hfault] at hcases
    constructor
    · intro h
      rw [hcases] at h
      cases h
      exact ⟨rfl, rfl⟩
    · rintro ⟨h, rfl⟩
      cases h
      exact hcases

/-- Exchanging twice gives the stack back, and exchanging once keeps all items. -/
theorem swap_of_swap {s t : Stack} {k : Nat} (h : s.swap k = .ok t) :
    t.swap k = .ok s ∧ t.toList.Perm s.toList := by
  rw [swap] at h
  split at h
  next hin =>
    cases h
    have htop : s.items.size - 1 < s.items.size := by omega
    have hindex : s.items.size - 1 - k < s.items.size := by omega
    have hperm := (Array.swap_perm htop hindex).toList
    refine ⟨?_, (List.reverse_perm _).trans (hperm.trans (List.reverse_perm _).symm)⟩
    have hin' : 0 < k ∧ k < (s.items.swap _ _ htop hindex).size := by simpa using hin
    rw [swap, dif_pos hin']
    simp
  next => cases h

/-- Taking a copy off again gives the item that was copied and the stack as it was. -/
theorem pop_of_dup {s t : Stack} {k : Nat} (h : s.dup k = .ok t) :
    ∃ w, s.peek (k - 1) = .ok w ∧ t.pop = .ok { word := w, rest := s } := by
  rw [← s.ofList_toList, dup_ofList] at h
  split at h
  next => cases h
  next hin =>
    split at h
    next => cases h
    next =>
      cases h
      have hlt : k - 1 < s.toList.length := by omega
      refine ⟨s.toList.getD (k - 1) 0, ?_, ?_⟩
      · rw [peek_toList, List.getElem?_eq_getElem hlt, List.getD_eq_getElem?_getD,
          List.getElem?_eq_getElem hlt, Option.getD_some]
      · rw [pop_ofList_cons, ofList_toList]

/-- A stack has the items of a list, and not too many of them. -/
structure Represents (s : Stack) (items : List Word) : Prop where
  toList_eq : s.toList = items
  size_le : s.size ≤ 1024

theorem represents_empty : empty.Represents [] :=
  ⟨rfl, Nat.zero_le _⟩

/-- In any sequence of calls the answers are those of the list, and the stack keeps its items. -/
theorem Represents.mapM_call {s : Stack} {items : List Word} (h : s.Represents items)
    (commands : List Command) :
    ((commands.mapM call).run s).1 = ((commands.mapM Command.onList).run items).1 ∧
      ((commands.mapM call).run s).2.Represents ((commands.mapM Command.onList).run items).2 := by
  refine Guarded.mapM_refines ?_ commands h
  intro c s items h
  have hlist := perform_ofList s.toList c
  rw [ofList_toList, h.toList_eq] at hlist
  exact ⟨congrArg Prod.fst hlist, congrArg Prod.snd hlist, size_perform_le h.size_le c⟩

/-- A stack refines a list of at most 1024 items, top first.  For all calls with any arguments no index
leaves its bounds on a host, and the answers and the items are those of the list.  After any calls,
a further call fails exactly with the fault of its command, which leaves the stack as it was; exchanging
twice changes nothing, and exchanging once keeps all items; and a copy that is taken off again was the
item at its distance and leaves the stack as it was. -/
theorem calls_refine_list (commands : List Command) :
    let called := (commands.mapM call).run empty
    let expected := (commands.mapM Command.onList).run []
    let s := called.2
    (commands.mapM Guarded.stackCall).run empty = some called ∧
      called.1 = expected.1 ∧ s.toList = expected.2 ∧ s.size ≤ 1024 ∧
      (∀ c fault t, (Guarded.stackCall c).run s = some (.error fault, t) ↔
        c.fault? s.size = some fault ∧ t = s) ∧
      (∀ k t, s.swap k = .ok t → t.swap k = .ok s ∧ t.toList.Perm s.toList) ∧
      ∀ k t, s.dup k = .ok t →
        ∃ w, s.peek (k - 1) = .ok w ∧ t.pop = .ok { word := w, rest := s } := by
  intro called expected s
  have hhost : (commands.mapM Guarded.stackCall).run empty = some called :=
    Guarded.mapM_eq_some (fun c _ => Guarded.stackCall_eq c) empty
  obtain ⟨hanswers, hitems, hle⟩ : called.1 = expected.1 ∧ s.Represents expected.2 :=
    represents_empty.mapM_call commands
  refine ⟨hhost, hanswers, hitems, hle, ?_, fun _ _ => swap_of_swap, fun _ _ => pop_of_dup⟩
  intro c fault t
  rw [Guarded.stackCall_eq, ← perform_eq_error_iff hle, Option.some_inj]
  constructor
  · intro h
    obtain ⟨hanswer, hstack⟩ := Prod.mk.inj h
    rw [← hanswer, ← hstack]
  · intro h
    rw [h]

end Stack

end MeteredMachine
