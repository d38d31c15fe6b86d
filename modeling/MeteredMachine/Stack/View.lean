import MeteredMachine.Stack

/-!
# The stack as a list

The view of a stack is the list of its items from the top down.  Each operation has
one equation through the view, so that later arguments about stacks are arguments
about lists of at most 1024 words.

Main results:

- Theorems {lit}`Stack.push_toList`, {lit}`Stack.pop_toList`, {lit}`Stack.peek_toList`,
  {lit}`Stack.dup_toList` and {lit}`Stack.swap_toList` describe the operations.
- Theorem {lit}`Stack.ext_toList`: a stack is determined by its view.
- Definition {lit}`Stack.ofList` is the way back; on a stack that is given as a list
  every operation computes.
-/

namespace MeteredMachine

namespace Stack

/-- The items from the top down. -/
def toList (s : Stack) : List Word :=
  s.items.toList.reverse

/-- The view has as many items as the stack. -/
@[simp] theorem length_toList (s : Stack) : s.toList.length = s.size := by
  simp [toList, size]

/-- The empty stack has no items. -/
@[simp] theorem toList_empty : empty.toList = [] := rfl

/-- A stack is determined by its view. -/
theorem ext_toList {s t : Stack} (h : s.toList = t.toList) : s = t := by
  obtain ⟨a⟩ := s
  obtain ⟨b⟩ := t
  have hlist : a.toList = b.toList := List.reverse_inj.1 h
  exact congrArg Stack.mk (Array.toList_inj.1 hlist)

/-- The item at a distance from the top, read from the array of items. -/
theorem getElem?_toList (s : Stack) {distance : Nat} (h : distance < s.items.size)
    (hindex : s.items.size - 1 - distance < s.items.size) :
    s.toList[distance]? = some s.items[s.items.size - 1 - distance] := by
  rw [toList, List.getElem?_reverse (by simpa using h)]
  simp

/-- The top item is the head of the view. -/
theorem top?_eq_head? (s : Stack) : s.top? = s.toList.head? := by
  simp [top?, toList, Array.back?, List.head?_reverse, List.getLast?_eq_getElem?]

/-- A push puts its word in front, unless the stack is full. -/
theorem push_toList (s : Stack) (w : Word) :
    (s.push w).map toList =
      if s.size ≥ Schedule.maxStackSize then .error .stackOverflow else .ok (w :: s.toList) := by
  rw [push]
  split
  next => rfl
  next => simp [Except.map, toList]

/-- A pop splits the view into its head and the rest, unless it is empty. -/
theorem pop_toList (s : Stack) :
    s.pop.map (fun popped => (popped.word, popped.rest.toList)) =
      match s.toList with
      | [] => .error .stackUnderflow
      | w :: rest => .ok (w, rest) := by
  have htop : s.items.back? = s.toList.head? := s.top?_eq_head?
  have hrest : (⟨s.items.pop⟩ : Stack).toList = s.toList.tail := by
    simp [toList]
  rw [pop, htop]
  cases hview : s.toList with
  | nil => rfl
  | cons w rest => simp [Except.map, hrest, hview]

/-- A look gives the item at its distance in the view. -/
theorem peek_toList (s : Stack) (distance : Nat) :
    s.peek distance =
      match s.toList[distance]? with
      | some w => .ok w
      | none => .error .stackUnderflow := by
  rw [peek]
  split
  next h => rw [getElem?_toList s h (by omega)]
  next h =>
    have hnone : s.toList[distance]? = none := by
      rw [List.getElem?_eq_none_iff, length_toList, size]
      omega
    rw [hnone]

/-- A copy puts the `k`-th item in front; a missing item counts before a full stack. -/
theorem dup_toList (s : Stack) (k : Nat) :
    (s.dup k).map toList =
      if k = 0 ∨ k > s.size then .error .stackUnderflow
      else if s.size ≥ Schedule.maxStackSize then .error .stackOverflow
      else .ok (s.toList.getD (k - 1) 0 :: s.toList) := by
  rw [dup]
  split
  next h =>
    have hin : ¬ (k = 0 ∨ k > s.size) := by
      rw [size]
      omega
    rw [if_neg hin]
    split
    next => rfl
    next =>
      have hlt : k - 1 < s.items.size := by omega
      have hindex : s.items.size - 1 - (k - 1) = s.items.size - k := by omega
      have hget := getElem?_toList s hlt (by omega)
      simp only [hindex] at hget
      simp only [Except.map, List.getD_eq_getElem?_getD, hget]
      simp [toList]
  next h =>
    have hout : k = 0 ∨ k > s.size := by
      rw [size]
      omega
    rw [if_pos hout]
    rfl

/-- An exchange swaps the head with the item at distance `k`, unless that is missing. -/
theorem swap_toList (s : Stack) (k : Nat) :
    (s.swap k).map toList =
      if k = 0 ∨ k ≥ s.size then .error .stackUnderflow
      else .ok ((s.toList.set 0 (s.toList.getD k 0)).set k (s.toList.getD 0 0)) := by
  rw [swap]
  split
  next h =>
    have hin : ¬ (k = 0 ∨ k ≥ s.size) := by
      rw [size]
      omega
    rw [if_neg hin]
    have hk := getElem?_toList s h.2 (by omega)
    have hzero := @getElem?_toList s 0 (by omega) (by omega)
    simp only [Except.map, List.getD_eq_getElem?_getD, hk, hzero]
    congr 1
    apply List.ext_getElem?
    intro i
    by_cases hi : i < s.items.size
    · have hswap : i < (s.items.swap (s.items.size - 1) (s.items.size - 1 - k)).size := by
        simpa using hi
      rw [getElem?_toList ⟨s.items.swap (s.items.size - 1) (s.items.size - 1 - k)⟩ hswap
        (by simp only [Array.size_swap]; omega)]
      have hview := getElem?_toList s hi (by omega)
      simp only [List.getElem?_set, List.length_set, length_toList, size, hview,
        Array.getElem_swap, Array.size_swap, Option.getD_some]
      by_cases hfirst : i = 0
      · subst hfirst
        have hother : k ≠ 0 := by omega
        simp [hother, hi]
      · have hdeep : s.items.size - 1 - i ≠ s.items.size - 1 := by omega
        by_cases hlast : i = k
        · subst hlast
          simp [hdeep, hi]
        · have hapart : s.items.size - 1 - i ≠ s.items.size - 1 - k := by omega
          rw [if_neg hdeep, if_neg hapart, if_neg (Ne.symm hlast), if_neg (Ne.symm hfirst)]
    · have hleft : (⟨s.items.swap (s.items.size - 1) (s.items.size - 1 - k)⟩ : Stack).toList[i]? =
          none := by
        rw [List.getElem?_eq_none_iff, length_toList, size, Array.size_swap]
        omega
      rw [hleft, eq_comm, List.getElem?_eq_none_iff]
      simp only [List.length_set, length_toList, size]
      omega
  next h =>
    have hout : k = 0 ∨ k ≥ s.size := by
      rw [size]
      omega
    rw [if_pos hout]
    rfl

/-! ## Sizes -/

/-- A push that succeeds stays within the limit. -/
theorem size_push_le {s stack : Stack} {w : Word} (h : s.push w = .ok stack) :
    stack.size ≤ Schedule.maxStackSize := by
  rw [push] at h
  split at h
  next => cases h
  next hroom =>
    cases h
    simp only [size, Array.size_push] at hroom ⊢
    omega

/-- A pop that succeeds leaves a smaller stack. -/
theorem size_pop_le {s : Stack} {popped : Popped} (h : s.pop = .ok popped) :
    popped.rest.size ≤ s.size := by
  rw [pop] at h
  split at h
  next =>
    cases h
    simp [size]
  next => cases h

/-- A copy that succeeds stays within the limit. -/
theorem size_dup_le {s stack : Stack} {k : Nat} (h : s.dup k = .ok stack) :
    stack.size ≤ Schedule.maxStackSize := by
  rw [dup] at h
  split at h
  next =>
    split at h
    next => cases h
    next hroom =>
      cases h
      simp only [size, Array.size_push] at hroom ⊢
      omega
  next => cases h

/-- An exchange keeps the number of items. -/
theorem size_swap {s stack : Stack} {k : Nat} (h : s.swap k = .ok stack) :
    stack.size = s.size := by
  rw [swap] at h
  split at h
  next =>
    cases h
    simp [size]
  next => cases h

/-- A command of a host keeps a stack within its limit. -/
theorem size_perform_le {s : Stack} (h : s.size ≤ Schedule.maxStackSize) (command : Command) :
    (s.perform command).stack.size ≤ Schedule.maxStackSize := by
  cases command with
  | push w =>
    rw [perform]
    split
    next hpush => exact size_push_le hpush
    next => exact h
  | pop =>
    rw [perform]
    split
    next hpop => exact Nat.le_trans (size_pop_le hpop) h
    next => exact h
  | peek distance => exact h
  | dup k =>
    rw [perform]
    split
    next hdup => exact size_dup_le hdup
    next => exact h
  | swap k =>
    rw [perform]
    split
    next hswap => exact size_swap hswap ▸ h
    next => exact h
  | clear => exact Nat.zero_le _

/-- Putting words on a stack keeps it within its limit. -/
theorem size_seed_le {s : Stack} (h : s.size ≤ Schedule.maxStackSize) (words : List Word) :
    (s.seed words).size ≤ Schedule.maxStackSize := by
  induction words generalizing s with
  | nil => exact h
  | cons w words ih =>
    rw [seed, List.foldl_cons]
    apply ih
    cases hpush : s.push w with
    | error fault => exact h
    | ok stack => exact size_push_le hpush

/-! ## Stacks given as lists -/

/-- The stack with the given items from the top down. -/
def ofList (items : List Word) : Stack :=
  ⟨items.reverse.toArray⟩

/-- The view of a stack that is given as a list. -/
@[simp] theorem toList_ofList (items : List Word) : (ofList items).toList = items := by
  simp [ofList, toList]

/-- A stack is the one with the items of its view. -/
@[simp] theorem ofList_toList (s : Stack) : ofList s.toList = s :=
  ext_toList (toList_ofList _)

/-- A list gives as many items as it has. -/
@[simp] theorem size_ofList (items : List Word) : (ofList items).size = items.length := by
  rw [← length_toList, toList_ofList]

/-- An operation is known from what it does to the view. -/
theorem map_ofList_map_toList (result : Except Fault Stack) :
    (result.map toList).map ofList = result := by
  cases result with
  | error fault => rfl
  | ok s => simp [Except.map]

/-- A push on a stack that is given as a list. -/
theorem push_ofList (items : List Word) (w : Word) :
    (ofList items).push w =
      if items.length ≥ Schedule.maxStackSize then .error .stackOverflow
      else .ok (ofList (w :: items)) := by
  rw [← map_ofList_map_toList (push _ _), push_toList, size_ofList, toList_ofList]
  split <;> rfl

/-- A pop from a stack that is given as a list. -/
theorem pop_ofList_cons (w : Word) (rest : List Word) :
    (ofList (w :: rest)).pop = .ok { word := w, rest := ofList rest } := by
  simp [ofList, pop]

/-- A look among the first items of a stack does not depend on the others. -/
theorem peek_ofList_append {operands : List Word} {distance : Nat} (rest : List Word)
    (h : distance < operands.length) :
    (ofList (operands ++ rest)).peek distance = .ok (operands.getD distance 0) := by
  rw [peek_toList, toList_ofList, List.getElem?_append_left h, List.getD_eq_getElem?_getD,
    List.getElem?_eq_getElem h]
  rfl

/-- A copy of the last of `k` items only looks at these. -/
theorem dup_ofList_append {operands : List Word} {k : Nat} (rest : List Word)
    (hk : operands.length = k + 1) :
    (ofList (operands ++ rest)).dup (k + 1) =
      if (operands ++ rest).length ≥ Schedule.maxStackSize then .error .stackOverflow
      else .ok (ofList (operands.getD k 0 :: operands ++ rest)) := by
  have hin : ¬ (k + 1 = 0 ∨ k + 1 > (operands ++ rest).length) := by
    rw [List.length_append]
    omega
  have hget : (operands ++ rest).getD (k + 1 - 1) 0 = operands.getD k 0 := by
    simp only [Nat.add_sub_cancel, List.getD_eq_getElem?_getD]
    rw [List.getElem?_append_left (by omega)]
  rw [← map_ofList_map_toList (dup _ _), dup_toList, size_ofList, toList_ofList, if_neg hin,
    hget]
  split <;> rfl

/-- An exchange of the first with the last of `k + 1` items only looks at these. -/
theorem swap_ofList_append {operands : List Word} {k : Nat} (rest : List Word)
    (hk : operands.length = k + 2) :
    (ofList (operands ++ rest)).swap (k + 1) =
      .ok (ofList ((operands.set 0 (operands.getD (k + 1) 0)).set (k + 1) (operands.getD 0 0) ++
        rest)) := by
  have hin : ¬ (k + 1 = 0 ∨ k + 1 ≥ (operands ++ rest).length) := by
    rw [List.length_append]
    omega
  have hlast : (operands ++ rest).getD (k + 1) 0 = operands.getD (k + 1) 0 := by
    simp only [List.getD_eq_getElem?_getD]
    rw [List.getElem?_append_left (by omega)]
  have hfirst : (operands ++ rest).getD 0 0 = operands.getD 0 0 := by
    simp only [List.getD_eq_getElem?_getD]
    rw [List.getElem?_append_left (by omega)]
  rw [← map_ofList_map_toList (swap _ _), swap_toList, size_ofList, toList_ofList, if_neg hin,
    hlast, hfirst, List.set_append_left _ _ (by omega),
    List.set_append_left _ _ (by rw [List.length_set]; omega)]
  rfl

/-- The first items of a stack that is large enough lie on top of the others. -/
theorem exists_ofList_append {s : Stack} {count : Nat} (h : count ≤ s.size) :
    ∃ operands rest, s = ofList (operands ++ rest) ∧ operands.length = count := by
  refine ⟨s.toList.take count, s.toList.drop count, ?_, ?_⟩
  · rw [List.take_append_drop, ofList_toList]
  · rw [List.length_take, length_toList]
    omega

/-- Putting words on top of a stack that stays within its limit keeps them all. -/
theorem toList_seed {s : Stack} {words : List Word}
    (h : s.size + words.length ≤ Schedule.maxStackSize) :
    (s.seed words).toList = words.reverse ++ s.toList := by
  induction words generalizing s with
  | nil => rfl
  | cons w words ih =>
    have hroom : s.toList.length < Schedule.maxStackSize := by
      rw [length_toList]
      simp only [List.length_cons] at h
      omega
    have hpush : s.push w = .ok (ofList (w :: s.toList)) := by
      rw [← ofList_toList s, push_ofList, if_neg (by omega), toList_ofList]
    have hsize : (ofList (w :: s.toList)).size + words.length ≤ Schedule.maxStackSize := by
      simp only [size_ofList, List.length_cons, length_toList] at h ⊢
      omega
    have hseed : s.seed (w :: words) = (ofList (w :: s.toList)).seed words := by
      simp [seed, hpush, Except.toOption]
    rw [hseed, ih hsize, toList_ofList, List.reverse_cons, List.append_assoc]
    rfl

end Stack

end MeteredMachine
