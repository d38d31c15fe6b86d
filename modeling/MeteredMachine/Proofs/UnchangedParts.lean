import MeteredMachine.Proofs.TracedRun

/-!
# Leaving out what does not change

A recorder may leave out the stack, memory and storage of a step that does not change them.  Each
step is compared on its own, with the snapshots on its two sides, and no entry refers to an
earlier one.  Still nothing is lost over a whole run: the snapshot after a step is the one before
the next, so the last value that a log shows is the value that the machine still has.

Main results:

- Definition {lit}`Trace.fillGaps` fills what is left out with the last value before it.
- Theorem {lit}`Trace.fillGaps_changes`: filling the changes of a sequence gives the sequence back.
- Structure {lit}`Trace.LeavesOutRepeats` compares one part of two logs.
- Theorem {lit}`Trace.Recorder.hideUnchanged_lossless` says that a log which leaves out what does
  not change holds as much as the full log of the same run.
-/

namespace MeteredMachine

namespace Machine

variable {σ : Type}

theorem context_step (m : Machine σ) : m.step.context = m.context := by
  cases hstatus : m.status with
  | exited reason => rw [step_of_exited hstatus]
  | running =>
    cases hverdict : m.verdict.refusal? with
    | some fault => rw [step_of_refused hstatus hverdict]
    | none => rw [step_of_permitted hstatus hverdict]

theorem context_iterate_step (m : Machine σ) (rounds : Nat) :
    (step^[rounds] m).context = m.context := by
  induction rounds with
  | zero => rfl
  | succ rounds ih => rw [Function.iterate_succ_apply', context_step, ih]

end Machine

namespace Trace

/-! ## Gaps -/

section

variable {α : Type}

/-- Fills every gap with the last value before it, or with the value at the start. -/
def fillGaps (start : α) : List (Option α) → List α
  | [] => []
  | value? :: rest => value?.getD start :: fillGaps (value?.getD start) rest

/-- Part of two logs of one run, where `value i` is what the machine has after `i` steps.  The full
log shows the value after every step; filling the gaps of the sparse one gives the same values;
and the sparse one shows only values that differ from the one before the step. -/
structure LeavesOutRepeats (value : Nat → α) (sparse full : List (Option α)) : Prop where
  full_eq : ∀ i v?, full[i]? = some v? → v? = some (value (i + 1))
  fill_eq : (fillGaps (value 0) sparse).map some = full
  ne_before : ∀ i v, sparse[i]? = some (some v) → v ≠ value i

variable [DecidableEq α]

/-- The value after a step, unless it is the one before it. -/
def change? (value : Nat → α) (i : Nat) : Option α :=
  if value i = value (i + 1) then none else some (value (i + 1))

theorem getD_change? (value : Nat → α) (i : Nat) :
    (change? value i).getD (value i) = value (i + 1) := by
  by_cases hsame : value i = value (i + 1) <;> simp [change?, hsame]

/-- Filling the changes of a sequence gives the sequence back. -/
theorem fillGaps_changes (value : Nat → α) (n : Nat) :
    fillGaps (value 0) ((List.range n).map (change? value)) =
      (List.range n).map fun i => value (i + 1) := by
  induction n generalizing value with
  | zero => rfl
  | succ n ih =>
    -- The first change leads to `value 1`, from which the shifted sequence starts.
    have hshift := ih fun i => value (i + 1)
    rw [List.range_succ_eq_map, List.map_cons, List.map_cons, List.map_map, List.map_map,
      fillGaps, getD_change?]
    exact congrArg (value 1 :: ·) hshift

theorem leavesOutRepeats_changes (value : Nat → α) (n : Nat) :
    LeavesOutRepeats value ((List.range n).map (change? value))
      ((List.range n).map fun i => some (value (i + 1))) where
  full_eq := by
    intro i v? hv
    obtain ⟨_, rfl⟩ := List.getElem?_eq_some_iff.1 hv
    simp
  fill_eq := by simp [fillGaps_changes]
  ne_before := by
    intro i v hv
    obtain ⟨j, hj, hchange⟩ : ∃ j, (List.range n)[i]? = some j ∧ change? value j = some v := by
      simpa using hv
    obtain ⟨_, rfl⟩ := List.getElem?_eq_some_iff.1 hj
    simp only [List.getElem_range, change?] at hchange
    split at hchange
    next => cases hchange
    next hdiffers =>
      cases hchange
      exact fun hsame => hdiffers hsame.symm

end

/-! ## Parts of entries -/

namespace Entry

/-- An entry without the parts that may be left out when they do not change. -/
def withoutParts (e : Entry) : Entry :=
  { e with stack? := none, memory? := none, storage? := none }

theorem shownPart_some {α : Type} [DecidableEq α] (o : Options) (value : Nat → α) (i : Nat) :
    shownPart o (some (value i)) (some (value (i + 1))) =
      if o.hideUnchanged then change? value i else some (value (i + 1)) := by
  unfold shownPart change?
  cases o.hideUnchanged <;> simp

/-- Where the whole stack is shown at all, it is shown like the other parts. -/
theorem shownStack_eq {o : Options} (hslots : o.stackInOut = false) (hstack : o.hideStack = false)
    (before after : Snapshot) :
    shownStack o before after = shownPart o before.stack? after.stack? := by
  simp [shownStack, shownPart, hslots, hstack]

end Entry

namespace Recorder

variable {σ : Type} {m final : Machine σ} {o : Options} {storage? : Option Storage}

section

variable {e : Entry} (he : stepEntry o storage? m = some e)

include he

theorem stack?_stepEntry (hslots : o.stackInOut = false) (hshown : o.hideStack = false) :
    e.stack? = Entry.shownPart o (some m.state.stack.items.toList)
      (some m.step.state.stack.items.toList) := by
  obtain ⟨byte, _, rfl⟩ := Option.map_eq_some_iff.1 he
  simp [Entry.ofSnapshots, Entry.shownStack_eq hslots hshown, Snapshot.capture,
    Options.keepsStack, hshown]

theorem memory?_stepEntry (hshown : o.hideMemory = false) :
    e.memory? = Entry.shownPart o (some m.state.memory.bytes.toList)
      (some m.step.state.memory.bytes.toList) := by
  obtain ⟨byte, _, rfl⟩ := Option.map_eq_some_iff.1 he
  simp [Entry.ofSnapshots, Snapshot.capture, hshown]

theorem storage?_stepEntry {storage : Storage} (hstorage : storage? = some storage)
    (hshown : o.hideStorage = false) :
    e.storage? = Entry.shownPart o (some (storage.slots m.context.address))
      (some (storage.slots m.context.address)) := by
  obtain ⟨byte, _, rfl⟩ := Option.map_eq_some_iff.1 he
  simp [Entry.ofSnapshots, Snapshot.capture, hstorage, hshown, Machine.context_step]

end

/-! ## Logs with and without unchanged parts -/

section

variable (o) (storage?) (hideUnchanged : Bool) (steps : Nat)

/-- Logs with and without unchanged parts agree on everything else. -/
theorem withoutParts_logOf (m : Machine σ) :
    (logOf { o with hideUnchanged } storage? steps m).map Entry.withoutParts =
      (logOf o storage? steps m).map Entry.withoutParts := by
  rw [logOf, logOf, List.map_filterMap, List.map_filterMap]
  apply List.filterMap_congr
  intro i _
  simp only [stepEntry, Option.map_map]
  rfl

theorem length_logOf_hideUnchanged (m : Machine σ) :
    (logOf { o with hideUnchanged } storage? steps m).length =
      (logOf o storage? steps m).length := by
  simpa using congrArg List.length (withoutParts_logOf o storage? hideUnchanged steps m)

end

section

variable {steps : Nat} (hbound : m.state.stack.size ≤ Schedule.maxStackSize)
  (hrunning : m.isRunning = true) (hruns : Machine.RunsIn steps m final)

include hbound hrunning hruns

/-- What is known about the entry of every step is known, in order, about the whole log. -/
theorem map_logOf_eq {β : Type} {f : Entry → β} {g : Nat → β}
    (hentry : ∀ i e, stepEntry o storage? (Machine.step^[i] m) = some e → f e = g i) :
    (logOf o storage? steps m).map f = (List.range (logOf o storage? steps m).length).map g := by
  apply List.ext_getElem (by simp)
  intro i hi _
  rw [List.length_map] at hi
  have he := getElem?_logOf o storage? hbound hrunning hruns i
  rw [List.getElem?_eq_getElem hi] at he
  split at he
  next => simpa using hentry i _ he.symm
  next => cases he

/-- A part that entries show, unless unchanged parts are left out, loses nothing when they are. -/
theorem leavesOutRepeats_logOf {α : Type} [DecidableEq α] {part : Entry → Option α}
    (value : Nat → α)
    (hpart : ∀ hideUnchanged i e,
      stepEntry { o with hideUnchanged } storage? (Machine.step^[i] m) = some e →
      part e = Entry.shownPart { o with hideUnchanged } (some (value i)) (some (value (i + 1)))) :
    LeavesOutRepeats value
      ((logOf { o with hideUnchanged := true } storage? steps m).map part)
      ((logOf { o with hideUnchanged := false } storage? steps m).map part) := by
  have hsparse := map_logOf_eq (g := change? value) hbound hrunning hruns fun i e he =>
    (hpart true i e he).trans (Entry.shownPart_some _ value i)
  have hfull := map_logOf_eq (g := fun i => some (value (i + 1))) hbound hrunning hruns
    fun i e he => (hpart false i e he).trans (Entry.shownPart_some _ value i)
  rw [length_logOf_hideUnchanged o] at hsparse hfull
  rw [hsparse, hfull]
  exact leavesOutRepeats_changes value _

end

/-- Leaving out what does not change loses nothing.  From any running machine, under every policy,
with or without a storage and whatever the other options, as long as entries do not show items
instead of stacks, the logs with and without unchanged parts have the same entries up to stack,
memory and storage.  For each of these parts that is not hidden, filling the gaps of the sparse log
with the last value it shows, or with what there was at the start, gives the full log; and the
sparse log shows a value only where the step has changed it. -/
theorem hideUnchanged_lossless (m : Machine σ) (hstack : m.state.stack.size ≤ 1024)
    (hrunning : m.status = .running) (o : Options) (hslots : o.stackInOut = false)
    (storage? : Option Storage) :
    let finished (hideUnchanged : Bool) : CallForest :=
      (run storage?
        { recorder := .ofOptions { o with hideUnchanged }, machine := m }).recorder.finish
    let state (i : Nat) : State := (Machine.step^[i] m).state
    ∃ sparse full : List Entry,
      finished true = .flat sparse ∧ finished false = .flat full ∧
      sparse.length = full.length ∧
      sparse.map Entry.withoutParts = full.map Entry.withoutParts ∧
      (o.hideStack = false →
        LeavesOutRepeats (fun i => (state i).stack.items.toList)
          (sparse.map (·.stack?)) (full.map (·.stack?))) ∧
      (o.hideMemory = false →
        LeavesOutRepeats (fun i => (state i).memory.bytes.toList)
          (sparse.map (·.memory?)) (full.map (·.memory?))) ∧
      ∀ storage, storage? = some storage → o.hideStorage = false →
        LeavesOutRepeats (fun _ => storage.slots m.context.address)
          (sparse.map (·.storage?)) (full.map (·.storage?)) := by
  intro finished state
  have hrun : m.isRunning = true := (Machine.isRunning_eq_true_iff m).2 hrunning
  obtain ⟨steps, hle, hruns⟩ := Machine.exists_runsIn_run hstack
  have hfinished (hideUnchanged : Bool) :
      finished hideUnchanged = .flat (logOf { o with hideUnchanged } storage? steps m) :=
    congrArg (fun t => t.recorder.finish)
      (run_eq { o with hideUnchanged } storage? hstack hrun hruns hle).2
  have hnext (i : Nat) : (Machine.step^[i] m).step = Machine.step^[i + 1] m :=
    (Function.iterate_succ_apply' ..).symm
  refine ⟨_, _, hfinished true, hfinished false, ?_, ?_, ?_, ?_, ?_⟩
  · exact (length_logOf_hideUnchanged o storage? true steps m).trans
      (length_logOf_hideUnchanged o storage? false steps m).symm
  · exact (withoutParts_logOf o storage? true steps m).trans
      (withoutParts_logOf o storage? false steps m).symm
  · intro hshown
    apply leavesOutRepeats_logOf hstack hrun hruns fun i => (state i).stack.items.toList
    intro hideUnchanged i e he
    have hpart := stack?_stepEntry he hslots hshown
    rwa [hnext] at hpart
  · intro hshown
    apply leavesOutRepeats_logOf hstack hrun hruns fun i => (state i).memory.bytes.toList
    intro hideUnchanged i e he
    have hpart := memory?_stepEntry he hshown
    rwa [hnext] at hpart
  · intro storage hstorage hshown
    apply leavesOutRepeats_logOf hstack hrun hruns fun _ => storage.slots m.context.address
    intro hideUnchanged i e he
    have hpart := storage?_stepEntry he hstorage hshown
    rwa [Machine.context_iterate_step] at hpart

/-- Storing a word: memory is shown once, where it changes, and storage never. -/
theorem hideUnchanged_lossless_of_store :
    let m := Machine.ofCode #[0x60, 0x05, 0x60, 0x00, 0x52, 0x5b] #[] 100 default Policy.permit ()
    let storage := Storage.empty.set default 1 2
    let finished (hideUnchanged : Bool) : CallForest :=
      (run (some storage)
        { recorder := .ofOptions { hideUnchanged }, machine := m }).recorder.finish
    m.state.stack.size ≤ 1024 ∧ m.status = .running ∧ ({} : Options).stackInOut = false ∧
      ∃ sparse full : List Entry,
        finished true = .flat sparse ∧ finished false = .flat full ∧
        sparse.map (·.memory?.isSome) = [false, false, true, false] ∧
        (fillGaps [] (sparse.map (·.memory?))).map some = full.map (·.memory?) ∧
        sparse.map (·.storage?) = [none, none, none, none] ∧
        (fillGaps (storage.slots default) (sparse.map (·.storage?))).map some =
          full.map (·.storage?) := by
  intro m storage finished
  have hstack : m.state.stack.size ≤ 1024 := by decide
  have hmemory : (finished true).flatten.map (·.memory?.isSome) = [false, false, true, false] := by
    decide +kernel
  have hstorage : (finished true).flatten.map (·.storage?) = [none, none, none, none] := by
    decide +kernel
  obtain ⟨sparse, full, hsparse, hfull, _, _, _, hfillMemory, hfillStorage⟩ :=
    hideUnchanged_lossless m hstack rfl {} rfl (some storage)
  have hflatten : (finished true).flatten = sparse :=
    (congrArg CallForest.flatten hsparse).trans (CallForest.flatten_flat sparse)
  rw [hflatten] at hmemory hstorage
  exact ⟨hstack, rfl, rfl, sparse, full, hsparse, hfull, hmemory, (hfillMemory rfl).fill_eq,
    hstorage, (hfillStorage storage rfl rfl).fill_eq⟩

end Recorder

end Trace

end MeteredMachine
