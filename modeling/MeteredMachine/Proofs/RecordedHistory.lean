import Mathlib.Data.List.Basic
import Mathlib.Data.List.Induction
import MeteredMachine.Trace.Recorder

/-!
# What a recorder has recorded

A recorder keeps pending snapshots, a depth and a stack of open frames.  What it has recorded
does not need any of them to be told: it is one entry for every completion that found a pair
of snapshots, in the order of the completions.  Frames only decide below which entry an entry
hangs, so the flat list of all entries is the same whether calls are traced or not.

Main results:

- Definition {lit}`Trace.Recorder.history` reads the entries off the commands of a host.
- Theorem {lit}`Trace.Recorder.forall₂_stemsFrom_history`: each of them has the depth and the place
  that its completion finds.
- Theorem {lit}`Trace.Recorder.Follows.perform`: every command keeps a recorder in step with the
  commands so far.
- Theorem {lit}`Trace.Recorder.flatten_finish_eq_history`: the flat list of all entries is the
  history of the commands.
-/

namespace MeteredMachine

namespace Trace

namespace Recorder

/-! ## Reading a history off the commands -/

/-- The snapshot that a command takes before a step. -/
def Command.before? : Command → Option Snapshot
  | .before snapshot => some snapshot
  | _ => none

/-- The snapshot that a command takes after a step. -/
def Command.after? : Command → Option Snapshot
  | .after snapshot => some snapshot
  | _ => none

/-- The commands since the last completion, latest first. -/
def sinceCompletion (past : List Command) : List Command :=
  past.reverse.takeWhile (· ≠ .complete)

/-- The last snapshot before a step since the last completion. -/
def lastBefore? (past : List Command) : Option Snapshot :=
  (sinceCompletion past).findSome? Command.before?

/-- The last snapshot after a step since the last completion, unless a snapshot before a step
came later. -/
def lastAfter? (past : List Command) : Option Snapshot :=
  ((sinceCompletion past).takeWhile (·.before?.isNone)).findSome? Command.after?

/-- The number of calls that some commands leave open; leaving a call that was never entered
does not count. -/
def openCalls (past : List Command) : Nat :=
  past.foldl (fun depth command =>
    match command with
    | .enter => depth + 1
    | .leave => depth - 1
    | _ => depth) 0

/-- The entry that a completion gives after some commands.  There has to be a snapshot before
a step and a later one after it, and the first has to show a running machine at a byte of its
code. -/
def entryDue? (o : Options) (past : List Command) : Option Entry :=
  match lastBefore? past, lastAfter? past with
  | some before, some after =>
    if before.status = .running then
      before.byte?.map fun byte => .ofSnapshots o (openCalls past) byte before after
    else none
  | _, _ => none

/-- For each time that a command is given, in order, the commands before it. -/
def occasions (command : Command) (commands : List Command) : List (List Command) :=
  (List.range commands.length).filterMap fun i =>
    if commands[i]? = some command then some (commands.take i) else none

/-- The entries that the completions among some commands give, in order. -/
def history (o : Options) (commands : List Command) : List Entry :=
  (occasions .complete commands).filterMap (entryDue? o)

/-- An entry stems from a completion after some commands.  Its depth is the number of calls that are
open then, and its position, byte, address and gas are those of the last snapshot before a step. -/
structure StemsFrom (past : List Command) (e : Entry) : Prop where
  depth_eq : e.depth = openCalls past
  before_eq : ∃ before, lastBefore? past = some before ∧ before.status = .running ∧
    before.byte? = some e.opcode ∧ e.pc = before.pc ∧ e.address = before.address ∧
    e.gas = before.remaining

/-- The completions that have an entry, each as the commands before it. -/
def dueCompletions (o : Options) (commands : List Command) : List (List Command) :=
  (occasions .complete commands).filter fun past => (entryDue? o past).isSome

theorem stemsFrom_of_entryDue? {o : Options} {past : List Command} {e : Entry}
    (h : entryDue? o past = some e) : StemsFrom past e := by
  rw [entryDue?] at h
  split at h
  next before after hbefore _ =>
    rw [Option.ite_none_right_eq_some] at h
    obtain ⟨byte, hbyte, rfl⟩ := Option.map_eq_some_iff.1 h.2
    exact ⟨rfl, before, hbefore, h.1, hbyte, rfl, rfl, rfl⟩
  next => cases h

/-- The entries of a history stem from the completions that have one, in order. -/
theorem forall₂_stemsFrom_history (o : Options) (commands : List Command) :
    List.Forall₂ StemsFrom (dueCompletions o commands) (history o commands) := by
  rw [dueCompletions, history]
  induction occasions .complete commands with
  | nil => exact .nil
  | cons past rest ih =>
    cases hdue : entryDue? o past with
    | none => simpa [hdue] using ih
    | some e => simpa [hdue] using ⟨stemsFrom_of_entryDue? hdue, ih⟩

/-! ## One more command -/

section

variable (past : List Command) (command : Command)

theorem sinceCompletion_concat :
    sinceCompletion (past ++ [command]) =
      if command = .complete then [] else command :: sinceCompletion past := by
  rw [sinceCompletion, List.reverse_concat, List.takeWhile_cons, sinceCompletion]
  by_cases h : command = .complete <;> simp [h]

theorem openCalls_concat :
    openCalls (past ++ [command]) =
      match command with
      | .enter => openCalls past + 1
      | .leave => openCalls past - 1
      | _ => openCalls past := by
  rw [openCalls, List.foldl_concat]
  rfl

/-- The last command is one more occasion of itself and of no other command. -/
theorem occasions_concat (other : Command) :
    occasions other (past ++ [command]) =
      occasions other past ++ if command = other then [past] else [] := by
  rw [occasions, List.length_append, List.length_singleton, List.range_succ,
    List.filterMap_append]
  congr 1
  · apply List.filterMap_congr
    intro i hi
    have hlt : i < past.length := List.mem_range.1 hi
    rw [List.getElem?_append_left hlt, List.take_append_of_le_length (Nat.le_of_lt hlt)]
  · by_cases h : command = other <;> simp [h]

theorem history_concat (o : Options) :
    history o (past ++ [command]) =
      history o past ++ if command = .complete then (entryDue? o past).toList else [] := by
  rw [history, occasions_concat, List.filterMap_append, history]
  by_cases h : command = .complete
  · rw [if_pos h, if_pos h]
    cases hentry : entryDue? o past <;> simp [hentry]
  · rw [if_neg h, if_neg h, List.filterMap_nil]

end

/-! ## Flat lists of a recorder -/

/-- Closing all frames lists their entries from the outermost frame to the innermost. -/
theorem flatten_finish (r : Recorder) :
    r.finish.flatten = r.outer.reverse.flatMap CallForest.flatten ++ r.current.flatten := by
  obtain ⟨options, before?, after?, current, outer, depth⟩ := r
  simp only [finish]
  induction outer generalizing current with
  | nil => rfl
  | cons caller outer ih => simp [ih]

/-- Closing a frame changes only frames, and moves no entry in the flat list. -/
theorem closeFrame_eq (r : Recorder) :
    ∃ current outer, r.closeFrame = { r with current, outer } ∧
      r.closeFrame.finish.flatten = r.finish.flatten := by
  rw [closeFrame]
  split
  next => exact ⟨_, _, rfl, rfl⟩
  next caller outer houter => exact ⟨_, _, rfl, by simp [flatten_finish, houter]⟩

/-! ## The recorder follows the commands -/

/-- A recorder is in step with the commands so far: its pending snapshots and its depth are
those that the commands leave, and it has recorded their history. -/
structure Follows (o : Options) (past : List Command) (r : Recorder) : Prop where
  options_eq : r.options = o
  before_eq : r.before? = lastBefore? past
  after_eq : r.after? = lastAfter? past
  depth_eq : r.depth = openCalls past
  flatten_eq : r.finish.flatten = history o past

/-- A completion forgets the pending snapshots and pushes their entry, if they have one. -/
theorem complete_eq (r : Recorder) :
    r.complete =
      { r with
        before? := none
        after? := none
        current :=
          match r.before?.bind fun before => r.after?.bind (r.recorded? before) with
          | some entry => r.current.push entry
          | none => r.current } := by
  rw [complete]
  cases r.before? with
  | none => rfl
  | some before =>
    cases r.after? with
    | none => rfl
    | some after =>
      simp only [Option.bind_some]
      cases r.recorded? before after <;> rfl

namespace Follows

variable {o : Options} {past : List Command} {r : Recorder}

/-- The pending snapshots have the entry that is due. -/
theorem pending_eq (h : Follows o past r) :
    (r.before?.bind fun before => r.after?.bind (r.recorded? before)) = entryDue? o past := by
  rw [entryDue?, ← h.before_eq, ← h.after_eq, ← h.depth_eq, ← h.options_eq]
  cases r.before? with
  | none => rfl
  | some before =>
    cases r.after? with
    | none => rfl
    | some after =>
      simp only [Option.bind_some, recorded?]
      cases before.status <;> cases before.byte? <;> simp

theorem complete (h : Follows o past r) : Follows o (past ++ [.complete]) r.complete := by
  have hsince : sinceCompletion (past ++ [.complete]) = [] := by
    rw [sinceCompletion_concat, if_pos rfl]
  rw [complete_eq, h.pending_eq]
  refine ⟨h.options_eq, ?_, ?_, ?_, ?_⟩
  · rw [lastBefore?, hsince]
    rfl
  · rw [lastAfter?, hsince]
    rfl
  · rw [openCalls_concat]
    exact h.depth_eq
  · have hflat := h.flatten_eq
    rw [flatten_finish] at hflat
    rw [history_concat, if_pos rfl, ← hflat, flatten_finish]
    cases entryDue? o past <;> simp

/-- A command that completes nothing keeps a recorder in step if it changes snapshots and depth
as it should and moves no entry. -/
theorem of_flatten_eq {command : Command} {next : Recorder} (h : Follows o past r)
    (hcommand : command ≠ .complete) (hoptions : next.options = r.options)
    (hbefore : next.before? = command.before?.or r.before?)
    (hafter : next.after? = if command.before?.isSome then none else command.after?.or r.after?)
    (hdepth : next.depth = openCalls (past ++ [command]))
    (hflatten : next.finish.flatten = r.finish.flatten) :
    Follows o (past ++ [command]) next := by
  have hsince : sinceCompletion (past ++ [command]) = command :: sinceCompletion past := by
    rw [sinceCompletion_concat, if_neg hcommand]
  refine ⟨hoptions.trans h.options_eq, ?_, ?_, hdepth, ?_⟩
  · rw [hbefore, h.before_eq, lastBefore?, lastBefore?, hsince, List.findSome?_cons]
    cases command.before? <;> rfl
  · rw [hafter, h.after_eq, lastAfter?, lastAfter?, hsince, List.takeWhile_cons]
    cases hsome : command.before? with
    | some snapshot => rfl
    | none =>
      simp only [Option.isSome_none, Option.isNone_none, if_true, List.findSome?_cons]
      cases command.after? <;> rfl
  · rw [hflatten, h.flatten_eq, history_concat, if_neg hcommand, List.append_nil]

theorem enter (h : Follows o past r) : Follows o (past ++ [.enter]) r.enter := by
  have hdepth : openCalls (past ++ [.enter]) = r.depth + 1 := by
    rw [openCalls_concat, h.depth_eq]
  rw [Recorder.enter]
  split
  next =>
    -- The new frame is empty and the old one is the innermost around it.
    apply h.of_flatten_eq <;> simp [Command.before?, Command.after?, hdepth, flatten_finish,
      CallForest.flatten]
  next =>
    apply h.of_flatten_eq <;> simp [Command.before?, Command.after?, hdepth, flatten_finish]

theorem leave (h : Follows o past r) : Follows o (past ++ [.leave]) r.leave := by
  have hdepth : openCalls (past ++ [.leave]) = r.depth - 1 := by
    rw [openCalls_concat, h.depth_eq]
  rw [Recorder.leave]
  split
  next hzero =>
    apply h.of_flatten_eq <;> simp [Command.before?, Command.after?, hdepth, hzero]
  next =>
    split
    next =>
      obtain ⟨current, outer, hclose, hflatten⟩ :=
        closeFrame_eq { r with depth := r.depth - 1 }
      rw [hclose] at hflatten ⊢
      apply h.of_flatten_eq _ _ _ _ _ hflatten <;>
        simp [Command.before?, Command.after?, hdepth]
    next =>
      apply h.of_flatten_eq <;> simp [Command.before?, Command.after?, hdepth, flatten_finish]

/-- Every command keeps a recorder in step with the commands so far. -/
theorem perform (h : Follows o past r) (command : Command) :
    Follows o (past ++ [command]) (r.perform command) := by
  cases command with
  | before snapshot =>
    rw [Recorder.perform, Recorder.before]
    apply h.of_flatten_eq <;>
      simp [Command.before?, openCalls_concat, h.depth_eq, flatten_finish]
  | after snapshot =>
    rw [Recorder.perform, Recorder.after]
    apply h.of_flatten_eq <;>
      simp [Command.before?, Command.after?, openCalls_concat, h.depth_eq, flatten_finish]
  | complete => exact h.complete
  | enter => exact h.enter
  | leave => exact h.leave

end Follows

/-- The recorder after some commands from its start. -/
def performAll (o : Options) (commands : List Command) : Recorder :=
  commands.foldl perform (ofOptions o)

theorem performAll_concat (o : Options) (past : List Command) (command : Command) :
    performAll o (past ++ [command]) = (performAll o past).perform command := by
  rw [performAll, List.foldl_concat, performAll]

/-- A recorder is in step with whatever commands it is given. -/
theorem follows_performAll (o : Options) (commands : List Command) :
    Follows o commands (performAll o commands) := by
  induction commands using List.reverseRecOn with
  | nil => exact ⟨rfl, rfl, rfl, rfl, rfl⟩
  | append_singleton past command ih =>
    rw [performAll_concat]
    exact ih.perform command

/-- Nothing is lost, repeated or moved.  Whatever commands a recorder is given, in whatever
order, the flat list of its entries is their history: one entry for each completion that finds
a snapshot before a step and a later one after it, built from the last such pair at the depth
of the calls that are open.  So the entries stem from the completions that have one, in order,
each with the number of open calls as its depth.  Neither snapshots nor the history depend on
whether calls are traced, so the flat list is the same if they are not. -/
theorem flatten_finish_eq_history (o : Options) (commands : List Command) :
    (performAll o commands).finish.flatten = history o commands ∧
      List.Forall₂ StemsFrom (dueCompletions o commands) (performAll o commands).finish.flatten ∧
      ∀ callTrace : Bool,
        (∀ {σ : Type} (m : Machine σ) (storage? : Option Storage),
          Snapshot.capture { o with callTrace } m storage? = .capture o m storage?) ∧
        (performAll { o with callTrace } commands).finish.flatten =
          (performAll o commands).finish.flatten := by
  have hflatten := (follows_performAll o commands).flatten_eq
  refine ⟨hflatten, ?_, ?_⟩
  · rw [hflatten]
    exact forall₂_stemsFrom_history o commands
  intro callTrace
  refine ⟨fun _ _ => rfl, ?_⟩
  rw [hflatten]
  exact (follows_performAll { o with callTrace } commands).flatten_eq

end Recorder

end Trace

end MeteredMachine
