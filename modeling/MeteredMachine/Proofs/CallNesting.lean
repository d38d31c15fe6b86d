import MeteredMachine.Proofs.RecordedHistory

/-!
# Entries below an entry

When a call ends, its entries are hung below the last entry of the caller, and they should be
deeper than it.  They are, as long as that entry is the caller's own.  A caller that has no
entry yet takes the entries of a call over as its own, though, and the entries of its next call
are then hung below the last of these, which is no less deep.

Main results:

- Definition {lit}`Trace.CallForest.Nested`: every entry is deeper than those above it.
- Theorem {lit}`Trace.CallForest.nested_attach`: where attaching a call keeps a forest nested.
- Theorem {lit}`Trace.Recorder.perform_cases` lists what a command does to the frames.
- Theorem {lit}`Trace.Recorder.nested_finish_iff` says exactly which commands lead to a nested
  forest; those that enter calls only from frames with an entry do.
-/

namespace MeteredMachine

namespace Trace

namespace CallForest

/-! ## Nested forests -/

/-- Every entry below an entry is deeper than it. -/
def Nested : CallForest → Prop
  | nil => True
  | node entry calls rest =>
    (∀ e ∈ calls.flatten, entry.depth < e.depth) ∧ calls.Nested ∧ rest.Nested

/-- Whether a forest is nested can be computed. -/
def decideNested : (f : CallForest) → Decidable f.Nested
  | nil => .isTrue trivial
  | node _ calls rest =>
    have := calls.decideNested
    have := rest.decideNested
    inferInstanceAs (Decidable (_ ∧ _ ∧ _))

instance : DecidablePred Nested := decideNested

/-- The last entry of the frame itself. -/
def last? : CallForest → Option Entry
  | nil => none
  | node entry _ rest => some (rest.last?.getD entry)

/-- The entries of a call are deeper than the entry of the caller that they are hung below. -/
def Fits (caller call : CallForest) : Prop :=
  ∀ last ∈ caller.last?, ∀ e ∈ call.flatten, last.depth < e.depth

@[simp] theorem nested_append (f g : CallForest) : (f ++ g).Nested ↔ f.Nested ∧ g.Nested := by
  show (f.append g).Nested ↔ _
  induction f with
  | nil => simp [append, Nested]
  | node entry calls rest _ ih => simp [append, Nested, ih, and_assoc]

@[simp] theorem nested_push (f : CallForest) (entry : Entry) :
    (f.push entry).Nested ↔ f.Nested := by
  simp [push, Nested, flatten]

/-- Attaching a call keeps nested forests nested exactly if its entries are deeper than the one
they are hung below. -/
theorem nested_attach (f call : CallForest) :
    (f.attach call).Nested ↔ f.Nested ∧ call.Nested ∧ f.Fits call := by
  fun_induction attach f call with
  | case1 call => simp [Nested, Fits, last?]
  | case2 entry calls call =>
    simp only [Nested, Fits, last?, flatten_append, nested_append, List.mem_append]
    grind
  | case3 entry calls next calls' rest call ih =>
    simp only [Nested, Fits, last?, Option.getD_some] at ih ⊢
    grind

@[simp] theorem last?_push (f : CallForest) (entry : Entry) :
    (f.push entry).last? = some entry := by
  rw [push]
  show (f.append _).last? = _
  induction f with
  | nil => rfl
  | node first calls rest _ ih => simp [append, last?, ih]

/-- A call that is attached to entries leaves the last of them in its place. -/
theorem last?_attach {f : CallForest} (hf : f ≠ nil) (call : CallForest) :
    (f.attach call).last? = f.last? := by
  fun_induction attach f call with
  | case1 call => exact absurd rfl hf
  | case2 entry calls call => rfl
  | case3 entry calls next calls' rest call ih =>
    rw [last?, ih (by simp)]
    rfl

end CallForest

namespace Recorder

/-! ## What a command does to the frames -/

variable {r : Recorder}

theorem depth_eq_of_cons {caller : CallForest} {outer : List CallForest}
    (hlength : r.outer.length = r.depth) (houter : r.outer = caller :: outer) :
    r.depth = outer.length + 1 := by
  rw [← hlength, houter, List.length_cons]

theorem leave_of_cons {caller : CallForest} {outer : List CallForest}
    (htraced : r.options.callTrace = true) (houter : r.outer = caller :: outer)
    (hdepth : r.depth = outer.length + 1) :
    r.leave =
      { r with current := caller.attach r.current, outer, depth := outer.length } := by
  rw [leave, if_neg (by omega)]
  simp only [htraced, if_true, closeFrame, houter, hdepth, Nat.add_sub_cancel]

/-- Where calls are traced, a command leaves the frames alone, pushes an entry at the depth of
the innermost one, opens a frame, or attaches the innermost one to its caller.  Pending
snapshots apart, nothing else changes. -/
theorem perform_cases (htraced : r.options.callTrace = true)
    (hlength : r.outer.length = r.depth) (command : Command) :
    ∃ before? after?,
      (command ≠ .enter ∧ (command = .leave → r.outer = []) ∧
          r.perform command = { r with before?, after? }) ∨
        (command = .complete ∧ ∃ entry : Entry, entry.depth = r.depth ∧
          r.perform command = { r with before?, after?, current := r.current.push entry }) ∨
        (command = .enter ∧
          r.perform command =
            { r with
              before?, after?, current := .nil, outer := r.current :: r.outer,
              depth := r.depth + 1 }) ∨
        (command = .leave ∧ ∃ caller outer, r.outer = caller :: outer ∧
          r.perform command =
            { r with
              before?, after?, current := caller.attach r.current, outer,
              depth := outer.length }) := by
  cases command with
  | before snapshot => exact ⟨_, _, Or.inl ⟨by simp, by simp, rfl⟩⟩
  | after snapshot => exact ⟨_, _, Or.inl ⟨by simp, by simp, rfl⟩⟩
  | complete =>
    refine ⟨none, none, ?_⟩
    rw [perform, complete_eq]
    cases hentry : r.before?.bind fun before => r.after?.bind (r.recorded? before) with
    | none => exact Or.inl ⟨by simp, by simp, rfl⟩
    | some entry =>
      refine Or.inr (Or.inl ⟨rfl, entry, ?_, rfl⟩)
      obtain ⟨before, _, hbefore⟩ := Option.bind_eq_some_iff.1 hentry
      obtain ⟨after, _, hafter⟩ := Option.bind_eq_some_iff.1 hbefore
      rw [recorded?] at hafter
      split at hafter
      next =>
        cases hafter
        rfl
      next => cases hafter
  | enter =>
    refine ⟨r.before?, r.after?, Or.inr (Or.inr (Or.inl ⟨rfl, ?_⟩))⟩
    rw [perform, enter, if_pos htraced]
  | leave =>
    refine ⟨r.before?, r.after?, ?_⟩
    cases houter : r.outer with
    | nil =>
      have hzero : r.depth = 0 := by
        rw [← hlength, houter]
        rfl
      refine Or.inl ⟨by simp, fun _ => rfl, ?_⟩
      rw [perform, leave, if_pos hzero, ← houter]
    | cons caller outer =>
      refine Or.inr (Or.inr (Or.inr ⟨rfl, caller, outer, rfl, ?_⟩))
      rw [perform, leave_of_cons htraced houter (depth_eq_of_cons hlength houter)]

/-! ## Depths of frames -/

/-- The open frames, innermost first. -/
def frames (r : Recorder) : List CallForest :=
  r.current :: r.outer

/-- Calls are traced, there is a frame around the innermost one for each open call, and no entry
of a frame is less deep than the frame. -/
structure Leveled (r : Recorder) : Prop where
  traced : r.options.callTrace = true
  length_outer : r.outer.length = r.depth
  depth_le : ∀ i f, r.frames[i]? = some f → ∀ e ∈ f.flatten, r.depth ≤ e.depth + i

theorem Leveled.perform (h : r.Leveled) (command : Command) : (r.perform command).Leveled := by
  obtain ⟨before?, after?, hcases⟩ := perform_cases h.traced h.length_outer command
  rcases hcases with ⟨_, _, heq⟩ | ⟨_, entry, hentry, heq⟩ | ⟨_, heq⟩ |
    ⟨_, caller, outer, houter, heq⟩
  · rw [heq]
    exact ⟨h.traced, h.length_outer, h.depth_le⟩
  · rw [heq]
    refine ⟨h.traced, h.length_outer, ?_⟩
    intro i f hf e he
    cases i with
    | zero =>
      obtain rfl : r.current.push entry = f := Option.some_inj.1 hf
      rw [CallForest.flatten_push, List.mem_append, List.mem_singleton] at he
      rcases he with he | rfl
      · exact h.depth_le 0 _ rfl e he
      · simp only [hentry]
        omega
    | succ i => exact h.depth_le (i + 1) f hf e he
  · rw [heq]
    refine ⟨h.traced, congrArg (· + 1) h.length_outer, ?_⟩
    intro i f hf e he
    cases i with
    | zero =>
      obtain rfl : CallForest.nil = f := Option.some_inj.1 hf
      cases he
    | succ i =>
      have hle := h.depth_le i f hf e he
      simp only
      omega
  · have hdepth := depth_eq_of_cons h.length_outer houter
    rw [heq]
    refine ⟨h.traced, rfl, ?_⟩
    intro i f hf e he
    have hframes : r.frames = r.current :: caller :: outer := by rw [frames, houter]
    cases i with
    | zero =>
      obtain rfl : caller.attach r.current = f := Option.some_inj.1 hf
      rw [CallForest.flatten_attach, List.mem_append] at he
      rcases he with he | he
      · have hle := h.depth_le 1 caller (by rw [hframes]; rfl) e he
        simp only
        omega
      · have hle := h.depth_le 0 r.current rfl e he
        simp only
        omega
    | succ i =>
      have hle := h.depth_le (i + 2) f (by rw [hframes]; exact hf) e he
      simp only
      omega

theorem leveled_performAll {o : Options} (htraced : o.callTrace = true)
    (commands : List Command) : (performAll o commands).Leveled := by
  induction commands using List.reverseRecOn with
  | nil =>
    refine ⟨htraced, rfl, ?_⟩
    intro i f _ e _
    exact Nat.zero_le _
  | append_singleton past command ih =>
    rw [performAll_concat]
    exact ih.perform command

/-! ## Where nesting breaks -/

/-- The call that is under way could not end well now.  The last entry of its caller is as deep
as the call or deeper, so it is not the caller's own but was taken over from an earlier call;
and the call has an entry that is not deeper than it. -/
def Misplaces (r : Recorder) : Prop :=
  ∃ caller ∈ r.outer.head?, ∃ last ∈ caller.last?,
    r.depth ≤ last.depth ∧ ∃ e ∈ r.current.flatten, e.depth ≤ last.depth

theorem Leveled.fits_iff (h : r.Leveled) {caller : CallForest} {outer : List CallForest}
    (houter : r.outer = caller :: outer) : caller.Fits r.current ↔ ¬ r.Misplaces := by
  constructor
  · rintro hfits ⟨_, hcaller, last, hlast, _, e, he, hle⟩
    rw [houter] at hcaller
    obtain rfl := Option.some_inj.1 hcaller
    have hlt := hfits last hlast e he
    omega
  · intro hplaced last hlast e he
    by_contra hle
    have hdepth := h.depth_le 0 r.current rfl e he
    exact hplaced ⟨caller, by rw [houter]; rfl, last, hlast, by omega, e, he, by omega⟩

/-- A command keeps all frames nested exactly if they were, and the call that it may end does
not misplace an entry. -/
theorem Leveled.nested_perform_iff (h : r.Leveled) (command : Command) :
    (∀ f ∈ (r.perform command).frames, f.Nested) ↔
      (∀ f ∈ r.frames, f.Nested) ∧ (command = .leave → ¬ r.Misplaces) := by
  obtain ⟨before?, after?, hcases⟩ := perform_cases h.traced h.length_outer command
  rcases hcases with ⟨_, hleave, heq⟩ | ⟨rfl, entry, _, heq⟩ | ⟨rfl, heq⟩ |
    ⟨rfl, caller, outer, houter, heq⟩
  · have hplaced : command = .leave → ¬ r.Misplaces := by
      rintro hcommand ⟨caller, hcaller, _⟩
      rw [hleave hcommand] at hcaller
      cases hcaller
    rw [heq]
    exact ⟨fun hnested => ⟨hnested, hplaced⟩, fun hboth => hboth.1⟩
  · rw [heq]
    simp [frames]
  · rw [heq]
    simp [frames, CallForest.Nested]
  · rw [heq]
    simp only [frames, houter, List.forall_mem_cons, CallForest.nested_attach,
      h.fits_iff houter, forall_const]
    tauto

/-- The frames after some commands are nested exactly if no call ended badly on the way. -/
theorem nested_performAll_iff {o : Options} (htraced : o.callTrace = true)
    (commands : List Command) :
    (∀ f ∈ (performAll o commands).frames, f.Nested) ↔
      ∀ past ∈ occasions .leave commands, ¬ (performAll o past).Misplaces := by
  induction commands using List.reverseRecOn with
  | nil => simp [performAll, ofOptions, frames, occasions, CallForest.Nested]
  | append_singleton past command ih =>
    rw [performAll_concat, (leveled_performAll htraced past).nested_perform_iff, ih,
      occasions_concat]
    by_cases hleave : command = .leave <;> simp [hleave, or_imp, forall_and]

/-! ## Closing all frames -/

/-- Closing all frames is leaving every call that is open. -/
theorem Leveled.leave_all (h : r.Leveled) :
    let final := (List.replicate r.depth .leave).foldl Recorder.perform r
    final.outer = [] ∧ final.current = r.finish := by
  induction houter : r.outer generalizing r with
  | nil =>
    have hzero : r.depth = 0 := by
      rw [← h.length_outer, houter]
      rfl
    rw [hzero, finish, houter]
    exact ⟨houter, rfl⟩
  | cons caller outer ih =>
    have hdepth := depth_eq_of_cons h.length_outer houter
    have hleave : r.perform .leave = _ := leave_of_cons h.traced houter hdepth
    have hnext := h.perform .leave
    rw [hleave] at hnext
    rw [hdepth, List.replicate_succ, List.foldl_cons, hleave, finish, houter]
    exact ih hnext rfl

/-- Frames that enter calls only when they have an entry keep entries of their own in the last
place: no frame around the innermost one is empty, and the last entry of each frame is as deep
as the frame. -/
structure OwnLast (r : Recorder) : Prop where
  outer_ne : ∀ f ∈ r.outer, f ≠ .nil
  depth_eq : ∀ i f, r.frames[i]? = some f → ∀ last ∈ f.last?, last.depth + i = r.depth

theorem OwnLast.not_misplaces (h : r.OwnLast) : ¬ r.Misplaces := by
  rintro ⟨caller, hcaller, last, hlast, hle, _⟩
  have hframe : r.frames[1]? = some caller := by
    rw [frames, List.getElem?_cons_succ, ← List.head?_eq_getElem?]
    exact hcaller
  have hdepth := h.depth_eq 1 caller hframe last hlast
  omega

theorem OwnLast.perform (h : r.OwnLast) (hlevel : r.Leveled) {command : Command}
    (henter : command = .enter → r.current ≠ .nil) : (r.perform command).OwnLast := by
  obtain ⟨before?, after?, hcases⟩ := perform_cases hlevel.traced hlevel.length_outer command
  rcases hcases with ⟨_, _, heq⟩ | ⟨_, entry, hentry, heq⟩ | ⟨hcommand, heq⟩ |
    ⟨_, caller, outer, houter, heq⟩
  · rw [heq]
    exact ⟨h.outer_ne, h.depth_eq⟩
  · rw [heq]
    refine ⟨h.outer_ne, ?_⟩
    intro i f hf last hlast
    cases i with
    | zero =>
      obtain rfl : r.current.push entry = f := Option.some_inj.1 hf
      rw [CallForest.last?_push] at hlast
      obtain rfl : entry = last := Option.some_inj.1 hlast
      exact hentry
    | succ i => exact h.depth_eq (i + 1) f hf last hlast
  · rw [heq]
    refine ⟨?_, ?_⟩
    · intro f hf
      rcases List.mem_cons.1 hf with rfl | hf
      · exact henter hcommand
      · exact h.outer_ne f hf
    · intro i f hf last hlast
      cases i with
      | zero =>
        obtain rfl : CallForest.nil = f := Option.some_inj.1 hf
        cases hlast
      | succ i => exact congrArg (· + 1) (h.depth_eq i f hf last hlast)
  · have hdepth := depth_eq_of_cons hlevel.length_outer houter
    have hframes : r.frames = r.current :: caller :: outer := by rw [frames, houter]
    have hne : ∀ f ∈ caller :: outer, f ≠ .nil := by
      rw [← houter]
      exact h.outer_ne
    rw [heq]
    refine ⟨fun f hf => hne f (List.mem_cons_of_mem _ hf), ?_⟩
    intro i f hf last hlast
    have hlast' : ∃ f', r.frames[i + 1]? = some f' ∧ last ∈ f'.last? := by
      rw [hframes]
      cases i with
      | zero =>
        obtain rfl : caller.attach r.current = f := Option.some_inj.1 hf
        rw [CallForest.last?_attach (hne caller List.mem_cons_self)] at hlast
        exact ⟨caller, rfl, hlast⟩
      | succ i => exact ⟨f, hf, hlast⟩
    obtain ⟨f', hf', hlast'⟩ := hlast'
    have hown := h.depth_eq (i + 1) f' hf' last hlast'
    simp only
    omega

/-- If calls are entered only from frames with an entry, no call ends badly. -/
theorem not_misplaces_of_entered {o : Options} (htraced : o.callTrace = true)
    {commands : List Command}
    (hentered : ∀ past ∈ occasions .enter commands, (performAll o past).current ≠ .nil) :
    (performAll o commands).OwnLast ∧
      ∀ past ∈ occasions .leave commands, ¬ (performAll o past).Misplaces := by
  induction commands using List.reverseRecOn with
  | nil =>
    refine ⟨⟨by simp [performAll, ofOptions], ?_⟩, by simp [occasions]⟩
    intro i f hf last hlast
    cases i with
    | zero =>
      obtain rfl : CallForest.nil = f := Option.some_inj.1 hf
      cases hlast
    | succ i => cases hf
  | append_singleton past command ih =>
    simp only [occasions_concat, List.mem_append] at hentered ⊢
    obtain ⟨hown, hplaced⟩ := ih fun earlier hmem => hentered earlier (Or.inl hmem)
    refine ⟨?_, ?_⟩
    · rw [performAll_concat]
      apply hown.perform (leveled_performAll htraced past)
      rintro rfl
      exact hentered past (Or.inr (by simp))
    · rintro earlier (hmem | hmem)
      · exact hplaced earlier hmem
      · split at hmem
        next =>
          obtain rfl := List.mem_singleton.1 hmem
          exact hown.not_misplaces
        next => cases hmem

theorem occasions_append_leaves (commands : List Command) (n : Nat) :
    occasions .enter (commands ++ List.replicate n .leave) = occasions .enter commands := by
  induction n with
  | zero => rw [List.replicate_zero, List.append_nil]
  | succ n ih =>
    rw [List.replicate_succ', ← List.append_assoc, occasions_concat, ih]
    simp

/-- Entries below an entry are deeper than it exactly if no call misplaces one of its entries
when it ends, be it by a command or because its frame is closed at the end.  None does if calls
are entered only from frames with an entry. -/
theorem nested_finish_iff (o : Options) (htraced : o.callTrace = true)
    (commands : List Command) :
    let r := performAll o commands
    (r.finish.Nested ↔
        ∀ past ∈ occasions .leave (commands ++ List.replicate r.depth .leave),
          ¬ (performAll o past).Misplaces) ∧
      ((∀ past ∈ occasions .enter commands, (performAll o past).current ≠ .nil) →
        r.finish.Nested) := by
  intro r
  have hall : performAll o (commands ++ List.replicate r.depth .leave) =
      (List.replicate r.depth .leave).foldl perform r := List.foldl_append ..
  obtain ⟨houter, hcurrent⟩ := (leveled_performAll htraced commands).leave_all
  have hiff : r.finish.Nested ↔
      ∀ past ∈ occasions .leave (commands ++ List.replicate r.depth .leave),
        ¬ (performAll o past).Misplaces := by
    rw [← nested_performAll_iff htraced, hall, frames, houter, hcurrent, List.forall_mem_singleton]
  refine ⟨hiff, ?_⟩
  intro hentered
  rw [hiff]
  apply (not_misplaces_of_entered htraced _).2
  rwa [occasions_append_leaves]

/-- A frame with an entry enters a call that ends and another that stays open. -/
theorem nested_finish_iff_of_caller :
    let o : Options := { callTrace := true }
    let m := Machine.ofCode #[0x5b, 0x5b] #[] 10 default Policy.permit ()
    let round := [.before (.capture o m none), .after (.capture o m.step none), .complete]
    let commands := round ++ .enter :: round ++ .leave :: .enter :: round
    o.callTrace = true ∧
      (∀ past ∈ occasions .enter commands, (performAll o past).current ≠ .nil) ∧
      (performAll o commands).finish.Nested := by
  intro o m round commands
  have hentered : ∀ past ∈ occasions .enter commands, (performAll o past).current ≠ .nil := by
    decide +kernel
  exact ⟨rfl, hentered, (nested_finish_iff o rfl commands).2 hentered⟩

/-- Two calls that a frame without entries enters one after the other: the entry of the second
hangs below that of the first, at the same depth. -/
theorem not_nested_of_siblings :
    let o : Options := { callTrace := true }
    let m := Machine.ofCode #[0x5b] #[] 10 default Policy.permit ()
    let round := [.before (.capture o m none), .after (.capture o m.step none), .complete]
    let call := Command.enter :: round ++ [.leave]
    o.callTrace = true ∧ ¬ (performAll o (call ++ call)).finish.Nested := by
  decide +kernel

end Recorder

end Trace

end MeteredMachine
