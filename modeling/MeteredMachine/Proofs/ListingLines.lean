import MeteredMachine.Proofs.HexText
import MeteredMachine.Proofs.TracedRun
import MeteredMachine.Trace.Listing

/-!
# Lines of a listing

A listing has a line for every entry, in the order of the flat list.  Nothing that is written
about an entry has a line end in it, except the text of a fault, which a host may choose.  So a
line stays one line exactly as long as the error text of its entry has no line end; a host that
refuses a step with such a text breaks its line in two.

Main results:

- Definition {lit}`Text.OnOneLine`: a text without a line end.
- Theorem {lit}`Trace.Entry.onOneLine_body_iff`: what is written about an entry is on one line
  exactly if its error text is.
- Theorem {lit}`Trace.CallForest.oneLineEach_iff`: a listing has one line for each entry exactly
  if all error texts are on one line.
- Theorem {lit}`Trace.Recorder.listing_line_each_iff` adds where such error texts come from.
-/

namespace MeteredMachine

namespace Text

/-! ## Texts on one line -/

/-- A text has no line end. -/
def OnOneLine (s : String) : Prop :=
  '\n' ∉ s.toList

instance (s : String) : Decidable (OnOneLine s) :=
  inferInstanceAs (Decidable (¬ _))

@[simp] theorem onOneLine_append (s t : String) :
    OnOneLine (s ++ t) ↔ OnOneLine s ∧ OnOneLine t := by
  simp [OnOneLine]

theorem onOneLine_of_forall {s : String} {chars : List Char} (h : ∀ c ∈ s.toList, c ∈ chars)
    (hchars : '\n' ∉ chars) : OnOneLine s :=
  fun hmem => hchars (h _ hmem)

@[simp] theorem onOneLine_toString (n : Nat) : OnOneLine (toString n) := by
  intro hmem
  rw [Nat.toString_eq_repr, Nat.toList_repr] at hmem
  exact absurd (Nat.isDigit_of_mem_toDigits (by decide) (by decide) hmem) (by decide)

theorem onOneLine_intercalate {separator : String} (hseparator : OnOneLine separator)
    {parts : List String} (hparts : ∀ part ∈ parts, OnOneLine part) :
    OnOneLine (separator.intercalate parts) := by
  induction parts with
  | nil => simp [OnOneLine]
  | cons part parts ih =>
    obtain ⟨hpart, hrest⟩ := List.forall_mem_cons.1 hparts
    cases parts with
    | nil => simpa using hpart
    | cons next parts =>
      rw [String.intercalate_cons_cons, onOneLine_append, onOneLine_append]
      exact ⟨⟨hpart, hseparator⟩, ih hrest⟩

/-- Aligning fills a text with blanks only. -/
@[simp] theorem onOneLine_align (alignment : Alignment) (width : Nat) (text : String) :
    OnOneLine (align alignment ' ' width text) ↔ OnOneLine text := by
  cases alignment <;> simp [OnOneLine, align, alignChars]

/-- A text consists of some lines: it is these lines with a line end behind each, and none of
them has a line end of its own. -/
structure IsLines (lines : List String) (text : String) : Prop where
  join_eq : String.join (lines.map (· ++ "\n")) = text
  onOneLine : ∀ line ∈ lines, OnOneLine line

end Text

/-! ## Parts of a line -/

namespace Hex

@[simp] theorem onOneLine_encode (bytes : List UInt8) : Text.OnOneLine (encode bytes) :=
  Text.onOneLine_of_forall (fun _ => lower_of_mem_encode) (by decide)

@[simp] theorem onOneLine_byteText (byte : UInt8) : Text.OnOneLine (byteText byte) := by
  rw [byteText, Text.onOneLine_append]
  exact ⟨by decide, onOneLine_encode [byte]⟩

end Hex

namespace Word

@[simp] theorem onOneLine_markedHex (w : Word) : Text.OnOneLine w.markedHex := by
  rw [markedHex, Text.onOneLine_append]
  exact ⟨by decide, Text.onOneLine_of_forall (Hex.isPlain_numeral w.toNat).lower (by decide)⟩

@[simp] theorem onOneLine_decimal (w : Word) : Text.OnOneLine w.decimal :=
  Text.onOneLine_toString w.toNat

end Word

@[simp] theorem Opcode.onOneLine_name (op : Opcode) : Text.OnOneLine op.name := by
  have hfamily : ∀ stem ∈ ["PUSH", "DUP", "SWAP"], ∀ n : Nat,
      Text.OnOneLine (stem ++ toString n) := by
    intro stem hstem n
    rw [Text.onOneLine_append]
    exact ⟨by revert stem; decide, Text.onOneLine_toString n⟩
  cases op with
  | binary op => cases op <;> decide
  | unary op => cases op <;> decide
  | push index => exact hfamily "PUSH" (by decide) _
  | dup index => exact hfamily "DUP" (by decide) _
  | swap index => exact hfamily "SWAP" (by decide) _
  | _ => decide

/-- The text of a fault is on one line unless the host has worded it. -/
theorem Fault.onOneLine_message {fault : Fault} (h : ∀ text, fault ≠ .custom text) :
    Text.OnOneLine fault.message := by
  cases fault with
  | custom text => exact absurd rfl (h text)
  | invalidOpcode byte =>
    exact (Text.onOneLine_append _ _).2 ⟨by decide, Hex.onOneLine_byteText byte⟩
  | invalidJump destination =>
    exact (Text.onOneLine_append _ _).2 ⟨by decide, Text.onOneLine_toString destination⟩
  | _ => decide

/-- A fault whose text has a line end is one that the host has worded. -/
theorem Fault.eq_custom_of_line_end {fault : Fault} {text : String} (htext : fault.message = text)
    (h : ¬ Text.OnOneLine text) : fault = .custom text := by
  subst htext
  by_cases hcustom : ∃ text, fault = .custom text
  · obtain ⟨text, rfl⟩ := hcustom
    rfl
  · exact absurd (Fault.onOneLine_message (not_exists.1 hcustom)) h

namespace Trace

@[simp] theorem onOneLine_wordsText (words : List Word) : Text.OnOneLine (wordsText words) := by
  rw [wordsText, Text.onOneLine_append, Text.onOneLine_append]
  refine ⟨⟨by decide, Text.onOneLine_intercalate (by decide) ?_⟩, by decide⟩
  rw [List.forall_mem_map]
  exact fun w _ => w.onOneLine_markedHex

@[simp] theorem onOneLine_storageValueText (o : Options) (value : Word) :
    Text.OnOneLine (storageValueText o value) := by
  rw [storageValueText]
  split
  · exact value.onOneLine_markedHex
  · exact value.onOneLine_decimal

@[simp] theorem onOneLine_slotsText (o : Options) (slots : Slots) :
    Text.OnOneLine (slotsText o slots) := by
  rw [slotsText, Text.onOneLine_append, Text.onOneLine_append]
  refine ⟨⟨by decide, Text.onOneLine_intercalate (by decide) ?_⟩, by decide⟩
  rw [List.forall_mem_map]
  rintro ⟨key, value⟩ _
  rw [Text.onOneLine_append, Text.onOneLine_append]
  exact ⟨⟨key.onOneLine_markedHex, by decide⟩, onOneLine_storageValueText o value⟩

@[simp] theorem onOneLine_partText {α : Type} (write : α → String) (part? : Option α) :
    Text.OnOneLine (partText write part?) ↔ ∀ part ∈ part?, Text.OnOneLine (write part) := by
  cases part? with
  | none => simp [partText, Text.OnOneLine]
  | some part => simp [partText]

namespace Entry

@[simp] theorem onOneLine_label (o : Options) (e : Entry) : Text.OnOneLine (e.label o) := by
  rw [label, name]
  split
  · exact Hex.onOneLine_byteText e.opcode
  · split
    next op _ => exact op.onOneLine_name
    next => exact Hex.onOneLine_byteText e.opcode

/-- What is written about an entry, without the line end behind it. -/
def body (o : Options) (e : Entry) : String :=
  e.lineHead o ++ e.lineTail o

theorem onOneLine_lineHead (o : Options) (e : Entry) : Text.OnOneLine (e.lineHead o) := by
  have hindent : Text.OnOneLine (String.ofList (List.replicate (2 * e.depth) ' ')) := by
    simp [Text.OnOneLine]
  have hpc := Text.onOneLine_toString e.pc
  have hgas := Text.onOneLine_toString e.gas.toNat
  have hcost := Text.onOneLine_toString e.gasCost.toNat
  rw [lineHead]
  simp only [Text.onOneLine_append, Text.onOneLine_align, onOneLine_label, hindent, hpc, hgas,
    hcost]
  decide

/-- What is written about an entry is on one line exactly if its error text is. -/
theorem onOneLine_body_iff (o : Options) (e : Entry) :
    Text.OnOneLine (e.body o) ↔ ∀ text ∈ e.error?, Text.OnOneLine text := by
  have hquote : Text.OnOneLine " error=\"" ∧ Text.OnOneLine "\"" := by decide
  have hsplit : Text.OnOneLine " (base=" ∧ Text.OnOneLine " dynamic=" ∧ Text.OnOneLine ")" := by
    decide
  have hnames : Text.OnOneLine " in=" ∧ Text.OnOneLine " out=" ∧ Text.OnOneLine " stack=" ∧
      Text.OnOneLine " memory=0x" ∧ Text.OnOneLine " storage=" := by
    decide
  rw [body, lineTail]
  simp only [Text.onOneLine_append, onOneLine_lineHead, onOneLine_partText, onOneLine_wordsText,
    onOneLine_slotsText, Hex.onOneLine_encode, Text.onOneLine_toString, hquote, hsplit, hnames,
    implies_true, true_and, and_true]

/-- A line begins with two blanks for each level of depth and the position in a column of five. -/
theorem body_eq (o : Options) (e : Entry) :
    ∃ rest, (e.body o).toList =
      List.replicate (2 * e.depth) ' ' ++ List.replicate (5 - (toString e.pc).length) ' ' ++
        (toString e.pc).toList ++ rest := by
  simp only [body, lineHead, Text.align, Text.alignChars, String.toList_append,
    String.toList_ofList, String.length_toList, positionWidth, List.append_assoc]
  exact ⟨_, rfl⟩

/-- A line of a listing that is about an entry: it is what is written about the entry, and it
begins with two blanks for each level of depth and the position in a column of five. -/
structure HasLine (o : Options) (e : Entry) (line : String) : Prop where
  line_eq : e.line o = line ++ "\n"
  start_eq : ∃ rest, line.toList =
    List.replicate (2 * e.depth) ' ' ++ List.replicate (5 - (toString e.pc).length) ' ' ++
      (toString e.pc).toList ++ rest

theorem hasLine_body (o : Options) (e : Entry) : e.HasLine o (e.body o) :=
  ⟨rfl, e.body_eq o⟩

end Entry

/-! ## Lines of a forest -/

namespace CallForest

/-- The listing of a forest has exactly one line for each entry, in the order of the flat
list. -/
def OneLineEach (o : Options) (f : CallForest) : Prop :=
  ∃ lines, Text.IsLines lines (f.listing o) ∧ List.Forall₂ (Entry.HasLine o) f.flatten lines

theorem listing_eq_join (o : Options) (f : CallForest) :
    f.listing o = String.join ((f.flatten.map (Entry.body o)).map (· ++ "\n")) := by
  induction f with
  | nil => rfl
  | node entry calls rest hcalls hrest =>
    rw [listing, flatten, List.map_cons, List.map_cons, List.map_append, List.map_append,
      String.join_cons, String.join_append, ← hcalls, ← hrest, String.append_assoc]
    rfl

/-- A joined text has one line end for each part and those inside the parts. -/
theorem count_line_end_join (parts : List String) :
    (String.join (parts.map (· ++ "\n"))).toList.count '\n' =
      parts.length + (parts.map fun part => part.toList.count '\n').sum := by
  induction parts with
  | nil => rfl
  | cons part parts ih =>
    rw [List.map_cons, String.join_cons, String.toList_append, String.toList_append,
      List.count_append, List.count_append, ih, List.map_cons, List.sum_cons, List.length_cons]
    have hend : List.count '\n' "\n".toList = 1 := by decide
    omega

theorem sum_count_line_end_eq_zero_iff {parts : List String} :
    (parts.map fun part => part.toList.count '\n').sum = 0 ↔
      ∀ part ∈ parts, Text.OnOneLine part := by
  rw [List.sum_eq_zero_iff_forall_eq_nat, List.forall_mem_map]
  simp only [List.count_eq_zero, Text.OnOneLine]

/-- A text that consists of as many lines as it was joined from has the parts on one line. -/
theorem onOneLine_of_isLines {lines parts : List String}
    (h : Text.IsLines lines (String.join (parts.map (· ++ "\n"))))
    (hlength : lines.length = parts.length) : ∀ part ∈ parts, Text.OnOneLine part := by
  have hcount := congrArg (fun text : String => text.toList.count '\n') h.join_eq
  simp only [count_line_end_join, sum_count_line_end_eq_zero_iff.2 h.onOneLine] at hcount
  rw [← sum_count_line_end_eq_zero_iff]
  omega

/-- A listing has exactly one line for each entry if and only if all error texts are on one
line. -/
theorem oneLineEach_iff (o : Options) (f : CallForest) :
    f.OneLineEach o ↔ ∀ e ∈ f.flatten, ∀ text ∈ e.error?, Text.OnOneLine text := by
  have hbodies : (∀ body ∈ f.flatten.map (Entry.body o), Text.OnOneLine body) ↔
      ∀ e ∈ f.flatten, ∀ text ∈ e.error?, Text.OnOneLine text := by
    simp only [List.forall_mem_map, Entry.onOneLine_body_iff]
  rw [← hbodies, OneLineEach, listing_eq_join]
  constructor
  · rintro ⟨lines, hlines, hentries⟩
    apply onOneLine_of_isLines hlines
    rw [List.length_map, hentries.length_eq]
  · intro honeLine
    refine ⟨_, ⟨rfl, honeLine⟩, ?_⟩
    rw [List.forall₂_map_right_iff, List.forall₂_same]
    exact fun e _ => e.hasLine_body o

end CallForest

/-! ## Listings of recorded entries -/

namespace Recorder

theorem mem_of_lastAfter? {past : List Command} {snapshot : Snapshot}
    (h : lastAfter? past = some snapshot) : .after snapshot ∈ past := by
  obtain ⟨command, hmem, hafter⟩ := List.exists_of_findSome?_eq_some h
  have hsince := (List.takeWhile_subset _) hmem
  have hpast := List.mem_reverse.1 ((List.takeWhile_subset _) hsince)
  cases command with
  | after taken =>
    cases hafter
    exact hpast
  | _ => cases hafter

/-- The error text of a recorded entry is the text of a fault that a snapshot after a step
shows. -/
theorem exists_fault_of_error? {o : Options} {commands : List Command} {e : Entry} {text : String}
    (he : e ∈ (performAll o commands).finish.flatten) (htext : e.error? = some text) :
    ∃ snapshot fault, .after snapshot ∈ commands ∧ snapshot.status = .exited (.fault fault) ∧
      fault.message = text := by
  rw [(follows_performAll o commands).flatten_eq, history] at he
  obtain ⟨past, hpast, hdue⟩ := List.mem_filterMap.1 he
  obtain ⟨i, _, hi⟩ := List.mem_filterMap.1 hpast
  rw [Option.ite_none_right_eq_some] at hi
  obtain ⟨_, hi⟩ := hi
  cases hi
  rw [entryDue?] at hdue
  split at hdue
  next before after _ hafter =>
    rw [Option.ite_none_right_eq_some] at hdue
    obtain ⟨byte, _, rfl⟩ := Option.map_eq_some_iff.1 hdue.2
    obtain ⟨fault, hstatus, hmessage⟩ := (Entry.errorText_eq_some_iff _ _).1 htext
    exact ⟨after, fault, List.mem_of_mem_take (mem_of_lastAfter? hafter), hstatus, hmessage⟩
  next => cases hdue

variable {σ : Type} {m final : Machine σ} {steps : Nat} {log : List Entry}

/-- In a log that describes a run only the last entry can have an error text with a line end,
and it has one exactly if the host ends the run with such a text at a byte of the code. -/
theorem onOneLine_errors_iff (h : FaithfulLog m final steps log) :
    (∀ e ∈ log, ∀ text ∈ e.error?, Text.OnOneLine text) ↔
      ∀ text, final.status = .exited (.fault (.custom text)) →
        final.state.pc < final.state.code.size → Text.OnOneLine text := by
  constructor
  · intro honeLine text hstatus hpc
    obtain ⟨e, he, herror⟩ := Option.bind_eq_some_iff.1
      ((h.error_last text).2 ⟨.custom text, hstatus, hpc, rfl⟩)
    exact honeLine e (List.mem_of_getLast? he) text herror
  · intro hcustom e he text htext
    by_contra hline
    obtain ⟨i, hi⟩ := List.mem_iff_getElem?.1 he
    have hlast : ¬ i + 1 < log.length := by
      intro hlt
      cases (h.error_none i e hi hlt).symm.trans htext
    have hlength := (List.getElem?_eq_some_iff.1 hi).1
    have hend : log.getLast? = some e := by
      rw [List.getLast?_eq_getElem?, ← hi]
      congr 1
      omega
    obtain ⟨fault, hstatus, hpc, hmessage⟩ := (h.error_last text).1 (by rw [hend]; exact htext)
    obtain rfl := Fault.eq_custom_of_line_end hmessage hline
    exact hline (hcustom text hstatus hpc)

/-- Listings have one line for each entry, except where a host words a fault on several lines.

The listing of a forest consists of exactly one line for each entry, in the order of the flat list
and beginning with the indentation and the position of the entry, if and only if no error text has
a line end.  If a recorder was given any commands and an entry has an error text with a line end,
then a snapshot after a step shows a machine that the host ended with this text.  The log of a
traced run has one line for each entry if and only if the host has not ended the run with such a
text at a byte of the code. -/
theorem listing_line_each_iff (shown : Options) :
    (∀ f : CallForest, f.OneLineEach shown ↔
      ∀ e ∈ f.flatten, ∀ text, e.error? = some text → '\n' ∉ text.toList) ∧
    (∀ (o : Options) (commands : List Command),
      ∀ e ∈ (performAll o commands).finish.flatten, ∀ text, e.error? = some text →
        '\n' ∈ text.toList → ∃ snapshot, .after snapshot ∈ commands ∧
          snapshot.status = .exited (.fault (.custom text))) ∧
    ∀ (σ : Type) (code data : Array UInt8) (gasLimit : UInt64) (context : Context)
      (policy : Policy σ) (memo : σ) (commands : List Machine.Command),
      let m := commands.foldl Machine.perform (.ofCode code data gasLimit context policy memo)
      m.status = .running → ∀ (o : Options) (storage? : Option Storage),
        (run storage? { recorder := .ofOptions o, machine := m }).recorder.finish.OneLineEach
            shown ↔
          ∀ text, m.run.status = .exited (.fault (.custom text)) →
            m.run.state.pc < m.run.state.code.size → '\n' ∉ text.toList := by
  refine ⟨fun f => f.oneLineEach_iff shown, ?_, ?_⟩
  · intro o commands e he text htext hline
    obtain ⟨snapshot, fault, hmem, hstatus, hmessage⟩ := exists_fault_of_error? he htext
    obtain rfl := Fault.eq_custom_of_line_end hmessage (not_not.2 hline)
    exact ⟨snapshot, hmem, hstatus⟩
  · intro σ code data gasLimit context policy memo commands m hstatus o storage?
    have hrunning : m.isRunning = true := (Machine.isRunning_eq_true_iff m).2 hstatus
    have hsound : m.state.Sound code data gasLimit :=
      Machine.sound_performAll (State.sound_initial code data gasLimit) commands
    obtain ⟨steps, hle, hruns⟩ := Machine.exists_runsIn_run hsound.stack_le
    have htraced := (run_eq o storage? hsound.stack_le hrunning hruns hle).2
    have hfinish : (run storage? { recorder := .ofOptions o, machine := m }).recorder.finish =
        .flat (logOf o storage? steps m) :=
      congrArg (fun t => t.recorder.finish) htraced
    rw [hfinish, CallForest.oneLineEach_iff, CallForest.flatten_flat]
    exact onOneLine_errors_iff (faithfulLog_logOf o storage? hsound hrunning hruns)

/-- A host that words its refusal of the last step on one line: the listing of the run has one line
for each of its three entries. -/
theorem oneLineEach_of_refusal :
    let m : Machine StockPolicy :=
      .ofCode #[0x60, 0x05, 0x5f, 0x5b] #[] 10 default StockPolicy.policy
        (.denyAt 3 (.custom "not here"))
    let f := (run none { recorder := .ofOptions {}, machine := m }).recorder.finish
    m.status = .running ∧ m.run.status = .exited (.fault (.custom "not here")) ∧
      f.flatten.length = 3 ∧ f.OneLineEach {} := by
  intro m f
  have hrunning : m.status = .running := rfl
  have hstatus : m.run.status = .exited (.fault (.custom "not here")) := by decide +kernel
  refine ⟨hrunning, hstatus, by decide +kernel, ?_⟩
  refine ((listing_line_each_iff {}).2.2 _ #[0x60, 0x05, 0x5f, 0x5b] #[] 10 default
    StockPolicy.policy (.denyAt 3 (.custom "not here")) [] hrunning {} none).2 ?_
  intro text htext _
  obtain rfl : "not here" = text := by
    have hreason := Status.exited.inj (hstatus.symm.trans htext)
    exact Fault.custom.inj (ExitReason.fault.inj hreason)
  decide

/-- A host that refuses the first step with a text on two lines: the log has one entry, and its
listing has two line ends. -/
theorem not_oneLineEach_of_refusal :
    let m : Machine StockPolicy :=
      .ofCode #[0x5b] #[] 10 default StockPolicy.policy (.denyAt 0 (.custom "not\nhere"))
    let f := (run none { recorder := .ofOptions {}, machine := m }).recorder.finish
    f.flatten.length = 1 ∧ (f.listing {}).toList.count '\n' = 2 ∧ ¬ f.OneLineEach {} := by
  intro m f
  refine ⟨by decide +kernel, by decide +kernel, ?_⟩
  rw [CallForest.oneLineEach_iff]
  decide +kernel

end Recorder

end Trace

end MeteredMachine
