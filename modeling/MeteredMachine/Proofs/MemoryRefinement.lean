import Mathlib.Order.Bounds.Basic
import MeteredMachine.Proofs.GuardedParts

/-!
# Memory under the calls of a host

A host calls a memory in any order it likes: it covers ranges, reads them and writes them, and every
call may make memory grow.  What it gets back is what a map from all addresses to bytes would give
that is zero at first and is changed by writing alone.  The size of memory shows how far the calls
have reached, rounded up to whole words, and nothing else about them.

Main results:

- Structure {lit}`ByteMap` is the map together with how far it has been touched.
- Theorems {lit}`Memory.Represents.perform` and {lit}`Memory.Represents.answer`: a call keeps memory
  in step with the map and gives back what the map says.
- Definition {lit}`Guarded.memoryCall` is a call on a host, where sums, sizes and slices may trap, and
  theorem {lit}`Guarded.memoryCall_eq` says that it does not for a range that can be addressed.
- Theorem {lit}`Memory.calls_refine_byteMap` says that a memory is such a map under all calls whose
  ranges can be addressed.
-/

namespace MeteredMachine

/-! ## Calls and the map that they describe -/

namespace Memory.Command

/-- The address where the range of a command starts. -/
def offset : Command → Nat
  | cover offset _ | load offset _ | store offset _ => offset
  | loadWord offset | storeWord offset _ | storeByte offset _ => offset

/-- The number of bytes in the range of a command. -/
def length : Command → Nat
  | cover _ length | load _ length => length
  | store _ source => source.length
  | loadWord _ | storeWord .. => 32
  | storeByte .. => 1

/-- The bytes that a command writes at its offset. -/
def written : Command → List UInt8
  | store _ source => source
  | storeWord _ word => (List.range 32).map fun i => UInt8.ofNat (word.toNat / 256 ^ (31 - i))
  | storeByte _ byte => [byte]
  | cover .. | load .. | loadWord _ => []

/-- The range of a command is empty or can be addressed. -/
def Addressable (c : Command) : Prop :=
  c.length = 0 ∨ c.offset + c.length ≤ Schedule.maxMemorySize

instance : DecidablePred Addressable := fun c =>
  inferInstanceAs (Decidable (c.length = 0 ∨ c.offset + c.length ≤ Schedule.maxMemorySize))

end Memory.Command

/-- A byte for every address, and how far the addresses have been touched. -/
structure ByteMap where
  /-- The byte at an address. -/
  byteAt : Nat → UInt8
  /-- The largest end of a range that was touched and is not empty, or zero. -/
  reach : Nat

namespace ByteMap

/-- The map that is zero everywhere, before anything has been touched. -/
def blank : ByteMap :=
  { byteAt := fun _ => 0, reach := 0 }

/-- The number of bytes in whole words up to the reach. -/
def size (f : ByteMap) : Nat :=
  32 * ((f.reach + 31) / 32)

/-- The bytes of a range. -/
def read (f : ByteMap) (offset length : Nat) : List UInt8 :=
  (List.range length).map fun i => f.byteAt (offset + i)

/-- The value of the 32 bytes at an offset, most significant first. -/
def wordValue (f : ByteMap) (offset : Nat) : Nat :=
  ∑ i ∈ Finset.range 32, (f.byteAt (offset + i)).toNat * 256 ^ (31 - i)

/-- The map after a command: the written bytes replace those of their range and no others, and a
range that is not empty is touched. -/
def perform (f : ByteMap) (c : Memory.Command) : ByteMap where
  byteAt address :=
    if c.offset ≤ address ∧ address < c.offset + c.written.length then
      c.written[address - c.offset]?.getD 0
    else f.byteAt address
  reach := if c.length = 0 then f.reach else max f.reach (c.offset + c.length)

/-- What a command gives back. -/
def answer (f : ByteMap) (c : Memory.Command) : Memory.Answer :=
  match c with
  | .cover .. => .size (f.perform c).size
  | .load offset length => .bytes (f.read offset length)
  | .loadWord offset => .word (Word.ofNat (f.wordValue offset))
  | .store .. | .storeWord .. | .storeByte .. => .done

/-- A command as a call on the map. -/
def call (c : Memory.Command) : StateM ByteMap Memory.Answer :=
  fun f => (f.answer c, f.perform c)

theorem wordValue_eq (f : ByteMap) (offset : Nat) :
    f.wordValue offset = BigEndian.value (f.read offset 32) :=
  (BigEndian.value_map_range (fun i => f.byteAt (offset + i)) 32).symm

/-- The bytes of a word have a value of 256 bits. -/
theorem toNat_ofNat_wordValue (f : ByteMap) (offset : Nat) :
    (Word.ofNat (f.wordValue offset)).toNat = f.wordValue offset := by
  have hlt := BigEndian.value_lt (f.read offset 32)
  rw [← wordValue_eq, read, List.length_map, List.length_range] at hlt
  rw [Word.toNat_ofNat]
  exact Nat.mod_eq_of_lt hlt

/-- A command moves the reach to the end of its range if that lies further and is not empty. -/
theorem reach_perform (f : ByteMap) (c : Memory.Command) :
    f.reach ≤ (f.perform c).reach ∧
      (c.length ≠ 0 → c.offset + c.length ≤ (f.perform c).reach) ∧
      ((f.perform c).reach = f.reach ∨
        c.length ≠ 0 ∧ (f.perform c).reach = c.offset + c.length) := by
  simp only [perform]
  split <;> omega

/-- The reach after some commands is the largest end of their ranges that are not empty, unless the
map had been touched further before. -/
theorem isGreatest_reach (f : ByteMap) (commands : List Memory.Command) :
    IsGreatest
      (insert f.reach {stop | ∃ c ∈ commands, c.length ≠ 0 ∧ c.offset + c.length = stop})
      (commands.foldl perform f).reach := by
  -- The first command may move the reach from which the others start, so the map is general.
  induction commands generalizing f with
  | nil => simp
  | cons c rest ih =>
    obtain ⟨hmem, hub⟩ := ih (f.perform c)
    obtain ⟨hkeeps, hcovers, hmoves⟩ := f.reach_perform c
    have hreach := hub (Set.mem_insert _ _)
    rw [List.foldl_cons]
    constructor
    · rcases hmem with heq | ⟨d, hd, hne, hstop⟩
      · rw [heq]
        rcases hmoves with hsame | ⟨hne, hstop⟩
        · exact Or.inl hsame
        · exact Or.inr ⟨c, List.mem_cons_self, hne, hstop.symm⟩
      · exact Or.inr ⟨d, List.mem_cons_of_mem c hd, hne, hstop⟩
    · rintro stop (rfl | ⟨d, hd, hne, rfl⟩)
      · exact Nat.le_trans hkeeps hreach
      · rcases List.mem_cons.1 hd with rfl | hd
        · exact Nat.le_trans (hcovers hne) hreach
        · exact hub (Or.inr ⟨d, hd, hne, rfl⟩)

end ByteMap

/-! ## Memory as a map -/

namespace Memory

/-- A memory has the size and the bytes of a map. -/
structure Represents (m : Memory) (f : ByteMap) : Prop where
  size_eq : m.size = f.size
  byteAt_eq : m.byteAt = f.byteAt

theorem represents_empty : empty.Represents .blank := by
  refine ⟨rfl, ?_⟩
  funext address
  rfl

/-- Every command makes memory cover its range. -/
theorem size_perform (m : Memory) (c : Command) :
    (m.perform c).memory.size = (m.cover c.offset c.length).size := by
  cases c with
  | cover offset length => rfl
  | load offset length => rfl
  | loadWord offset => rfl
  | store offset source => exact m.size_store offset source
  | storeWord offset word =>
    exact (m.size_store offset word.toBytes).trans (by rw [word.length_toBytes]; rfl)
  | storeByte offset byte => exact m.size_store offset [byte]

theorem toBytes_eq_written (offset : Nat) (word : Word) :
    word.toBytes = (Command.storeWord offset word).written := by
  apply List.ext_getElem?
  intro i
  rw [Word.toBytes, Word.byteCount, Command.written, List.getElem?_map]
  by_cases hlt : i < 32
  · rw [BigEndian.getElem?_encode hlt, List.getElem?_range hlt]
    rfl
  · rw [List.getElem?_eq_none (by simpa using hlt), List.getElem?_eq_none (by simpa using hlt)]
    rfl

/-- A command changes the bytes that it writes and no others. -/
theorem byteAt_perform (m : Memory) (c : Command) (address : Nat) :
    (m.perform c).memory.byteAt address =
      if c.offset ≤ address ∧ address < c.offset + c.written.length then
        c.written[address - c.offset]?.getD 0
      else m.byteAt address := by
  have hnone : ¬ (c.offset ≤ address ∧ address < c.offset + ([] : List UInt8).length) := by
    rw [List.length_nil]
    omega
  cases c with
  | cover offset length => exact (m.byteAt_cover offset length address).trans (if_neg hnone).symm
  | load offset length => exact (m.byteAt_cover offset length address).trans (if_neg hnone).symm
  | loadWord offset => exact (m.byteAt_cover offset 32 address).trans (if_neg hnone).symm
  | store offset source => exact m.byteAt_store offset source address
  | storeWord offset word =>
    rw [← toBytes_eq_written]
    exact m.byteAt_store offset word.toBytes address
  | storeByte offset byte => exact m.byteAt_store offset [byte] address

namespace Represents

variable {m : Memory} {f : ByteMap}

/-- The bytes of a memory are those of the map. -/
theorem toList_bytes (h : m.Represents f) : m.bytes.toList = f.read 0 m.size := by
  apply List.ext_getElem
  · simp [ByteMap.read, size]
  · intro i hi _
    have hlt : i < m.bytes.size := by simpa using hi
    have hbyte := congrFun h.byteAt_eq i
    rw [byteAt, Array.getElem?_eq_getElem hlt, Option.getD_some] at hbyte
    simpa [ByteMap.read] using hbyte

/-- The map is zero where memory ends. -/
theorem byteAt_of_le (h : m.Represents f) {address : Nat} (hle : m.size ≤ address) :
    f.byteAt address = 0 := by
  rw [← h.byteAt_eq, byteAt, Array.getElem?_eq_none hle, Option.getD_none]

theorem value_load (h : m.Represents f) (offset length : Nat) :
    (m.load offset length).value = f.read offset length := by
  rw [Memory.value_load, h.byteAt_eq]
  rfl

/-- A command keeps a memory and its map in step. -/
theorem perform (h : m.Represents f) (c : Command) :
    (m.perform c).memory.Represents (f.perform c) where
  size_eq := by
    have haligned : 32 ∣ m.size := ⟨_, h.size_eq⟩
    rw [size_perform]
    by_cases hempty : c.length = 0
    · have hsame : (f.perform c).reach = f.reach := if_pos hempty
      rw [hempty, cover_zero, h.size_eq, ByteMap.size, ByteMap.size, hsame]
    · have hmax : (f.perform c).reach = max f.reach (c.offset + c.length) := if_neg hempty
      rw [size_cover_eq_max c.offset haligned hempty, h.size_eq, ByteMap.size, ByteMap.size, hmax]
      -- The larger of two sizes in whole words is the size of the larger reach.
      omega
  byteAt_eq := by
    funext address
    rw [byteAt_perform, h.byteAt_eq]
    rfl

/-- A command gives back what the map says. -/
theorem answer (h : m.Represents f) (c : Command) : (m.perform c).answer = f.answer c := by
  cases c with
  | cover offset length =>
    exact congrArg Answer.size (h.perform (.cover offset length)).size_eq
  | load offset length => exact congrArg Answer.bytes (h.value_load offset length)
  | loadWord offset =>
    have hword : (m.loadWord offset).value = Word.ofNat (f.wordValue offset) := by
      rw [loadWord, h.value_load, f.wordValue_eq]
      rfl
    exact congrArg Answer.word hword
  | store offset source => rfl
  | storeWord offset word => rfl
  | storeByte offset byte => rfl

end Represents

end Memory

/-! ## Calls on a host -/

namespace Guarded

/-- A call on a memory of a host.  A trap is no value. -/
def memoryCall (c : Memory.Command) : StateT Memory Option Memory.Answer := fun m =>
  match c with
  | .cover offset length => do
    let memory ← cover m offset length
    some (.size memory.size, memory)
  | .load offset length => do
    let loaded ← load m offset length
    some (.bytes loaded.value, loaded.memory)
  | .store offset source => do
    let memory ← store m offset source
    some (.done, memory)
  | .loadWord offset => do
    let loaded ← loadWord m offset
    some (.word loaded.value, loaded.memory)
  | .storeWord offset word => do
    let memory ← store m offset word.toBytes
    some (.done, memory)
  | .storeByte offset byte => do
    let memory ← store m offset [byte]
    some (.done, memory)

/-- A command with an empty range changes nothing, wherever the range lies. -/
theorem memoryCall_of_empty {c : Memory.Command} (h : c.length = 0) (m : Memory) :
    (memoryCall c).run m = some ((m.perform c).answer, m) ∧ (m.perform c).memory = m := by
  cases c with
  | cover offset length =>
    obtain rfl : length = 0 := h
    simp [memoryCall, cover, Memory.perform, Memory.cover_zero, StateT.run]
  | load offset length =>
    obtain rfl : length = 0 := h
    simp [memoryCall, load, Memory.perform, Memory.load, Memory.cover_zero, StateT.run]
  | store offset source =>
    obtain rfl : source = [] := List.length_eq_zero_iff.1 h
    simp [memoryCall, store, Memory.perform, Memory.store, Memory.cover_zero, Memory.overwrite,
      StateT.run]
  | loadWord offset => cases h
  | storeWord offset word => cases h
  | storeByte offset byte => cases h

/-- A call whose range can be addressed does not trap. -/
theorem memoryCall_eq {c : Memory.Command} (h : c.Addressable) (m : Memory) :
    (memoryCall c).run m = some ((m.perform c).answer, (m.perform c).memory) := by
  rcases h with hempty | hle
  · obtain ⟨hrun, hmemory⟩ := memoryCall_of_empty hempty m
    rw [hrun, hmemory]
  · cases c with
    | cover offset length =>
      replace hle : offset + length ≤ Schedule.maxMemorySize := hle
      rw [StateT.run, memoryCall, cover_eq hle]
      rfl
    | load offset length =>
      replace hle : offset + length ≤ Schedule.maxMemorySize := hle
      rw [StateT.run, memoryCall, load_eq fun _ => hle]
      rfl
    | store offset source =>
      replace hle : offset + source.length ≤ Schedule.maxMemorySize := hle
      rw [StateT.run, memoryCall, store_eq hle]
      rfl
    | loadWord offset =>
      replace hle : offset + 32 ≤ Schedule.maxMemorySize := hle
      rw [StateT.run, memoryCall, loadWord_eq hle]
      rfl
    | storeWord offset word =>
      replace hle : offset + word.toBytes.length ≤ Schedule.maxMemorySize := by
        rw [word.length_toBytes]
        exact hle
      rw [StateT.run, memoryCall, store_eq hle]
      rfl
    | storeByte offset byte =>
      replace hle : offset + [byte].length ≤ Schedule.maxMemorySize := hle
      rw [StateT.run, memoryCall, store_eq hle]
      rfl

end Guarded

namespace Memory

/-- A command as a call on a memory. -/
def call (c : Command) : StateM Memory Answer := fun m =>
  let performed := m.perform c
  (performed.answer, performed.memory)

/-- In any sequence of calls the answers are those of the map, and memory stays in step with it. -/
theorem Represents.mapM_call {m : Memory} {f : ByteMap} (h : m.Represents f)
    (commands : List Command) :
    ((commands.mapM call).run m).1 = ((commands.mapM ByteMap.call).run f).1 ∧
      ((commands.mapM call).run m).2.Represents ((commands.mapM ByteMap.call).run f).2 := by
  refine Guarded.mapM_refines ?_ commands h
  intro c m f h
  exact ⟨h.answer c, h.perform c⟩

/-- Memory refines a map of bytes.  For all calls whose ranges are empty or can be addressed, no call
traps on a host, and the answers are those of the map: a range that is read gives its bytes, a word its
value, and only writing changes the map, on the written range alone.  The size is the largest end of a
touched range, rounded up to whole words; up to there memory holds the bytes of the map, which is zero
from there on.  An empty range, wherever it lies, changes nothing. -/
theorem calls_refine_byteMap (commands : List Command) (h : ∀ c ∈ commands, c.Addressable) :
    let called := (commands.mapM call).run empty
    let expected := (commands.mapM ByteMap.call).run .blank
    let m := called.2
    let f := expected.2
    (commands.mapM Guarded.memoryCall).run empty = some called ∧ called.1 = expected.1 ∧
      (∃ reach, m.size = 32 * ((reach + 31) / 32) ∧
        IsGreatest
          (insert 0 {stop | ∃ c ∈ commands, c.length ≠ 0 ∧ c.offset + c.length = stop}) reach) ∧
      m.bytes.toList = f.read 0 m.size ∧
      (∀ address, m.size ≤ address → f.byteAt address = 0) ∧
      (∀ offset, ∃ w, f.answer (.loadWord offset) = .word w ∧ w.toNat = f.wordValue offset) ∧
      (∀ c, c.written = [] → (m.perform c).memory.byteAt = f.byteAt) ∧
      ∀ c, c.length = 0 → (m.perform c).memory = m ∧
        (Guarded.memoryCall c).run m = some ((m.perform c).answer, m) := by
  intro called expected m f
  obtain ⟨hanswers, hrepresents⟩ : called.1 = expected.1 ∧ m.Represents f :=
    represents_empty.mapM_call commands
  have hreach : f = commands.foldl ByteMap.perform .blank :=
    Guarded.snd_run_mapM ByteMap.call commands .blank
  have hhost : (commands.mapM Guarded.memoryCall).run empty = some called :=
    Guarded.mapM_eq_some (fun c hc => Guarded.memoryCall_eq (h c hc)) empty
  refine ⟨hhost, hanswers, ⟨f.reach, hrepresents.size_eq, ?_⟩, hrepresents.toList_bytes,
    fun _ => hrepresents.byteAt_of_le, fun offset => ⟨_, rfl, f.toNat_ofNat_wordValue offset⟩, ?_,
    fun c hempty => (Guarded.memoryCall_of_empty hempty m).symm⟩
  · rw [hreach]
    exact ByteMap.isGreatest_reach .blank commands
  · intro c hread
    funext address
    rw [byteAt_perform, hread, hrepresents.byteAt_eq, if_neg (by rw [List.length_nil]; omega)]

/-- Bytes are written across the end of a word and read back around them, a single byte is written over
them, an empty range far beyond all memory is passed over, and a word is read. -/
theorem calls_refine_byteMap_of_overlap :
    let commands : List Command :=
      [.store 30 [0xaa, 0xbb, 0xcc], .load 29 5, .storeByte 31 0xff, .cover (2 ^ 64 - 1) 0,
        .loadWord 1]
    let called := (commands.mapM call).run empty
    (commands.mapM Guarded.memoryCall).run empty = some called ∧
      called.1 = [.done, .bytes [0, 0xaa, 0xbb, 0xcc, 0], .done, .size 64, .word 0xaaffcc] := by
  intro commands called
  obtain ⟨hhost, hanswers, -⟩ := calls_refine_byteMap commands (by decide)
  refine ⟨hhost, hanswers.trans ?_⟩
  decide +kernel

end Memory

end MeteredMachine
