import MeteredMachine.Proofs.DocumentContents

/-!
# The two views of a trace

The document of a trace writes the members of an object in the order of their names and the record
in the order of the fields; the document shows an instruction by its label and the record by its
byte.  There is no other difference once storage values are shown in hexadecimal: with the members
of the record put in order and each byte replaced by its label, in all entries and the calls below
them, the record is the document.

Main results:

- Definition {lit}`Json.sorted` puts the members of all objects in order.
- Definition {lit}`Trace.relabel` replaces the bytes of instructions by their labels.
- Theorem {lit}`Json.sortedObject_eq_of_perm`: the order of members does not matter to an object.
- Theorems {lit}`Trace.sorted_gasSplit`, {lit}`Trace.sorted_stackSlots` and
  {lit}`Trace.sorted_slotFields`: the two views of the objects inside an entry.
- Theorem {lit}`Trace.Entry.relabel_sorted_record`: the two views of one entry.
- Theorem {lit}`Trace.CallForest.document_eq_relabel_record`: the two views of a forest.
-/

namespace MeteredMachine

namespace Json

/-! ## Members in order -/

mutual

/-- The value with the members of all its objects in the order of their names. -/
def sorted : Json → Json
  | .null => .null
  | .bool value => .bool value
  | .number value => .number value
  | .string value => .string value
  | .array items => .array (sortedItems items)
  | .object members => .sortedObject (sortedMembers members)

/-- Values with the members of all their objects in order. -/
def sortedItems : List Json → List Json
  | [] => []
  | item :: items => sorted item :: sortedItems items

/-- Members whose values have the members of all their objects in order. -/
def sortedMembers : List (String × Json) → List (String × Json)
  | [] => []
  | (name, value) :: members => (name, sorted value) :: sortedMembers members

end

theorem sorted_string (value : String) : (Json.string value).sorted = .string value :=
  rfl

theorem sortedItems_eq_map (items : List Json) : sortedItems items = items.map sorted := by
  induction items with
  | nil => rfl
  | cons item items ih => rw [sortedItems, ih, List.map_cons]

theorem sortedMembers_eq_map (members : List (String × Json)) :
    sortedMembers members = members.map (Prod.map id sorted) := by
  induction members with
  | nil => rfl
  | cons member members ih => rw [sortedMembers, ih, List.map_cons, Prod.map, id]

/-- Members with different names make the same object in any order. -/
theorem sortedObject_eq_of_perm {members others : List (String × Json)}
    (hmembers : members.Pairwise fun a b => a.1 ≠ b.1) (h : members.Perm others) :
    sortedObject members = sortedObject others := by
  have hothers : others.Pairwise fun a b => a.1 ≠ b.1 :=
    h.pairwise hmembers fun hne => hne.symm
  have hmaps : SortedMap.ofList members = SortedMap.ofList others :=
    SortedMap.ext_perm ((SortedMap.perm_entries_ofList hmembers).trans
      (h.trans (SortedMap.perm_entries_ofList hothers).symm))
  rw [sortedObject, hmaps, sortedObject]

end Json

namespace Trace

/-! ## Bytes and labels -/

/-- How the instruction of a byte is shown under the options. -/
def Options.byteLabel (o : Options) (byte : UInt8) : String :=
  if o.opcodeAsHex then Hex.byteText byte
  else
    match Opcode.ofByte? byte with
    | some op => op.name
    | none => Hex.byteText byte

/-- The value of a byte as the value of its label. -/
def labelJson (o : Options) : Json → Json
  | .number byte => .string (o.byteLabel (UInt8.ofNat byte.toNat))
  | value => value

mutual

/-- The view of entries in which every byte of an instruction is replaced by its label, in the
entries themselves and in the calls below them. -/
def relabel (o : Options) : Json → Json
  | .null => .null
  | .bool value => .bool value
  | .number value => .number value
  | .string value => .string value
  | .array entries => .array (relabelItems o entries)
  | .object members => .sortedObject (relabelMembers o members)

/-- The views of entries with their bytes replaced. -/
def relabelItems (o : Options) : List Json → List Json
  | [] => []
  | entry :: entries => relabel o entry :: relabelItems o entries

/-- The members of an entry with its byte replaced; only the calls are entered. -/
def relabelMembers (o : Options) : List (String × Json) → List (String × Json)
  | [] => []
  | (name, value) :: members =>
    (if name = "opcode" then ("op", labelJson o value)
      else if name = "calls" then (name, relabel o value)
      else (name, value)) :: relabelMembers o members

end

theorem relabelItems_eq_map (o : Options) (entries : List Json) :
    relabelItems o entries = entries.map (relabel o) := by
  induction entries with
  | nil => rfl
  | cons entry entries ih => rw [relabelItems, ih, List.map_cons]

/-- A member of a record as the document shows it. -/
def shownMember (o : Options) (member : String × Json) : String × Json :=
  if member.1 = "opcode" then ("op", labelJson o member.2.sorted)
  else if member.1 = "calls" then (member.1, relabel o member.2.sorted)
  else (member.1, member.2.sorted)

theorem relabelMembers_sortedMembers (o : Options) (members : List (String × Json)) :
    relabelMembers o (Json.sortedMembers members) = members.map (shownMember o) := by
  induction members with
  | nil => rfl
  | cons member members ih =>
    rw [Json.sortedMembers, relabelMembers, ih, List.map_cons]
    rfl

theorem relabelMembers_perm (o : Options) {members others : List (String × Json)}
    (h : members.Perm others) : (relabelMembers o members).Perm (relabelMembers o others) := by
  induction h with
  | nil => exact .nil
  | cons member _ ih => exact ih.cons _
  | swap a b members => exact .swap _ _ _
  | trans _ _ ih ih' => exact ih.trans ih'

/-- The name of a member of a record in the document. -/
def shownName (name : String) : String :=
  if name = "opcode" then "op" else name

theorem fst_shownMember (o : Options) (member : String × Json) :
    (shownMember o member).1 = shownName member.1 := by
  rw [shownMember, shownName]
  split
  next => rfl
  next =>
    split
    next => rfl
    next => rfl

section

variable (o : Options) {members : List (String × Json)}
  (hnames : ((members.map Prod.fst).map shownName).Nodup)

include hnames

theorem pairwise_ne_shownMember :
    (members.map (shownMember o)).Pairwise fun a b => a.1 ≠ b.1 := by
  rw [List.map_map] at hnames
  simp only [List.pairwise_map, fst_shownMember]
  exact List.pairwise_map.1 hnames

/-- Putting the members of an object in order does not disturb the replacement of its byte. -/
theorem relabel_sorted_object :
    relabel o (Json.object members).sorted = .sortedObject (members.map (shownMember o)) := by
  have hsorted : (Json.sortedMembers members).Pairwise fun a b => a.1 ≠ b.1 := by
    rw [Json.sortedMembers_eq_map, List.pairwise_map]
    exact List.pairwise_map.1 hnames.of_map
  have hperm := relabelMembers_perm o (SortedMap.perm_entries_ofList hsorted)
  rw [relabelMembers_sortedMembers] at hperm
  rw [Json.sorted, Json.sortedObject, relabel]
  exact (Json.sortedObject_eq_of_perm (pairwise_ne_shownMember o hnames) hperm.symm).symm

end

/-! ## Parts of an entry -/

/-- Parts are shown as they are, with the members of their objects in order. -/
theorem map_shownMember_partMember {α : Type} {name : String} (hopcode : name ≠ "opcode")
    (hcalls : name ≠ "calls") (o : Options) (write : α → Json) (part? : Option α) :
    (partMember name write part?).map (shownMember o) =
      partMember name (fun part => (write part).sorted) part? := by
  cases part? with
  | none => rfl
  | some part => simp [partMember, shownMember, hopcode, hcalls]

/-- Calls are shown as entries of their own. -/
theorem map_shownMember_itemsMember (o : Options) (calls : List Json) :
    (itemsMember "calls" calls).map (shownMember o) =
      itemsMember "calls" (calls.map fun entry => relabel o entry.sorted) := by
  cases calls with
  | nil => rfl
  | cons entry calls =>
    simp [itemsMember, shownMember, Json.sorted, Json.sortedItems_eq_map, relabel,
      relabelItems_eq_map]

theorem sublist_names_partMember {α : Type} (name : String) (write : α → Json)
    (part? : Option α) : ((partMember name write part?).map Prod.fst).Sublist [name] := by
  cases part? with
  | none => exact List.nil_sublist _
  | some part => exact List.Sublist.refl _

theorem sublist_names_itemsMember (name : String) (items : List Json) :
    ((itemsMember name items).map Prod.fst).Sublist [name] := by
  cases items with
  | nil => exact List.nil_sublist _
  | cons item items => exact List.Sublist.refl _

theorem sorted_wordsJson (words : List Word) : (wordsJson words).sorted = wordsJson words := by
  rw [wordsJson, Json.sorted, Json.sortedItems_eq_map, List.map_map]
  rfl

theorem sorted_bytesJson (bytes : List UInt8) : (bytesJson bytes).sorted = bytesJson bytes :=
  rfl

/-- The fields of a gas split are its members in the document. -/
theorem sorted_gasSplit (split : GasSplit) :
    (Json.object split.fields).sorted = .sortedObject split.members :=
  rfl

/-- The fields of the items of a step are their members in the document. -/
theorem sorted_stackSlots (slots : StackSlots) :
    (Json.object slots.fields).sorted = .sortedObject slots.members := by
  rw [Json.sorted, Json.sortedMembers_eq_map, StackSlots.fields, StackSlots.members]
  simp [sorted_wordsJson]

/-- Slots are shown by their keys, with their values in hexadecimal. -/
theorem sorted_slotFields (slots : Slots) :
    (Json.object (slotFields slots)).sorted =
      .sortedObject (slotMembers Word.markedHex slots) := by
  rw [Json.sorted, Json.sortedMembers_eq_map, slotFields, slotMembers, List.map_map]
  rfl

/-! ## Entries -/

namespace Entry

/-- The names of the fields of an entry, in the order of the record. -/
def fieldNames : List String :=
  ["pc", "opcode", "depth", "address", "gas", "gasCost"] ++ ["gasDetail"] ++ ["stack"] ++
    ["stackInOut"] ++ ["memory"] ++ ["storage"] ++ ["error"] ++ ["calls"]

/-- The names of the members of a record stay different when its byte is replaced. -/
theorem nodup_shownNames (e : Entry) (calls : List Json) (members : List (String × Json))
    (h : e.record calls = .object members) : ((members.map Prod.fst).map shownName).Nodup := by
  obtain rfl := Json.object.inj h
  refine List.Nodup.sublist (List.Sublist.map shownName ?_)
    (by decide : (fieldNames.map shownName).Nodup)
  simp only [List.map_append]
  refine .append ?_ (sublist_names_itemsMember ..)
  iterate 6 refine .append ?_ (sublist_names_partMember ..)
  exact .refl _

/-- Put in order and with its byte replaced, the record of an entry is its document. -/
theorem relabel_sorted_record {o : Options} (ho : o.storageValueAsHex = true) (e : Entry)
    (calls : List Json) :
    relabel o (e.record calls).sorted =
      e.document o (calls.map fun entry => relabel o entry.sorted) := by
  have hvalue : storageValueText o = Word.markedHex := by
    funext value
    rw [storageValueText, if_pos ho]
  have hlabel : o.byteLabel (UInt8.ofNat e.opcode.toNat) = e.label o := by
    rw [UInt8.ofNat_toNat]
    rfl
  have hfixed : [("pc", .nat e.pc), ("opcode", .nat e.opcode.toNat), ("depth", .nat e.depth),
      ("address", e.address.toJson), ("gas", .nat e.gas.toNat),
      ("gasCost", .nat e.gasCost.toNat)].map (shownMember o) =
        [("pc", .nat e.pc), ("op", .string (e.label o)), ("depth", .nat e.depth),
          ("address", e.address.toJson), ("gas", .nat e.gas.toNat),
          ("gasCost", .nat e.gasCost.toNat)] := by
    rw [← hlabel]
    rfl
  have hnames := e.nodup_shownNames calls _ rfl
  rw [record, relabel_sorted_object o hnames, document, hvalue]
  apply Json.sortedObject_eq_of_perm (pairwise_ne_shownMember o hnames)
  simp (disch := decide) only [List.map_append, map_shownMember_partMember,
    map_shownMember_itemsMember, sorted_gasSplit, sorted_wordsJson, sorted_stackSlots,
    sorted_bytesJson, sorted_slotFields, Json.sorted_string, hfixed]
  -- The two views differ in the order of the stack and of the items that the step touched.
  iterate 4 apply List.Perm.append_right
  simp only [List.append_assoc]
  exact (List.perm_append_comm.append_left _).append_left _

end Entry

/-! ## Forests -/

theorem CallForest.documentItems_eq {o : Options} (ho : o.storageValueAsHex = true)
    (f : CallForest) :
    f.documentItems o = f.recordItems.map fun entry => relabel o entry.sorted := by
  induction f with
  | nil => rfl
  | node entry calls rest ihcalls ihrest =>
    rw [documentItems, recordItems, List.map_cons, ← ihrest, entry.relabel_sorted_record ho,
      ← ihcalls]

/-- The two views of a trace agree.  Where storage values are shown in hexadecimal, the document
of a forest is its record with the members of all objects in the order of their names and with the
byte of every instruction, in all entries and the calls below them, replaced by the label that the
options give it. -/
theorem CallForest.document_eq_relabel_record {o : Options} (ho : o.storageValueAsHex = true)
    (f : CallForest) : f.document o = relabel o f.record.sorted := by
  rw [document, documentItems_eq ho, record, Json.sorted, Json.sortedItems_eq_map, relabel,
    relabelItems_eq_map, List.map_map]
  rfl

/-- An entry with all its parts, above a call that ended with a fault at an undefined byte. -/
theorem CallForest.document_eq_relabel_record_of_call :
    let o : Options := { storageValueAsHex := true }
    let caller : Entry :=
      { pc := 2, opcode := 0x01, depth := 0, address := .ofUInt64 7, gas := 100, gasCost := 3
        gasSplit? := some
          { base := 3, dynamic := 0, remainingBefore := 100, remainingAfter := 97, spent := 3
            refunded := -1 }
        stack? := some [], slots? := some { inputs := [2, 1], outputs := [3] }
        memory? := some [0xab, 0xcd], storage? := some (SortedMap.empty.insert 16 255) }
    let callee : Entry :=
      { pc := 0, opcode := 0xef, depth := 1, address := .ofUInt64 8, gas := 97, gasCost := 0
        error? := some "invalid opcode: 0xef" }
    let f : CallForest := .node caller (.node callee .nil .nil) .nil
    o.storageValueAsHex = true ∧ f.document o = relabel o f.record.sorted := by
  intro o caller callee f
  exact ⟨rfl, CallForest.document_eq_relabel_record rfl f⟩

end Trace

end MeteredMachine
