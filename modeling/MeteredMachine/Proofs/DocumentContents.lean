import Mathlib.Data.List.FinRange
import Mathlib.Data.List.Nodup
import MeteredMachine.Proofs.AddressText
import MeteredMachine.Proofs.MapContents
import MeteredMachine.Proofs.WordText
import MeteredMachine.Trace.Document

/-!
# What a document says

The document of a trace says everything about it.  Every text in it determines what it is the
text of, an instruction among them, whether it is shown by name or by byte.  Every field of an
entry has a member of its own, which is there exactly if the field is, and every slot of a storage
has one.  So a forest is determined by its document, under whatever options that was made.

Main results:

- Theorem {lit}`Trace.Entry.opcode_of_label_eq`: a label determines the byte.
- Theorem {lit}`Json.perm_of_sortedObject_eq`: an object determines its members.
- Structure {lit}`Trace.Entry.ShownBy`, theorems {lit}`Trace.Entry.shownBy_document` and
  {lit}`Trace.Entry.ShownBy.unique`: the members of the object of an entry determine it.
- Theorem {lit}`Trace.CallForest.document_lossless`: a forest is determined by its document.
-/

namespace MeteredMachine

/-! ## Texts -/

namespace Hex

theorem encode_injective : Function.Injective encode := by
  intro a b h
  have ha := decode_digits a
  rw [h, decode_digits] at ha
  exact (Except.ok.inj ha).symm

theorem byteText_injective : Function.Injective byteText := by
  intro a b h
  have hdigits : encode [a] = encode [b] := String.append_right_inj _ |>.1 h
  exact List.singleton_inj.1 (encode_injective hdigits)

end Hex

namespace Word

theorem markedHex_injective : Function.Injective markedHex := by
  intro a b h
  have ha := a.ofHex_markedHex
  rw [h, b.ofHex_markedHex] at ha
  exact (Except.ok.inj ha).symm

theorem decimal_injective : Function.Injective decimal := by
  intro a b h
  have hdigits : Nat.toDigits 10 a.toNat = Nat.toDigits 10 b.toNat := String.ofList_inj.1 h
  have hvalue := congrArg (Nat.ofDigitChars 10 · 0) hdigits
  simp only [Nat.ofDigitChars_ten_toDigits] at hvalue
  exact ext_toNat hvalue

theorem toJson_injective : Function.Injective toJson := by
  intro a b h
  exact markedHex_injective (Json.string.inj h)

end Word

theorem Address.toJson_injective : Function.Injective Address.toJson := by
  intro a b h
  have ha := a.ofHex_hex
  rw [Json.string.inj h, b.ofHex_hex] at ha
  exact (Except.ok.inj ha).symm

/-! ## Labels -/

namespace Opcode

/-- All instructions: those without a parameter of size or depth, and then the three families. -/
def all : List Opcode :=
  plain ++ (List.finRange 32).map push ++ (List.finRange 16).map dup ++ (List.finRange 16).map swap

theorem mem_all (op : Opcode) : op ∈ all := by
  cases op with
  | push index => simp [all]
  | dup index => simp [all]
  | swap index => simp [all]
  | binary op => cases op <;> simp [all, plain]
  | unary op => cases op <;> simp [all, plain]
  | _ => simp [all, plain]

/-- The mnemonics are pairwise different; their bytes are compared as numbers. -/
theorem nodup_names : (all.map fun op => BigEndian.value (Text.utf8 op.name)).Nodup := by
  decide +kernel

theorem name_injective : Function.Injective name := by
  intro a b h
  refine List.inj_on_of_nodup_map nodup_names (mem_all a) (mem_all b) ?_
  rw [h]

/-- No mnemonic reads like the text of a byte. -/
theorem name_ne_byteText (op : Opcode) (byte : UInt8) : op.name ≠ Hex.byteText byte := by
  have htable : ∀ op ∈ all, op.name.toList.head? ≠ some '0' := by decide +kernel
  intro h
  apply htable op (mem_all op)
  rw [h, Hex.byteText, String.toList_append]
  rfl

end Opcode

namespace Trace

namespace Entry

/-- An instruction is shown by its byte or by its mnemonic. -/
theorem label_cases (o : Options) (e : Entry) :
    e.label o = Hex.byteText e.opcode ∨
      ∃ op : Opcode, op.toByte = e.opcode ∧ e.label o = op.name := by
  rw [label, name]
  split
  next => exact .inl rfl
  next =>
    split
    next op hop => exact .inr ⟨op, Opcode.toByte_of_ofByte? hop, rfl⟩
    next => exact .inl rfl

/-- A label determines the byte of the instruction, whatever options it was made under. -/
theorem opcode_of_label_eq {o o' : Options} {e e' : Entry} (h : e.label o = e'.label o') :
    e.opcode = e'.opcode := by
  rcases e.label_cases o with hbyte | ⟨op, hop, hname⟩ <;>
    rcases e'.label_cases o' with hbyte' | ⟨op', hop', hname'⟩
  · rw [hbyte, hbyte'] at h
    exact Hex.byteText_injective h
  · rw [hbyte, hname'] at h
    exact absurd h.symm (op'.name_ne_byteText _)
  · rw [hname, hbyte'] at h
    exact absurd h (op.name_ne_byteText _)
  · rw [hname, hname'] at h
    rw [← hop, ← hop', Opcode.name_injective h]

end Entry

end Trace

/-! ## Members of objects -/

namespace Json

theorem nat_injective : Function.Injective nat := by
  intro a b h
  exact Int.ofNat.inj (Json.number.inj h)

/-- The value of a member of an object. -/
def member? (name : String) : Json → Option Json
  | .object members => SortedMap.lookup? name members
  | _ => none

theorem member?_sortedObject (name : String) (members : List (String × Json)) :
    (sortedObject members).member? name = SortedMap.lookup? name members.reverse :=
  SortedMap.find?_ofList members name

/-- An object determines its members up to their order, if no name comes twice among them. -/
theorem perm_of_sortedObject_eq {members others : List (String × Json)}
    (hmembers : members.Pairwise fun a b => a.1 ≠ b.1)
    (hothers : others.Pairwise fun a b => a.1 ≠ b.1)
    (h : sortedObject members = sortedObject others) : members.Perm others := by
  have hentries : (SortedMap.ofList members).entries = (SortedMap.ofList others).entries :=
    Json.object.inj h
  have hperm := SortedMap.perm_entries_ofList hmembers
  rw [hentries] at hperm
  exact hperm.symm.trans (SortedMap.perm_entries_ofList hothers)

/-- Lists of members with the same distinct names in the same order are equal if they have the
same members. -/
theorem eq_of_perm_of_names {members others : List (String × Json)}
    (hnames : members.map Prod.fst = others.map Prod.fst)
    (hdistinct : members.Pairwise fun a b => a.1 ≠ b.1) (h : members.Perm others) :
    members = others := by
  induction members generalizing others with
  | nil => exact (List.nil_perm.1 h).symm
  | cons member members ih =>
    cases others with
    | nil => cases hnames
    | cons other others =>
      obtain ⟨hname, hrest⟩ := List.cons.inj hnames
      obtain ⟨hhead, htail⟩ := List.pairwise_cons.1 hdistinct
      have hother : other = member := by
        rcases List.mem_cons.1 (h.mem_iff.2 List.mem_cons_self) with heq | hmem
        · exact heq
        · exact absurd hname (hhead other hmem)
      subst hother
      rw [ih hrest htail h.cons_inv]

/-- An object determines the values of its members if their names are fixed. -/
theorem eq_of_sortedObject_eq {members others : List (String × Json)} {names : List String}
    (hnames : names.Nodup) (hmembers : members.map Prod.fst = names)
    (hothers : others.map Prod.fst = names)
    (h : sortedObject members = sortedObject others) : members = others := by
  have hdistinct {l : List (String × Json)} (hl : l.map Prod.fst = names) :
      l.Pairwise fun a b => a.1 ≠ b.1 := by
    rw [← hl] at hnames
    exact List.pairwise_map.1 hnames
  exact eq_of_perm_of_names (hmembers.trans hothers.symm) (hdistinct hmembers)
    (perm_of_sortedObject_eq (hdistinct hmembers) (hdistinct hothers) h)

end Json

/-! ## Parts of an entry -/

namespace Trace

theorem wordsJson_injective : Function.Injective wordsJson := by
  intro a b h
  exact Word.toJson_injective.list_map (Json.array.inj h)

theorem bytesJson_injective : Function.Injective bytesJson := by
  intro a b h
  exact Hex.encode_injective ((String.append_right_inj _).1 (Json.string.inj h))

theorem storageValueText_injective (o : Options) : Function.Injective (storageValueText o) := by
  intro a b h
  rw [storageValueText, storageValueText] at h
  split at h
  next => exact Word.markedHex_injective h
  next => exact Word.decimal_injective h

theorem nat_toNat_injective : Function.Injective fun count : UInt64 => Json.nat count.toNat := by
  intro a b h
  exact UInt64.toNat_inj.1 (Json.nat_injective h)

theorem GasSplit.object_injective :
    Function.Injective fun split : GasSplit => Json.sortedObject split.members := by
  intro a b h
  have hmembers : a.members = b.members :=
    Json.eq_of_sortedObject_eq
      (by decide : ["base", "dynamic", "remainingBefore", "remainingAfter", "spent",
        "refunded"].Nodup) rfl rfl h
  cases a
  cases b
  simp only [members, Json.nat, List.cons.injEq, Prod.mk.injEq, Json.number.injEq, Int.ofNat_inj,
    UInt64.toNat_inj, Int64.toInt_inj, true_and, and_true] at hmembers
  simp only [GasSplit.mk.injEq]
  exact hmembers

theorem StackSlots.object_injective :
    Function.Injective fun slots : StackSlots => Json.sortedObject slots.members := by
  intro a b h
  have hmembers : a.members = b.members :=
    Json.eq_of_sortedObject_eq (by decide : ["in", "out"].Nodup) rfl rfl h
  cases a
  cases b
  simp only [members, List.cons.injEq, Prod.mk.injEq, wordsJson_injective.eq_iff, true_and,
    and_true] at hmembers
  simp only [StackSlots.mk.injEq]
  exact hmembers

/-- The slots of a storage have different names. -/
theorem pairwise_ne_slotMembers (write : Word → String) (slots : Slots) :
    (slotMembers write slots).Pairwise fun a b => a.1 ≠ b.1 := by
  rw [slotMembers, List.pairwise_map]
  exact slots.pairwise_ne_entries.imp fun hne h => hne (Word.markedHex_injective h)

theorem slots_object_injective {write : Word → String} (hwrite : Function.Injective write) :
    Function.Injective fun slots => Json.sortedObject (slotMembers write slots) := by
  intro slots others h
  have hmember : Function.Injective fun entry : Word × Word =>
      (entry.1.markedHex, Json.string (write entry.2)) := by
    intro a b heq
    obtain ⟨hkey, hvalue⟩ := Prod.mk.inj heq
    exact Prod.ext (Word.markedHex_injective hkey) (hwrite (Json.string.inj hvalue))
  have hperm := Json.perm_of_sortedObject_eq (pairwise_ne_slotMembers write slots)
    (pairwise_ne_slotMembers write others) h
  exact SortedMap.ext_perm ((List.map_perm_map_iff hmember).1 hperm)

/-! ## Entries -/

@[simp] theorem lookup?_partMember {α : Type} (key name : String) (write : α → Json)
    (part? : Option α) :
    SortedMap.lookup? key (partMember name write part?).reverse =
      if key = name then part?.map write else none := by
  cases part? with
  | none => simp [partMember]
  | some part =>
    by_cases hkey : key = name
    · simp [partMember, hkey]
    · simp [partMember, SortedMap.lookup?_cons_of_ne hkey, hkey]

@[simp] theorem lookup?_itemsMember (key name : String) (items : List Json) :
    SortedMap.lookup? key (itemsMember name items).reverse =
      if key = name ∧ items ≠ [] then some (.array items) else none := by
  cases items with
  | nil => simp [itemsMember]
  | cons item items =>
    by_cases hkey : key = name
    · simp [itemsMember, hkey]
    · simp [itemsMember, SortedMap.lookup?_cons_of_ne hkey, hkey]

namespace Entry

/-- The members of the object of an entry.  A part that the entry does not have is no member, and
one that it has is a member even if it is empty. -/
structure ShownBy (o : Options) (e : Entry) (calls : List Json) (json : Json) : Prop where
  pc : json.member? "pc" = some (.nat e.pc)
  op : json.member? "op" = some (.string (e.label o))
  depth : json.member? "depth" = some (.nat e.depth)
  address : json.member? "address" = some e.address.toJson
  gas : json.member? "gas" = some (.nat e.gas.toNat)
  gasCost : json.member? "gasCost" = some (.nat e.gasCost.toNat)
  gasSplit : json.member? "gasDetail" =
    e.gasSplit?.map fun split => .sortedObject split.members
  slots : json.member? "stackInOut" = e.slots?.map fun slots => .sortedObject slots.members
  stack : json.member? "stack" = e.stack?.map wordsJson
  memory : json.member? "memory" = e.memory?.map bytesJson
  storage : json.member? "storage" =
    e.storage?.map fun slots => .sortedObject (slotMembers (storageValueText o) slots)
  error : json.member? "error" = e.error?.map .string
  calls : json.member? "calls" = if calls ≠ [] then some (.array calls) else none

theorem shownBy_document (o : Options) (e : Entry) (calls : List Json) :
    e.ShownBy o calls (e.document o calls) := by
  constructor <;>
    simp [document, Json.member?_sortedObject, SortedMap.lookup?_append,
      SortedMap.lookup?_cons_of_ne]

/-- The members determine the entry and the values of its calls. -/
theorem ShownBy.unique {o : Options} {e e' : Entry} {calls calls' : List Json} {json : Json}
    (h : e.ShownBy o calls json) (h' : e'.ShownBy o calls' json) : e = e' ∧ calls = calls' := by
  have member {name : String} {a b : Json} (ha : json.member? name = some a)
      (hb : json.member? name = some b) : a = b :=
    Option.some.inj (ha.symm.trans hb)
  have part {α : Type} {name : String} {write : α → Json} {a? b? : Option α}
      (hwrite : Function.Injective write) (ha : json.member? name = a?.map write)
      (hb : json.member? name = b?.map write) : a? = b? :=
    Option.map_injective hwrite (ha.symm.trans hb)
  have hpc := Json.nat_injective (member h.pc h'.pc)
  have hopcode := opcode_of_label_eq (Json.string.inj (member h.op h'.op))
  have hdepth := Json.nat_injective (member h.depth h'.depth)
  have haddress := Address.toJson_injective (member h.address h'.address)
  have hgas := nat_toNat_injective (member h.gas h'.gas)
  have hgasCost := nat_toNat_injective (member h.gasCost h'.gasCost)
  have hsplit := part GasSplit.object_injective h.gasSplit h'.gasSplit
  have hslots := part StackSlots.object_injective h.slots h'.slots
  have hstack := part wordsJson_injective h.stack h'.stack
  have hmemory := part bytesJson_injective h.memory h'.memory
  have hstorage := part (slots_object_injective (storageValueText_injective o)) h.storage h'.storage
  have herror := part (fun _ _ => Json.string.inj) h.error h'.error
  have hcalls := h.calls.symm.trans h'.calls
  refine ⟨?_, ?_⟩
  · cases e
    cases e'
    simp only [Entry.mk.injEq]
    exact ⟨hpc, hopcode, hdepth, haddress, hgas, hgasCost, hsplit, hstack, hslots, hmemory,
      hstorage, herror⟩
  · cases calls <;> cases calls' <;> simp_all

end Entry

/-! ## Forests -/

theorem CallForest.documentItems_injective (o : Options) :
    Function.Injective (CallForest.documentItems o) := by
  intro f
  induction f with
  | nil =>
    intro g h
    cases g with
    | nil => rfl
    | node entry calls rest => cases h
  | node entry calls rest ihcalls ihrest =>
    intro g h
    cases g with
    | nil => cases h
    | node entry' calls' rest' =>
      obtain ⟨hfirst, hrest⟩ := List.cons.inj h
      have hshown := Entry.shownBy_document o entry (calls.documentItems o)
      rw [hfirst] at hshown
      obtain ⟨rfl, hcalls⟩ := hshown.unique (Entry.shownBy_document o entry' _)
      rw [ihcalls hcalls, ihrest hrest]

/-- The document of a forest loses nothing of it.  Forests with equal documents are equal.  The
object of an entry has a member for each part that the entry has, empty or not, and for no part
that it does not have; the object of a storage has one member for each slot, no two of one name;
and the label of an entry determines its byte, be it a mnemonic or a byte and be the byte defined
or not. -/
theorem CallForest.document_lossless (o : Options) :
    Function.Injective (CallForest.document o) ∧
    (∀ (e : Entry) (calls : List Json), e.ShownBy o calls (e.document o calls)) ∧
    (∀ slots : Slots, ∃ members,
      Json.sortedObject (slotMembers (storageValueText o) slots) = .object members ∧
      members.Perm (slotMembers (storageValueText o) slots) ∧ (members.map Prod.fst).Nodup) ∧
    ∀ (o' : Options) (e e' : Entry), e.label o = e'.label o' → e.opcode = e'.opcode := by
  refine ⟨?_, Entry.shownBy_document o, ?_, fun _ _ _ => Entry.opcode_of_label_eq⟩
  · intro f g h
    exact documentItems_injective o (Json.array.inj h)
  · intro slots
    exact ⟨_, rfl, SortedMap.perm_entries_ofList (pairwise_ne_slotMembers _ slots),
      List.pairwise_map.2 (SortedMap.pairwise_ne_entries _)⟩

end Trace

end MeteredMachine
