import Mathlib.Data.List.Nodup
import Mathlib.Data.List.Perm.Subperm
import MeteredMachine.Proofs.JsonGrammar
import MeteredMachine.Trace.Options

/-!
# Options are read key by key

The text of an object is read member by member.  A member that sets a switch which was not set
before changes that switch and nothing else, and any other member ends the reading with an error.
So an object is read exactly if its members are settings of different switches; the options depend
on these settings, not on their order or on the blanks between them.

Main results:

- Definition {lit}`Trace.Options.Objectionable`: what speaks against the members of an object.
- Theorem {lit}`Trace.Options.readMembers_round`: what one round of the reader does.
- Theorem {lit}`Trace.Options.readMembers_listed`: what all rounds do.
- Theorem {lit}`Trace.Options.ofJson_cases`: which texts of objects are read, and as what.
- Theorem {lit}`Trace.Options.ofJson_toJson`: written options read back.
- Theorem {lit}`Trace.Options.ofJson_strict` puts these together.
-/

namespace MeteredMachine

namespace Trace

/-! ## Names of switches -/

namespace Switch

/-- The units of the name of a switch. -/
def units (s : Switch) : List Nat :=
  Json.units s.key.toList

theorem ofKey?_key (s : Switch) : ofKey? s.key = some s := by
  cases s <;> decide

theorem key_of_ofKey? {name : String} {s : Switch} (h : ofKey? name = some s) : s.key = name := by
  rw [ofKey?] at h
  have hfound := List.find?_some h
  exact eq_of_beq hfound

theorem key_injective {s t : Switch} (h : s.key = t.key) : s = t := by
  have hs := ofKey?_key s
  rw [h, ofKey?_key] at hs
  exact (Option.some.inj hs).symm

/-- No unit in the name of a switch is a half. -/
theorem not_isHalf_of_mem_units (s : Switch) : ∀ u ∈ s.units, ¬ Json.IsHalf u := by
  have hascii : ∀ u ∈ s.units, u < 0x80 := by
    cases s <;> decide
  intro u hu hhalf
  exact absurd hhalf.1 (Nat.not_le.2 (Nat.lt_trans (hascii u hu) (by decide)))

theorem units_injective {s t : Switch} (h : s.units = t.units) : s = t :=
  key_injective (String.toList_inj.1 (Json.eq_of_units_eq t.not_isHalf_of_mem_units h))

theorem mem_all (s : Switch) : s ∈ all := by
  cases s <;> decide

/-- There are no more different switches than there are switches. -/
theorem length_le_of_nodup {seen : List Switch} (h : seen.Nodup) : seen.length ≤ all.length :=
  (h.subperm fun s _ => mem_all s).length_le

end Switch

namespace Options

open Json (Blanks IsMember IsValue Listed Padded Series Spells skipBlanks)

/-! ## Members -/

/-- How a setting of a switch is written: under the name of the switch, as a truth value. -/
def Member.written (m : Member) : Json.Member :=
  { name := m.switch.units, value := Json.boolText m.value }

theorem boolText_injective {a b : Bool} (h : Json.boolText a = Json.boolText b) : a = b := by
  revert a b
  decide

theorem Member.written_injective : Function.Injective Member.written := by
  intro m n h
  obtain ⟨hname, hvalue⟩ := Json.Member.mk.inj h
  cases m
  cases n
  exact congrArg₂ Member.mk (Switch.units_injective hname) (boolText_injective hvalue)

/-- The name of a switch is read as the switch. -/
theorem readMember_of_known {name : List Char} {s : Switch} (h : Spells name s.units)
    (seen : List Switch) (rest : List Char) :
    readMember seen (name ++ '"' :: rest) =
      if s ∈ seen then .error (repeatedName s.key (afterRefusedName rest))
      else readMemberValue s rest := by
  rcases h.taken.1 rest with ⟨chars, hchars, hread⟩ | ⟨_, u, hu, hhalf⟩
  · obtain rfl := Json.eq_of_units_eq s.not_isHalf_of_mem_units hchars
    rw [readMember, hread]
    simp only [String.ofList_toList, Switch.ofKey?_key]
  · exact absurd hhalf (s.not_isHalf_of_mem_units u hu)

/-- A name that is not the name of a switch is refused. -/
theorem readMember_of_unknown {name : List Char} {us : List Nat} (h : Spells name us)
    (hunknown : ∀ s : Switch, us ≠ s.units) (seen : List Switch) (rest : List Char) :
    ∃ failure, readMember seen (name ++ '"' :: rest) = .error failure := by
  rcases h.taken.1 rest with ⟨chars, rfl, hread⟩ | ⟨⟨failure, hread⟩, _⟩
  · rw [readMember, hread]
    dsimp only
    split
    next => exact ⟨_, rfl⟩
    next s hs =>
      refine absurd ?_ (hunknown s)
      rw [Switch.units, Switch.key_of_ofKey? hs, String.toList_ofList]
  · exact ⟨failure, by rw [readMember, hread]⟩

/-- A truth value behind a colon is read, up to the blanks behind it. -/
theorem readMemberValue_boolText {middle padded : List Char} {b : Bool} (hmiddle : Blanks middle)
    (h : Padded IsValue (Json.boolText b) padded) (s : Switch) :
    ∃ back, Blanks back ∧ ∀ rest, readMemberValue s (middle ++ ':' :: (padded ++ rest)) =
      .ok { value := ⟨s, b⟩, rest := back ++ rest } := by
  obtain ⟨hfront, _, hback⟩ := h
  refine ⟨_, hback, fun rest => ?_⟩
  rw [readMemberValue, Json.skipBlanks_append hmiddle, Json.skipBlanks_cons (by decide)]
  simp only [List.append_assoc, Json.readBool_boolText hfront]

/-- A value behind a colon that is no truth value is refused. -/
theorem readMemberValue_of_ne {middle value padded : List Char} (hmiddle : Blanks middle)
    (h : Padded IsValue value padded) (hbool : ∀ b, value ≠ Json.boolText b) (s : Switch)
    (rest : List Char) :
    ∃ failure, readMemberValue s (middle ++ ':' :: (padded ++ rest)) = .error failure := by
  obtain @⟨front, _, back, hfront, hvalue, _⟩ := h
  obtain ⟨failure, hread⟩ := Json.readBool_of_isValue hfront hvalue hbool (back ++ rest)
  refine ⟨failure, ?_⟩
  rw [readMemberValue, Json.skipBlanks_append hmiddle, Json.skipBlanks_cons (by decide)]
  simp only [List.append_assoc, hread]

/-- The text of a member starts, behind blanks, with a quote. -/
def Opens (text inside : List Char) : Prop :=
  ∀ rest, skipBlanks (text ++ rest) = '"' :: (inside ++ rest)

theorem opens_isMember {front inside : List Char} (hfront : Blanks front) :
    Opens (front ++ '"' :: inside) inside := by
  intro rest
  rw [List.append_assoc, Json.skipBlanks_append hfront]
  exact Json.skipBlanks_cons (by decide) _

theorem Opens.append {text inside : List Char} (h : Opens text inside) (tail : List Char) :
    Opens (text ++ tail) (inside ++ tail) := by
  intro rest
  rw [List.append_assoc, h, List.append_assoc]

/-- A setting is read as such, unless its switch was seen before. -/
theorem readMember_written {setting : Member} {text : List Char}
    (h : IsMember IsValue setting.written text) :
    ∃ inside back, Opens text inside ∧ Blanks back ∧ ∀ seen rest,
      (setting.switch ∉ seen →
        readMember seen (inside ++ rest) = .ok { value := setting, rest := back ++ rest }) ∧
      (setting.switch ∈ seen → ∃ failure, readMember seen (inside ++ rest) = .error failure) := by
  cases h with
  | mk hfront hname hmiddle hvalue =>
    obtain ⟨back, hback, hread⟩ := readMemberValue_boolText hmiddle hvalue setting.switch
    refine ⟨_, back, opens_isMember hfront, hback, fun seen rest => ⟨?_, ?_⟩⟩
    · intro hnew
      simp only [List.append_assoc, List.cons_append]
      rw [readMember_of_known hname, if_neg hnew, hread]
    · intro hseen
      simp only [List.append_assoc, List.cons_append]
      rw [readMember_of_known hname, if_pos hseen]
      exact ⟨_, rfl⟩

/-- A member that is no setting is refused. -/
theorem readMember_of_ne_written {m : Json.Member} {text : List Char} (h : IsMember IsValue m text)
    (hne : ∀ setting, m ≠ Member.written setting) :
    ∃ inside, Opens text inside ∧
      ∀ seen rest, ∃ failure, readMember seen (inside ++ rest) = .error failure := by
  obtain @⟨front, name, middle, value, padded, us, hfront, hname, hmiddle, hvalue⟩ := h
  refine ⟨_, opens_isMember hfront, fun seen rest => ?_⟩
  simp only [List.append_assoc, List.cons_append]
  by_cases hknown : ∃ s : Switch, us = s.units
  · obtain ⟨s, rfl⟩ := hknown
    have hbool : ∀ b, value ≠ Json.boolText b := by
      rintro b rfl
      exact hne ⟨s, b⟩ rfl
    rw [readMember_of_known hname]
    split
    next => exact ⟨_, rfl⟩
    next => exact readMemberValue_of_ne hmiddle hvalue hbool s rest
  · exact readMember_of_unknown hname (not_exists.1 hknown) seen _

/-! ## Rounds of the reader -/

theorem nextMember_first {text inside : List Char} (h : Opens text inside) (rest : List Char) :
    nextMember .first (text ++ rest) = .ok (.member (inside ++ rest)) := by
  rw [nextMember, h]
  rfl

theorem nextMember_later {back text inside : List Char} (hback : Blanks back)
    (h : Opens text inside) (rest : List Char) :
    nextMember .later (back ++ ',' :: (text ++ rest)) = .ok (.member (inside ++ rest)) := by
  rw [nextMember, Json.skipBlanks_append hback, Json.skipBlanks_cons (by decide)]
  simp only [h rest]
  rfl

theorem nextMember_closed {back : List Char} (hback : Blanks back) (place : Place)
    (rest : List Char) :
    nextMember place (back ++ Char.ofNat 0x7d :: rest) = .ok (.closed rest) := by
  rw [nextMember, Json.skipBlanks_append hback, Json.skipBlanks_cons (by decide)]
  rfl

/-- The members of an object are settings of switches, no two of them of one switch and none of a
switch that was seen before. -/
structure AreSettings (seen : List Switch) (members : List Json.Member) (settings : List Member) :
    Prop where
  members_eq : members = settings.map Member.written
  nodup : (settings.map Member.switch ++ seen).Nodup

section

variable {seen : List Switch} {setting : Member} {members : List Json.Member}

theorem AreSettings.cons {settings : List Member}
    (h : AreSettings (setting.switch :: seen) members settings) :
    AreSettings seen (setting.written :: members) (setting :: settings) :=
  ⟨congrArg (setting.written :: ·) h.members_eq, List.perm_middle.nodup_iff.1 h.nodup⟩

/-- The first of some settings, and the settings behind it. -/
theorem AreSettings.exists_cons {settings : List Member} {m : Json.Member}
    (h : AreSettings seen (m :: members) settings) :
    ∃ setting rest, settings = setting :: rest ∧ m = Member.written setting ∧
      setting.switch ∉ seen ∧ AreSettings (setting.switch :: seen) members rest := by
  obtain ⟨heq, hnodup⟩ := h
  cases settings with
  | nil => cases heq
  | cons setting rest =>
    obtain ⟨hfirst, hrest⟩ := List.cons.inj heq
    refine ⟨setting, rest, rfl, hfirst, ?_, hrest, List.perm_middle.nodup_iff.2 hnodup⟩
    intro hseen
    exact (List.nodup_cons.1 hnodup).1 (List.mem_append_right _ hseen)

end

/-- One round reads a setting of a switch that was not seen before and goes on behind it; it fails
at any other member. -/
theorem readMembers_round {m : Json.Member} {text : List Char} (h : IsMember IsValue m text)
    {place : Place} {input rest : List Char}
    (hnext : ∀ inside, Opens text inside → nextMember place input = .ok (.member (inside ++ rest)))
    (rounds : Nat) (seen : List Switch) (o : Options) :
    (∃ setting back, m = Member.written setting ∧ setting.switch ∉ seen ∧ Blanks back ∧
      readMembers (rounds + 1) place seen o input =
        readMembers rounds .later (setting.switch :: seen) (o.set setting.switch setting.value)
          (back ++ rest)) ∨
    (∃ failure, readMembers (rounds + 1) place seen o input = .error failure) ∧
      ∀ members settings, ¬ AreSettings seen (m :: members) settings := by
  by_cases hsetting : ∃ setting, m = Member.written setting
  · obtain ⟨setting, rfl⟩ := hsetting
    obtain ⟨inside, back, hopens, hback, hread⟩ := readMember_written h
    by_cases hseen : setting.switch ∈ seen
    · obtain ⟨failure, hfailure⟩ := (hread seen rest).2 hseen
      refine Or.inr ⟨⟨failure, ?_⟩, fun members settings hsettings => ?_⟩
      · simp only [readMembers, hnext inside hopens, hfailure]
      · obtain ⟨other, _, _, heq, hnew, _⟩ := hsettings.exists_cons
        obtain rfl := Member.written_injective heq
        exact hnew hseen
    · refine Or.inl ⟨setting, back, rfl, hseen, hback, ?_⟩
      simp only [readMembers, hnext inside hopens, (hread seen rest).1 hseen]
  · obtain ⟨inside, hopens, hread⟩ := readMember_of_ne_written h (not_exists.1 hsetting)
    obtain ⟨failure, hfailure⟩ := hread seen rest
    refine Or.inr ⟨⟨failure, ?_⟩, fun members settings hsettings => ?_⟩
    · simp only [readMembers, hnext inside hopens, hfailure]
    · obtain ⟨setting, _, _, heq, _, _⟩ := hsettings.exists_cons
      exact hsetting ⟨setting, heq⟩

/-- The options after some settings. -/
def withSettings (o : Options) (settings : List Member) : Options :=
  settings.foldl (fun o m => o.set m.switch m.value) o

/-- There is a round left as long as no switch was seen twice. -/
theorem exists_round {rounds : Nat} {seen : List Switch} (hseen : seen.Nodup)
    (hrounds : rounds + seen.length = Switch.all.length + 1) : ∃ n, rounds = n + 1 := by
  have hle := Switch.length_le_of_nodup hseen
  exact ⟨rounds - 1, by omega⟩

/-- Reading the members of an object gives the options with their settings, and fails if they are no
settings of different switches. -/
theorem readMembers_listed {members : List Json.Member} {text : List Char}
    (h : Listed (IsMember IsValue) members text) {place : Place} {input rest : List Char}
    (hnext : ∀ inside, Opens text inside →
      nextMember place input = .ok (.member (inside ++ Char.ofNat 0x7d :: rest)))
    {rounds : Nat} {seen : List Switch} (hseen : seen.Nodup)
    (hrounds : rounds + seen.length = Switch.all.length + 1) (o : Options) :
    (∃ settings, AreSettings seen members settings ∧
      readMembers rounds place seen o input = .ok { value := o.withSettings settings, rest }) ∨
    (∃ failure, readMembers rounds place seen o input = .error failure) ∧
      ∀ settings, ¬ AreSettings seen members settings := by
  -- Each round adds a switch to the ones seen, so the rounds left and the switches seen make up
  -- their number at the start.
  induction h generalizing place input rounds seen o with
  | @one m text hm =>
    obtain ⟨rounds, rfl⟩ := exists_round hseen hrounds
    rcases readMembers_round hm hnext rounds seen o with
      ⟨setting, back, rfl, hnew, hback, hread⟩ | ⟨hfailure, hall⟩
    · have hseen' := List.nodup_cons.2 ⟨hnew, hseen⟩
      have hrounds' : rounds + (setting.switch :: seen).length = Switch.all.length + 1 := by
        rw [List.length_cons]
        omega
      obtain ⟨rounds, rfl⟩ := exists_round hseen' hrounds'
      refine Or.inl ⟨[setting], AreSettings.cons ⟨rfl, hseen'⟩, ?_⟩
      rw [hread]
      simp only [readMembers, nextMember_closed hback]
      rfl
    · exact Or.inr ⟨hfailure, hall []⟩
  | @cons m members text tail hm _ ih =>
    obtain ⟨rounds, rfl⟩ := exists_round hseen hrounds
    have hround : ∀ inside, Opens text inside → nextMember place input =
        .ok (.member (inside ++ ',' :: (tail ++ Char.ofNat 0x7d :: rest))) := by
      intro inside hopens
      rw [hnext _ (hopens.append (',' :: tail)), List.append_assoc, List.cons_append]
    rcases readMembers_round hm hround rounds seen o with
      ⟨setting, back, rfl, hnew, hback, hread⟩ | ⟨hfailure, hall⟩
    · have hrounds' : rounds + (setting.switch :: seen).length = Switch.all.length + 1 := by
        rw [List.length_cons]
        omega
      rw [hread]
      rcases ih (fun inside hopens => nextMember_later hback hopens _)
          (List.nodup_cons.2 ⟨hnew, hseen⟩) hrounds' (o.set setting.switch setting.value) with
        ⟨settings, hsettings, hrest⟩ | ⟨hfailure, hall⟩
      · exact Or.inl ⟨setting :: settings, hsettings.cons, hrest⟩
      · refine Or.inr ⟨hfailure, fun settings hsettings => ?_⟩
        obtain ⟨other, others, _, heq, _, hothers⟩ := hsettings.exists_cons
        obtain rfl := Member.written_injective heq
        exact hall others hothers
    · exact Or.inr ⟨hfailure, hall members⟩

/-! ## Whole texts -/

theorem read_of_brace {front : List Char} (hfront : Blanks front) (rest : List Char) :
    read (front ++ Char.ofNat 0x7b :: rest) =
      readMembers (Switch.all.length + 1) .first [] {} rest := by
  rw [read, Json.skipBlanks_append hfront, Json.skipBlanks_cons (by decide)]
  rfl

/-- Reading the members between the braces of an object. -/
theorem readMembers_series {members : List Json.Member} {text : List Char}
    (h : Series (IsMember IsValue) members text) (rest : List Char) :
    let result := readMembers (Switch.all.length + 1) .first [] {} (text ++ Char.ofNat 0x7d :: rest)
    (∃ settings, AreSettings [] members settings ∧
      result = .ok { value := withSettings {} settings, rest }) ∨
    (∃ failure, result = .error failure) ∧ ∀ settings, ¬ AreSettings [] members settings := by
  cases h with
  | none hblanks =>
    refine Or.inl ⟨[], ⟨rfl, List.nodup_nil⟩, ?_⟩
    rw [readMembers, nextMember_closed hblanks]
    rfl
  | some hlisted =>
    exact readMembers_listed hlisted (fun inside hopens => nextMember_first hopens _)
      List.nodup_nil rfl {}

theorem ofJson_of_read_eq_ok {text : String} {o : Options} {back : List Char}
    (h : read text.toList = .ok { value := o, rest := back }) (hback : Blanks back) :
    ofJson text = .ok o := by
  have hend := Json.skipBlanks_append hback []
  rw [List.append_nil] at hend
  rw [ofJson, Json.readWhole, h]
  simp only [hend]
  rfl

theorem ofJson_of_read_eq_error {text : String} {failure : Json.Failure}
    (h : read text.toList = .error failure) : ∃ error, ofJson text = .error error := by
  rw [ofJson, Json.readWhole, h]
  dsimp only
  split
  next => exact ⟨_, rfl⟩
  next => exact ⟨_, rfl⟩
  next heq => cases heq

/-- The text of an object is read as the settings that its members are, and refused if they are no
settings of different switches. -/
theorem ofJson_cases {text : String} {members : List Json.Member}
    (h : Json.ObjectText members text.toList) :
    (∃ settings, AreSettings [] members settings ∧ ofJson text = .ok (withSettings {} settings)) ∨
    (∃ error, ofJson text = .error error) ∧ ∀ settings, ¬ AreSettings [] members settings := by
  generalize hchars : text.toList = chars at h
  obtain @⟨front, body, back, members, hfront, hbody, hback⟩ := h
  have hread := read_of_brace hfront (body ++ Char.ofNat 0x7d :: back)
  rw [← hchars] at hread
  rcases readMembers_series hbody back with ⟨settings, hsettings, hok⟩ | ⟨⟨failure, herror⟩, hall⟩
  · exact Or.inl ⟨settings, hsettings, ofJson_of_read_eq_ok (hread.trans hok) hback⟩
  · exact Or.inr ⟨ofJson_of_read_eq_error (hread.trans herror), hall⟩

/-! ## Settings and options -/

/-- Settings of different switches show in the options, and no other switch changes. -/
theorem get_withSettings {settings : List Member} (hnodup : (settings.map Member.switch).Nodup)
    (o : Options) :
    (∀ m ∈ settings, (o.withSettings settings).get m.switch = m.value) ∧
      ∀ s, s ∉ settings.map Member.switch → (o.withSettings settings).get s = o.get s := by
  induction settings generalizing o with
  | nil => exact ⟨fun _ hm => absurd hm List.not_mem_nil, fun _ _ => rfl⟩
  | cons m settings ih =>
    obtain ⟨hfirst, hrest⟩ := List.nodup_cons.1 hnodup
    obtain ⟨hlisted, hothers⟩ := ih hrest (o.set m.switch m.value)
    have hstep : o.withSettings (m :: settings) = (o.set m.switch m.value).withSettings settings :=
      rfl
    rw [hstep]
    refine ⟨?_, ?_⟩
    · intro n hn
      rcases List.mem_cons.1 hn with rfl | hn
      · rw [hothers _ hfirst, get_set, if_pos rfl]
      · exact hlisted n hn
    · intro s hs
      rw [List.map_cons, List.mem_cons, not_or] at hs
      rw [hothers s hs.2, get_set, if_neg hs.1]

theorem get_default (s : Switch) : ({} : Options).get s = false := by
  cases s <;> rfl

/-- Options are the ones after some settings if they show these and nothing else. -/
theorem withSettings_eq {settings : List Member} (hnodup : (settings.map Member.switch).Nodup)
    {o : Options} (hlisted : ∀ m ∈ settings, o.get m.switch = m.value)
    (hothers : ∀ s, s ∉ settings.map Member.switch → o.get s = false) :
    withSettings {} settings = o := by
  obtain ⟨hlisted', hothers'⟩ := get_withSettings hnodup {}
  apply ext_get
  intro s
  by_cases hs : s ∈ settings.map Member.switch
  · obtain ⟨m, hm, rfl⟩ := List.mem_map.1 hs
    rw [hlisted' m hm, hlisted m hm]
  · rw [hothers' s hs, hothers s hs, get_default]

/-- The order of settings of different switches does not matter. -/
theorem withSettings_eq_of_perm {settings settings' : List Member}
    (hnodup : (settings.map Member.switch).Nodup) (h : settings'.Perm settings) :
    withSettings {} settings' = withSettings {} settings := by
  obtain ⟨hlisted, hothers⟩ := get_withSettings hnodup {}
  refine withSettings_eq ((h.map _).nodup_iff.2 hnodup) (fun m hm => hlisted m (h.mem_iff.1 hm)) ?_
  intro s hs
  rw [hothers s (mt (h.map _).mem_iff.2 hs), get_default]

/-- The text of settings of different switches is read as the options with these settings. -/
theorem ofJson_written {text : String} {settings : List Member}
    (h : Json.ObjectText (settings.map Member.written) text.toList)
    (hnodup : (settings.map Member.switch).Nodup) :
    ofJson text = .ok (withSettings {} settings) := by
  rcases ofJson_cases h with ⟨others, ⟨heq, _⟩, hread⟩ | ⟨_, hall⟩
  · obtain rfl := Member.written_injective.list_map heq
    exact hread
  · exact absurd ⟨rfl, by rwa [List.append_nil]⟩ (hall settings)

/-- What speaks against the members of an object: a name that no switch has, a name that comes
twice, or a value for a switch that is no truth value. -/
def Objectionable (members : List Json.Member) : Prop :=
  (∃ m ∈ members, ∀ s : Switch, m.name ≠ s.units) ∨
    ¬ (members.map Json.Member.name).Nodup ∨
    ∃ m ∈ members, (∃ s : Switch, m.name = s.units) ∧ ∀ b, m.value ≠ Json.boolText b

theorem AreSettings.not_objectionable {members : List Json.Member} {settings : List Member}
    (h : AreSettings [] members settings) : ¬ Objectionable members := by
  obtain ⟨rfl, hnodup⟩ := h
  rw [List.append_nil] at hnodup
  rintro (⟨m, hm, hunknown⟩ | hrepeated | ⟨m, hm, _, hvalue⟩)
  · obtain ⟨setting, _, rfl⟩ := List.mem_map.1 hm
    exact hunknown setting.switch rfl
  · apply hrepeated
    have hnames := List.Nodup.map (fun _ _ => Switch.units_injective) hnodup
    rwa [List.map_map] at hnames ⊢
  · obtain ⟨setting, _, rfl⟩ := List.mem_map.1 hm
    exact hvalue setting.value rfl

/-! ## Written options -/

/-- The settings of all switches. -/
def settingsOf (o : Options) : List Member :=
  Switch.all.map fun s => ⟨s, o.get s⟩

theorem map_switch_settingsOf (o : Options) : o.settingsOf.map Member.switch = Switch.all := by
  rw [settingsOf, List.map_map]
  exact List.map_id _

theorem compact_bool_toList (b : Bool) : (Json.bool b).compact.toList = Json.boolText b := by
  cases b <;> rfl

theorem objectText_toJson (o : Options) :
    Json.ObjectText (o.settingsOf.map Member.written) o.toJson.compact.toList := by
  have hmembers : o.settingsOf.map Member.written =
      (Switch.all.map fun s => (s.key, Json.bool (o.get s))).map Json.Member.compact := by
    rw [settingsOf, List.map_map, List.map_map]
    refine List.map_congr_left fun s _ => ?_
    simp only [Function.comp, Json.Member.compact, compact_bool_toList]
    rfl
  rw [hmembers]
  refine Json.objectText_compact ?_
  intro member hmember
  obtain ⟨s, _, rfl⟩ := List.mem_map.1 hmember
  rw [compact_bool_toList]
  exact .bool _

/-- Written options read back. -/
theorem ofJson_toJson (o : Options) : ofJson o.toJson.compact = .ok o := by
  have hnodup : (o.settingsOf.map Member.switch).Nodup := by
    rw [map_switch_settingsOf]
    decide
  rw [ofJson_written o.objectText_toJson hnodup, withSettings_eq hnodup]
  · intro m hm
    obtain ⟨s, _, rfl⟩ := List.mem_map.1 hm
    rfl
  · intro s hs
    rw [map_switch_settingsOf] at hs
    exact absurd s.mem_all hs

/-! ## Options of a text -/

/-- Options are read key by key.  The text of an object whose members are settings of different
switches is read as the options with these settings and every other switch off, so the order of
the members and the blanks between them do not matter; the text of an object with a name that is
unknown or comes twice, or with a value that is no truth value, is refused; and written options
read back. -/
theorem ofJson_strict {text : String} {members : List Json.Member}
    (h : Json.ObjectText members text.toList) :
    (∀ settings : List Member, members = settings.map Member.written →
      (settings.map Member.switch).Nodup →
      (∃ o, ofJson text = .ok o ∧ (∀ m ∈ settings, o.get m.switch = m.value) ∧
        ∀ s, s ∉ settings.map Member.switch → o.get s = false) ∧
      ∀ (text' : String) (settings' : List Member), settings'.Perm settings →
        Json.ObjectText (settings'.map Member.written) text'.toList →
        ofJson text' = ofJson text) ∧
    (Objectionable members → ∃ error, ofJson text = .error error) ∧
    ∀ o : Options, ofJson o.toJson.compact = .ok o := by
  refine ⟨?_, ?_, ofJson_toJson⟩
  · rintro settings rfl hnodup
    have hread := ofJson_written h hnodup
    obtain ⟨hlisted, hothers⟩ := get_withSettings hnodup {}
    refine ⟨⟨_, hread, hlisted, fun s hs => by rw [hothers s hs, get_default]⟩, ?_⟩
    intro text' settings' hperm h'
    rw [hread, ofJson_written h' ((hperm.map _).nodup_iff.2 hnodup),
      withSettings_eq_of_perm hnodup hperm]
  · intro hobjection
    rcases ofJson_cases h with ⟨_, hsettings, _⟩ | ⟨herror, _⟩
    · exact absurd hobjection hsettings.not_objectionable
    · exact herror

/-- A text with blanks of all kinds, in which a name has an escape. -/
def spacedText : String :=
  "\r\n\x7b \"\\u0068ideMemory\"\t:true , \"callTrace\" : false\x7d\n"

theorem objectText_spacedText :
    Json.ObjectText ([⟨.hideMemory, true⟩, ⟨.callTrace, false⟩].map Member.written)
      spacedText.toList := by
  have hescaped := Spells.unit (by decide : Json.IsHexDigit 0 '0')
    (by decide : Json.IsHexDigit 0 '0') (by decide : Json.IsHexDigit 6 '6')
    (by decide : Json.IsHexDigit 8 '8') (Json.spells_flatMap_escapeChar "ideMemory".toList)
  have hfirst := IsMember.mk (by decide : Blanks [' ']) hescaped (by decide : Blanks ['\t'])
    (Padded.mk Json.blanks_nil (IsValue.bool true) (by decide : Blanks [' ']))
  have hsecond := IsMember.mk (by decide : Blanks [' '])
    (Json.spells_flatMap_escapeChar "callTrace".toList) (by decide : Blanks [' '])
    (Padded.mk (by decide : Blanks [' ']) (IsValue.bool false) Json.blanks_nil)
  exact Json.ObjectText.mk (by decide : Blanks ['\r', '\n'])
    (.some (.cons hfirst (.one hsecond))) (by decide : Blanks ['\n'])

/-- A text in which a known name has no truth value. -/
def nullText : String :=
  "\x7b\"hideStack\":null\x7d"

theorem objectText_nullText :
    Json.ObjectText [{ name := Switch.hideStack.units, value := "null".toList }]
      nullText.toList := by
  have hname := Json.spells_flatMap_escapeChar "hideStack".toList
  have hmember := IsMember.mk Json.blanks_nil hname Json.blanks_nil
    (Padded.mk Json.blanks_nil IsValue.null Json.blanks_nil)
  exact Json.ObjectText.mk Json.blanks_nil (.some (.one hmember)) Json.blanks_nil

theorem ofJson_strict_of_spacedText :
    (∃ o, ofJson spacedText = .ok o ∧ o.get .hideMemory = true ∧ o.get .callTrace = false ∧
      o.get .hideStack = false) ∧
    ∃ error, ofJson nullText = .error error := by
  obtain ⟨o, hread, hlisted, hothers⟩ :=
    ((ofJson_strict objectText_spacedText).1 _ rfl (by decide)).1
  have hobjection : Objectionable [{ name := Switch.hideStack.units, value := "null".toList }] :=
    Or.inr (Or.inr ⟨_, List.mem_cons_self, ⟨_, rfl⟩, by decide⟩)
  exact ⟨⟨o, hread, hlisted ⟨.hideMemory, true⟩ (by simp), hlisted ⟨.callTrace, false⟩ (by simp),
    hothers .hideStack (by decide)⟩, (ofJson_strict objectText_nullText).2.1 hobjection⟩

end Options

end Trace

end MeteredMachine
