import JsonAdapters.Proofs.Json.Steps

/-!
# Steps against the grammar

The steps of a reader pass exactly the values of the grammar: what was passed spells the value, and
whatever spells a value is passed, as long as no more containers are open than the reader allows.

## Main definitions

* `Json.Reader.Passed`: a value was passed, in the words of the grammar.

## Main statements

* `Json.Reader.Passes.sound`, `Json.Reader.passes_complete`.
-/

namespace JsonAdapters.Json

open Outcome

/-! ## Ends and starts of values -/

/-- Blanks end words and numbers. -/
theorem delimits_of_isBlank {c : Char} (h : isBlank c = true) : Reader.delimits c = true := by
  simp only [isBlank, Bool.or_eq_true, decide_eq_true_eq] at h
  obtain ((rfl | rfl) | rfl) | rfl := h <;> rfl

/-- Behind blanks, a delimiter ends a literal or a number. -/
theorem stops_of_blank {ending : Ending} {cs tail : List Char} {c : Char} (h : IsBlank cs)
    (hc : Reader.delimits c = true) : Stops ending (cs ++ c :: tail) := by
  cases cs with
  | nil => exact hc
  | cons b cs => exact delimits_of_isBlank (h b (List.mem_cons_self ..))

/-- A value inside a container is ended by what follows it. -/
theorem SpellsItems.stops {ending : Ending} {js : List Tree} {items tail : List Char}
    (h : SpellsItems .further js items) : Stops ending (items ++ ']' :: tail) := by
  cases js with
  | nil => exact stops_of_blank h rfl
  | cons j js =>
    obtain ⟨_, text, rest, rfl, ⟨a, b, rfl, ha, -⟩, -⟩ := h
    simpa using stops_of_blank (c := ',') ha rfl

/-- Words and numbers stop before further members and before the end of an object. -/
theorem SpellsMembers.stops {ending : Ending} {ms : List (String × Tree)}
    {members tail : List Char} (h : SpellsMembers .further ms members) :
    Stops ending (members ++ '\x7d' :: tail) := by
  cases ms with
  | nil => exact stops_of_blank h rfl
  | cons m ms =>
    obtain ⟨s, j⟩ := m
    obtain ⟨_, key, colon, text, rest, rfl, ⟨a, b, rfl, ha, -⟩, -⟩ := h
    simpa using stops_of_blank (c := ',') ha rfl

/-- Where words and numbers stop, all trees end. -/
theorem Tree.EndsBefore.of_stops {ending : Ending} {rest : List Char} (h : Stops ending rest)
    (j : Tree) : j.EndsBefore ending rest := by
  cases j <;> first | exact h | trivial

/-- No value is spelled by nothing. -/
theorem Spells.ne_nil {j : Tree} {text : List Char} (h : Spells j text) : text ≠ [] := by
  rintro rfl
  cases j with
  | null => cases h
  | bool b => cases b <;> cases h
  | number text =>
    obtain ⟨c, t, ht, -⟩ := h.2.head
    cases ht
  | string s =>
    obtain ⟨_, h, -⟩ := h
    cases h
  | array js =>
    obtain ⟨_, h, -⟩ := h
    cases h
  | object ms =>
    obtain ⟨_, h, -⟩ := h
    cases h

/-- The text of a value starts with the token of the value. -/
theorem Spells.starts {r : Reader} {j : Tree} {text rest : List Char} (h : Spells j text)
    (hn : r.nameDue = false) (hr : r.rest = text ++ rest) (he : j.EndsBefore r.ending rest) :
    r.Starts j.mark := by
  cases j with
  | null =>
    obtain rfl : text = _ := h
    exact ⟨hn, rest, hr, he⟩
  | bool b =>
    cases b with
    | false =>
      obtain rfl : text = _ := h
      exact ⟨hn, rest, hr, he⟩
    | true =>
      obtain rfl : text = _ := h
      exact ⟨hn, rest, hr, he⟩
  | number =>
    obtain ⟨rfl, hnum⟩ := h
    obtain ⟨c, t, ht, hc⟩ := hnum.head
    exact ⟨hn, c, t ++ rest, by rw [hr, ht]; rfl, hc⟩
  | string s =>
    obtain ⟨t, rfl, -⟩ := h
    exact ⟨hn, _, hr⟩
  | array js =>
    obtain ⟨t, rfl, -⟩ := h
    exact ⟨hn, _, hr⟩
  | object ms =>
    obtain ⟨t, rfl, -⟩ := h
    exact ⟨hn, _, hr⟩

namespace Reader

variable {r r' r₁ r₂ : Reader}

/-! ## Inside containers -/

theorem BeforeItem.frames_ne (h : BeforeItem r) : r.frames ≠ [] := by
  intro hf
  have ha := h.inArray
  simp [Reader.inArray, hf] at ha

theorem BeforeName.frames_ne (h : BeforeName r) : r.frames ≠ [] := by
  intro hf
  have hn := h.nameDue
  simp [Reader.nameDue, hf] at hn

/-- A name changes the innermost container only. -/
theorem BeforeName.named_length (h : BeforeName r) (frame : Frame) :
    (frame :: r.frames.drop 1).length = r.frames.length := by
  have := List.length_pos_iff.2 h.frames_ne
  simp only [List.length_cons, List.length_drop]
  omega

/-- Before an item or a name, no value of a member is due. -/
theorem ne_memberValue_of {d : Due} (h : d = .first ∨ d = .further) : d ≠ .memberValue := by
  rintro rfl
  obtain h | h := h <;> cases h

/-- Before an item or a name, something is due. -/
theorem ne_nothing_of {d : Due} (h : d = .first ∨ d = .further) : d ≠ .nothing := by
  rintro rfl
  obtain h | h := h <;> cases h

/-- Before an item, a value may stand. -/
theorem BeforeItem.valueDue (h : BeforeItem r) : r.ValueDue := by
  have ha := h.inArray
  unfold Reader.inArray at ha
  split at ha
  · next hf =>
    rw [ValueDue, hf]
    obtain hd | hd := h.due <;> rw [hd] <;> trivial
  · cases ha

/-- A token of a value that was looked at makes a place of a value. -/
theorem AtValue.of_seen {m : Mark} (hd : r.ValueDue) (hm : r.Starts m) (hne : m ≠ .close) :
    AtValue (r.seen m) := by
  refine ⟨hd, ?_, ?_⟩
  · rintro _ ⟨⟩
    exact starts_seen.2 hm
  · intro r' hl
    rw [look_of_looked rfl] at hl
    injection hl with hclose
    exact hne hclose

/-- What a reader finds between the items of an array: one more item, or the end. -/
theorem BeforeItem.more_sound {b : Bool} (h : BeforeItem r) (hm : more r = .ok b r₁) :
    ∃ lead rest, r.rest = lead ++ rest ∧
      if b then Lead r.due lead ∧ AtValue r₁ ∧ ∃ p m, r₁ = (r.movedTo rest p).seen m
      else ∃ tail, rest = ']' :: tail ∧ IsBlank lead ∧ AtEnd r r₁ ']' tail ∧ r₁.inArray = true := by
  have hd := ne_memberValue_of h.due
  obtain ⟨m, hl, rfl⟩ := (more_eq_ok_iff h.frames_ne hd).1 hm
  obtain ⟨lead, rest, p, hr, hlead, rfl, hs⟩ :=
    look_sound h.looked (ne_nothing_of h.due) (fun hd' => absurd hd' hd) hl
  have hs := starts_seen.1 hs
  refine ⟨lead, rest, hr, ?_⟩
  by_cases hclose : m = .close
  · subst hclose
    simp only [ne_eq, not_true_eq_false, decide_false, Bool.false_eq_true, if_false]
    obtain ⟨-, tail, rfl⟩ | ⟨hname, -⟩ := hs
    · exact ⟨tail, rfl, hlead.2, ⟨rfl, rfl, rfl, rfl⟩, h.inArray⟩
    -- no brace ends an array
    · rw [movedTo_nameDue, nameDue_of_inArray h.inArray] at hname
      cases hname
  · simp only [ne_eq, hclose, not_false_eq_true, decide_true, if_true]
    exact ⟨hlead.of_ne_close hclose, .of_seen h.valueDue hs hclose, p, m, rfl⟩

/-- What a reader finds between the members of an object: one more name, or the end. -/
theorem BeforeName.more_sound {b : Bool} (h : BeforeName r) (hm : more r = .ok b r₁) :
    ∃ lead rest, r.rest = lead ++ rest ∧
      if b then Lead r.due lead ∧ ∃ p tail, rest = '"' :: tail ∧ r₁ = (r.movedTo rest p).seen .name
      else ∃ tail, rest = '\x7d' :: tail ∧ IsBlank lead ∧ AtEnd r r₁ '\x7d' tail ∧
        r₁.nameDue = true := by
  have hd := ne_memberValue_of h.due
  obtain ⟨m, hl, rfl⟩ := (more_eq_ok_iff h.frames_ne hd).1 hm
  obtain ⟨lead, rest, p, hr, hlead, rfl, hs⟩ :=
    look_sound h.looked (ne_nothing_of h.due) (fun hd' => absurd hd' hd) hl
  have hs := starts_seen.1 hs
  refine ⟨lead, rest, hr, ?_⟩
  -- no token of a value stands where a name is due
  have hvalue {P : Prop} (hn : (r.movedTo rest p).nameDue = false) : P := by
    rw [movedTo_nameDue, h.nameDue] at hn
    cases hn
  cases m with
  | close =>
    simp only [ne_eq, not_true_eq_false, decide_false, Bool.false_eq_true, if_false]
    obtain ⟨ha, -⟩ | ⟨-, tail, rfl⟩ := hs
    · exact hvalue (nameDue_of_inArray ha)
    · exact ⟨tail, rfl, hlead.2, ⟨rfl, rfl, rfl, rfl⟩, h.nameDue⟩
  | name =>
    obtain ⟨-, tail, rfl⟩ := hs
    exact ⟨hlead, p, tail, rfl, rfl⟩
  | null | bool | number | string | openArray | openObject => exact hvalue hs.1

/-- There is one more item where a value starts. -/
theorem BeforeItem.more_true {m : Mark} {lead rest : List Char} (h : BeforeItem r)
    (hr : r.rest = lead ++ rest) (hlead : Lead r.due lead)
    (hm : (r.movedTo rest r.position).Starts m) (hne : m ≠ .close) :
    ∃ p, more r = .ok true ((r.movedTo rest p).seen m) := by
  obtain ⟨p, hp⟩ := look_complete h.looked hr (Lead.leads hlead hne) fun p => starts_movedTo.1 hm
  refine ⟨p, (more_eq_ok_iff h.frames_ne (ne_memberValue_of h.due)).2 ⟨m, hp, ?_⟩⟩
  simp [hne]

/-- There are no more items at the closing bracket. -/
theorem BeforeItem.more_false {lead rest : List Char} (h : BeforeItem r)
    (hr : r.rest = lead ++ ']' :: rest) (hlead : IsBlank lead) :
    ∃ r₁, more r = .ok false r₁ ∧ AtEnd r r₁ ']' rest ∧ r₁.inArray = true := by
  have hd := ne_memberValue_of h.due
  obtain ⟨p, hp⟩ := look_complete (m := .close) h.looked hr ⟨hd, hlead⟩
    fun p => .inl ⟨h.inArray, rest, rfl⟩
  exact ⟨_, (more_eq_ok_iff h.frames_ne hd).2 ⟨_, hp, by simp⟩, ⟨rfl, rfl, rfl, rfl⟩, h.inArray⟩

/-- There is one more member where a name starts. -/
theorem BeforeName.more_true {lead rest : List Char} (h : BeforeName r)
    (hr : r.rest = lead ++ '"' :: rest) (hlead : Lead r.due lead) :
    ∃ p, more r = .ok true ((r.movedTo ('"' :: rest) p).seen .name) := by
  obtain ⟨p, hp⟩ := look_complete (m := .name) h.looked hr hlead fun p => ⟨h.nameDue, rest, rfl⟩
  exact ⟨p, (more_eq_ok_iff h.frames_ne (ne_memberValue_of h.due)).2 ⟨_, hp, by simp⟩⟩

/-- There are no more members at the closing brace. -/
theorem BeforeName.more_false {lead rest : List Char} (h : BeforeName r)
    (hr : r.rest = lead ++ '\x7d' :: rest) (hlead : IsBlank lead) :
    ∃ r₁, more r = .ok false r₁ ∧ AtEnd r r₁ '\x7d' rest ∧ r₁.nameDue = true := by
  have hd := ne_memberValue_of h.due
  obtain ⟨p, hp⟩ := look_complete (m := .close) h.looked hr ⟨hd, hlead⟩
    fun p => .inr ⟨h.nameDue, rest, rfl⟩
  exact ⟨_, (more_eq_ok_iff h.frames_ne hd).2 ⟨_, hp, by simp⟩, ⟨rfl, rfl, rfl, rfl⟩, h.nameDue⟩

/-- The reader behind the name of a member. -/
def named (r : Reader) (s : String) (rest : List Char) (p : Position) : Reader :=
  { r.movedTo rest p with
    frames := .object (some s) :: r.frames.drop 1
    due := .memberValue
    looked := none }

theorem named_atValue (r : Reader) (s : String) (rest : List Char) (p : Position) :
    AtValue (r.named s rest p) := by
  -- behind a name the container does not end
  refine ⟨trivial, nofun, fun r' hl => ?_⟩
  obtain ⟨lead, rest, p, -, hlead, -⟩ := look_sound rfl (by simp [named]) (fun _ => rfl) hl
  exact hlead.1 rfl

/-- A name that was seen is passed, and noted in the path. -/
theorem name_eq (h : r.nameDue = true) (hl : r.looked = some .name) : name r = (do
    let s ← passText
    modify fun r => { r with
      frames := .object (some s) :: r.frames.drop 1
      due := .memberValue }
    return s : ReadM String) r := by
  simp only [name, get_bind_run, h, Bool.not_true, Bool.false_eq_true, if_false,
    bind_of_ok (look_of_looked hl)]
  rfl

/-- The text of a name spells the name. -/
theorem name_sound {s : String} (h : r.nameDue = true) (hl : r.looked = some .name)
    (hr : name r = .ok s r') : ∃ text rest p, r.rest.drop 1 = text ++ '"' :: rest ∧
      SpellsText s.toList text ∧ r' = r.named s rest p := by
  rw [name_eq h hl] at hr
  simp only [bind_eq_ok, modify_bind_run, pure_run] at hr
  obtain ⟨s', r₁, hpass, hr⟩ := hr
  cases hr
  obtain ⟨text, rest, p, hrest, ht, rfl⟩ := passText_sound hpass
  exact ⟨text, rest, p, hrest, ht, rfl⟩

/-- A text that spells a name is passed as the name. -/
theorem name_complete {s : String} {text rest : List Char} (h : r.nameDue = true)
    (hl : r.looked = some .name) (hr : r.rest.drop 1 = text ++ '"' :: rest)
    (ht : SpellsText s.toList text) : ∃ p, name r = .ok s (r.named s rest p) := by
  obtain ⟨p, hp⟩ := passText_complete _ hr ht
  refine ⟨p, ?_⟩
  rw [name_eq h hl, bind_of_ok hp]
  rfl

/-! ## What was passed is in the grammar -/

/-- From one reader to the other, the text of one value was passed, with what leads up to it. -/
def Passed (j : Tree) (r r' : Reader) : Prop :=
  ∃ lead text rest p, r.rest = lead ++ (text ++ rest) ∧ r.LeadIn lead ∧ Spells j text ∧
    j.EndsBefore r.ending rest ∧ r' = (r.movedTo rest p).valueDone

/-- A step for a kind passes a lead and goes on from the token. -/
theorem AtValue.step_sound {α : Type} {k : Kind} {f : Mark → ReadM α} {a : α} (h : AtValue r)
    (hs : (lookKind k >>= f) r = .ok a r') : ∃ m lead rest p, r.rest = lead ++ rest ∧
      r.LeadIn lead ∧ (r.movedTo rest p).Starts m ∧ Mark.kind m = k ∧ m ≠ .close ∧ m ≠ .name ∧
      f m ((r.movedTo rest p).seen m) = .ok a r' := by
  obtain ⟨m, r₁, hl, hf⟩ := bind_eq_ok.1 hs
  obtain ⟨hl, hk⟩ := h.lookKind_eq_ok_iff.1 hl
  obtain ⟨lead, rest, p, hr, hlead, rfl, hm⟩ := h.look_sound hl
  exact ⟨m, lead, rest, p, hr, hlead, hm, hk, (h.look_ne hl).1, (h.look_ne hl).2, hf⟩

/-- Where `null` is read, it stands. -/
theorem AtValue.null_sound (h : AtValue r) (hs : null r = .ok () r') : Passed .null r r' := by
  obtain ⟨m, lead, rest, p, hr, hlead, hm, hk, hclose, -, hf⟩ := h.step_sound hs
  obtain rfl : m = .null := by cases m <;> simp [Mark.kind] at hk hclose ⊢
  obtain ⟨-, tail, rfl, hstops⟩ := hm
  rw [passLiteral_of_word (r := (r.movedTo _ p).seen .null) rfl] at hf
  cases hf
  exact ⟨lead, _, tail, _, hr, hlead, rfl, hstops, valueDone_seen⟩

/-- A truth value that is read stands there. -/
theorem AtValue.bool_sound {b : Bool} (h : AtValue r) (hs : bool r = .ok b r') :
    Passed (.bool b) r r' := by
  obtain ⟨m, lead, rest, p, hr, hlead, hm, hk, -, -, hf⟩ := h.step_sound hs
  obtain ⟨c, rfl⟩ : ∃ c, m = .bool c := by cases m <;> simp [Mark.kind] at hk ⊢
  obtain ⟨-, tail, rfl, hstops⟩ := hm
  rw [bind_of_ok (passLiteral_of_word (r := (r.movedTo _ p).seen (.bool c)) rfl)] at hf
  cases hf
  cases c
  · exact ⟨lead, _, tail, _, hr, hlead, rfl, hstops, valueDone_seen⟩
  · exact ⟨lead, _, tail, _, hr, hlead, rfl, hstops, valueDone_seen⟩

/-- A number that is read stands there. -/
theorem AtValue.numeral_sound {text : String} (h : AtValue r) (hs : numeral r = .ok text r') :
    Passed (.number text) r r' := by
  obtain ⟨m, lead, rest, p, hr, hlead, -, -, -, -, hf⟩ := h.step_sound hs
  obtain ⟨tail, htail, hn, hstops, -, rfl⟩ := passNumber_eq_ok_iff.1 hf
  obtain rfl : rest = text.toList ++ tail := htail
  exact ⟨lead, _, tail, _, hr, hlead, ⟨rfl, hn⟩, hstops, valueDone_seen⟩

/-- A string that is read is spelled there. -/
theorem AtValue.string_sound {s : String} (h : AtValue r) (hs : string r = .ok s r') :
    Passed (.string s) r r' := by
  obtain ⟨m, lead, rest, p, hr, hlead, hm, hk, -, hname, hf⟩ := h.step_sound hs
  obtain rfl : m = .string := by cases m <;> simp [Mark.kind] at hk hname ⊢
  obtain ⟨-, tail, rfl⟩ := hm
  obtain ⟨s', r₁, hpass, hf⟩ := bind_eq_ok.1 hf
  cases hf
  obtain ⟨text, rest, q, htail, ht, rfl⟩ := passText_sound hpass
  obtain rfl : tail = text ++ '"' :: rest := htail
  refine ⟨lead, '"' :: (text ++ ['"']), rest, q, ?_, hlead, ⟨text, rfl, ht⟩, trivial, ?_⟩
  · rw [hr]
    simp
  · exact valueDone_congr rfl rfl rfl rfl

/-- An array that is entered starts there, not deeper than is allowed. -/
theorem AtValue.enterArray_sound (h : AtValue r) (hs : enterArray r = .ok () r₁) :
    ∃ lead rest p, r.rest = lead ++ '[' :: rest ∧ r.LeadIn lead ∧ r.frames.length < maxDepth ∧
      r₁ = r.opened (.array 0) rest p := by
  obtain ⟨m, lead, rest, p, hr, hlead, hm, hk, -, -, hf⟩ := h.step_sound hs
  obtain rfl : m = .openArray := by cases m <;> simp [Mark.kind] at hk ⊢
  obtain ⟨-, tail, rfl⟩ := hm
  obtain ⟨hd, rfl⟩ := (enter_eq_ok_iff rfl).1 hf
  exact ⟨lead, tail, _, hr, hlead, hd, rfl⟩

/-- An object that is entered starts there, not deeper than is allowed. -/
theorem AtValue.enterObject_sound (h : AtValue r) (hs : enterObject r = .ok () r₁) :
    ∃ lead rest p, r.rest = lead ++ '\x7b' :: rest ∧ r.LeadIn lead ∧ r.frames.length < maxDepth ∧
      r₁ = r.opened (.object none) rest p := by
  obtain ⟨m, lead, rest, p, hr, hlead, hm, hk, -, -, hf⟩ := h.step_sound hs
  obtain rfl : m = .openObject := by cases m <;> simp [Mark.kind] at hk ⊢
  obtain ⟨-, tail, rfl⟩ := hm
  obtain ⟨hd, rfl⟩ := (enter_eq_ok_iff rfl).1 hf
  exact ⟨lead, tail, _, hr, hlead, hd, rfl⟩

/-- Behind an opening bracket, the first item is due. -/
theorem opened_beforeItem (r : Reader) (rest : List Char) (p : Position) :
    BeforeItem (r.opened (.array 0) rest p) :=
  ⟨rfl, .inl rfl, rfl⟩

/-- Behind an opening brace, the first name is due. -/
theorem opened_beforeName (r : Reader) (rest : List Char) (p : Position) :
    BeforeName (r.opened (.object none) rest p) :=
  ⟨rfl, .inl rfl, rfl⟩

/-- Behind an item, the reader stands between items. -/
theorem valueDone_beforeItem (h : r.inArray = true) :
    BeforeItem r.valueDone ∧ r.valueDone.due = .further ∧
      r.valueDone.frames.drop 1 = r.frames.drop 1 ∧
      r.valueDone.frames.length = r.frames.length := by
  unfold Reader.inArray at h
  split at h
  · next hf =>
    have hv : r.valueDone.frames.drop 1 = r.frames.drop 1 ∧
        r.valueDone.frames.length = r.frames.length := by
      simp [valueDone, hf]
    have ha : r.inArray = true := by simp [Reader.inArray, hf]
    obtain ⟨ha, hd⟩ := valueDone_inArray ha
    exact ⟨⟨ha, .inr hd, valueDone_looked⟩, hd, hv⟩
  · cases h

/-- Behind the value of a member, the reader stands between members. -/
theorem valueDone_beforeName {n : Option String} {fs : List Frame}
    (h : r.frames = .object n :: fs) : BeforeName r.valueDone ∧ r.valueDone.due = .further ∧
      r.valueDone.frames = r.frames := by
  have hf : r.valueDone.frames = r.frames ∧ r.valueDone.due = .further := by
    simp [valueDone, h]
  refine ⟨⟨?_, .inr hf.2, valueDone_looked⟩, hf.2, hf.1⟩
  simp [Reader.nameDue, hf, h]

mutual

/-- What was passed spells the value, and no more containers were open than allowed. -/
theorem Passes.sound : ∀ {j : Tree} {r r' : Reader}, Passes j r r' → AtValue r →
    Passed j r r' ∧ j.depth ≤ maxDepth - r.frames.length
  | .null, _, _, h, hr => ⟨hr.null_sound h, Nat.zero_le _⟩
  | .bool _, _, _, h, hr => ⟨hr.bool_sound h, Nat.zero_le _⟩
  | .number _, _, _, h, hr => ⟨hr.numeral_sound h, Nat.zero_le _⟩
  | .string _, _, _, h, hr => ⟨hr.string_sound h, Nat.zero_le _⟩
  | .array js, r, r', ⟨r₁, r₂, henter, hitems, hleave⟩, hr => by
    obtain ⟨lead, start, p, hrest, hlead, hdepth, rfl⟩ := hr.enterArray_sound henter
    obtain ⟨items, rest, hstart, hjs, hd, hend, ha⟩ :=
      PassesItems.sound hitems (opened_beforeItem r start p)
    obtain ⟨q, hq⟩ := leave_of_atEnd hend
    obtain rfl : r' = (r.movedTo rest q).valueDone := by
      rw [leaveArray_eq ha, hq] at hleave
      cases hleave
      rfl
    obtain rfl : start = items ++ ']' :: rest := hstart
    refine ⟨⟨lead, _, rest, q, ?_, hlead, ⟨items, rfl, hjs⟩, trivial, rfl⟩, ?_⟩
    · rw [hrest]
      simp
    -- inside, the array is one of the containers that are open
    · simp only [opened, List.length_cons] at hd
      rw [Tree.depth]
      omega
  | .object ms, r, r', ⟨r₁, r₂, henter, hmembers, hleave⟩, hr => by
    obtain ⟨lead, start, p, hrest, hlead, hdepth, rfl⟩ := hr.enterObject_sound henter
    obtain ⟨members, rest, hstart, hms, hd, hend, hn⟩ :=
      PassesMembers.sound hmembers (opened_beforeName r start p)
    obtain ⟨q, hq⟩ := leave_of_atEnd hend
    obtain rfl : r' = (r.movedTo rest q).valueDone := by
      rw [leaveObject_eq hn, hq] at hleave
      cases hleave
      rfl
    obtain rfl : start = members ++ '\x7d' :: rest := hstart
    refine ⟨⟨lead, _, rest, q, ?_, hlead, ⟨members, rfl, hms⟩, trivial, rfl⟩, ?_⟩
    · rw [hrest]
      simp
    · simp only [opened, List.length_cons] at hd
      rw [Tree.depth]
      omega

/-- Items that are passed are spelled there, up to the closing bracket. -/
theorem PassesItems.sound : ∀ {js : List Tree} {r r' : Reader}, PassesItems js r r' →
    BeforeItem r → ∃ items rest, r.rest = items ++ ']' :: rest ∧ SpellsItems r.due js items ∧
      Tree.depthItems js ≤ maxDepth - r.frames.length ∧ AtEnd r r' ']' rest ∧ r'.inArray = true
  | [], _, _, h, hr => by
    obtain ⟨lead, rest, hrest, tail, rfl, hlead, hend⟩ := hr.more_sound h
    exact ⟨lead, tail, hrest, hlead, Nat.zero_le _, hend⟩
  | j :: js, r, r', ⟨r₁, r₂, hmore, hj, hjs⟩, hr => by
    obtain ⟨lead, start, hrest, hlead, hvalue, p, m, rfl⟩ := hr.more_sound hmore
    -- the token was looked at before, so that the item has no lead of its own
    obtain ⟨⟨_, text, rest, q, hstart, rfl, htext, -, rfl⟩, hd⟩ := Passes.sound hj hvalue
    obtain rfl : start = text ++ rest := hstart
    obtain ⟨hitem, hdue, hframes, hlength⟩ :=
      valueDone_beforeItem (r := ((r.movedTo (text ++ rest) p).seen m).movedTo rest q) hr.inArray
    obtain ⟨items, tail, hitems, hspell, hds, hend, ha⟩ := PassesItems.sound hjs hitem
    obtain rfl : rest = items ++ ']' :: tail := by simpa using hitems
    rw [hdue] at hspell
    rw [hlength] at hds
    refine ⟨lead ++ (text ++ items), tail, ?_, ⟨lead, text, items, rfl, hlead, htext, hspell⟩,
      Nat.max_le.2 ⟨hd, hds⟩, ⟨hend.rest, ?_, hend.looked, hend.frames.trans hframes⟩, ha⟩
    · rw [hrest]
      simp
    · rw [hend.ending, valueDone_ending]
      rfl

/-- Members that are passed are spelled there, up to the closing brace. -/
theorem PassesMembers.sound : ∀ {ms : List (String × Tree)} {r r' : Reader},
    PassesMembers ms r r' → BeforeName r → ∃ members rest, r.rest = members ++ '\x7d' :: rest ∧
      SpellsMembers r.due ms members ∧ Tree.depthMembers ms ≤ maxDepth - r.frames.length ∧
      AtEnd r r' '\x7d' rest ∧ r'.nameDue = true
  | [], _, _, h, hr => by
    obtain ⟨lead, rest, hrest, tail, rfl, hlead, hend⟩ := hr.more_sound h
    exact ⟨lead, tail, hrest, hlead, Nat.zero_le _, hend⟩
  | (s, j) :: ms, r, r', ⟨r₁, r₂, r₃, hmore, hname, hj, hms⟩, hr => by
    obtain ⟨lead, _, hrest, hlead, p, start, rfl, rfl⟩ := hr.more_sound hmore
    obtain ⟨key, behind, q, hkey, hs, rfl⟩ :=
      name_sound (r := (r.movedTo ('"' :: start) p).seen .name) hr.nameDue rfl hname
    obtain rfl : start = key ++ '"' :: behind := hkey
    -- the lead of the value is the colon
    obtain ⟨⟨colon, text, rest, o, hbehind, hcolon, htext, -, rfl⟩, hd⟩ :=
      Passes.sound hj (named_atValue _ _ _ _)
    obtain rfl : behind = colon ++ (text ++ rest) := hbehind
    obtain ⟨hbefore, hdue, hframes⟩ := valueDone_beforeName
      (r := ((((r.movedTo _ p).seen .name).named s _ q).movedTo rest o)) rfl
    obtain ⟨members, tail, hmembers, hspell, hds, hend, hn⟩ := PassesMembers.sound hms hbefore
    obtain rfl : rest = members ++ '\x7d' :: tail := by simpa using hmembers
    have hlength := hr.named_length (.object (some s))
    rw [hdue] at hspell
    rw [hframes] at hds
    refine ⟨lead ++ ('"' :: (key ++ ['"']) ++ (colon ++ (text ++ members))), tail, ?_,
      ⟨lead, _, colon, text, members, rfl, hlead, ⟨key, rfl, hs⟩, hcolon, htext, hspell⟩,
      Nat.max_le.2 ⟨?_, ?_⟩, ⟨hend.rest, ?_, hend.looked, ?_⟩, hn⟩
    · rw [hrest]
      simp
    · exact hlength ▸ hd
    · exact hlength ▸ hds
    · rw [hend.ending, valueDone_ending]
      rfl
    · rw [hend.frames, hframes]
      rfl

end

/-! ## What is in the grammar is passed -/

/-- A step for the kind of a value that is spelled goes on from its token. -/
theorem AtValue.step_complete {j : Tree} {lead text rest : List Char} (h : AtValue r)
    (hr : r.rest = lead ++ (text ++ rest)) (hlead : r.LeadIn lead) (ht : Spells j text)
    (he : j.EndsBefore r.ending rest) : ∃ p, ∀ {α : Type} (f : Mark → ReadM α),
      (lookKind j.kind >>= f) r = f j.mark ((r.movedTo (text ++ rest) p).seen j.mark) := by
  obtain ⟨p, hp⟩ := h.look_complete hr hlead
    (ht.starts (r := r.movedTo (text ++ rest) r.position) h.due.nameDue rfl he) j.mark_ne_close
  exact ⟨p, fun f => bind_of_ok (h.lookKind_eq_ok_iff.2 ⟨hp, j.kind_mark⟩)⟩

section Scalars

variable {lead text rest : List Char}

/-- A `null` that is spelled is passed. -/
theorem AtValue.null_complete (h : AtValue r) (hr : r.rest = lead ++ (text ++ rest))
    (hlead : r.LeadIn lead) (ht : Spells .null text) (he : Tree.null.EndsBefore r.ending rest) :
    ∃ p, Passes .null r (r.movedTo rest p).valueDone := by
  obtain ⟨p, hp⟩ := h.step_complete hr hlead ht he
  obtain rfl : text = word .null := ht
  exact ⟨_, (hp passLiteral).trans (passLiteral_of_word rfl)⟩

/-- A boolean that is spelled is passed. -/
theorem AtValue.bool_complete {b : Bool} (h : AtValue r) (hr : r.rest = lead ++ (text ++ rest))
    (hlead : r.LeadIn lead) (ht : Spells (.bool b) text)
    (he : (Tree.bool b).EndsBefore r.ending rest) :
    ∃ p, Passes (.bool b) r (r.movedTo rest p).valueDone := by
  obtain ⟨p, hp⟩ := h.step_complete hr hlead ht he
  obtain rfl : text = word (.bool b) := by cases b <;> exact ht
  have hpass := (hp fun m => do passLiteral m; return (m = .bool true : Bool)).trans
    (bind_of_ok (passLiteral_of_word rfl))
  cases b <;> exact ⟨_, hpass⟩

/-- A number that is spelled is passed, where it may end. -/
theorem AtValue.number_complete {s : String} (h : AtValue r) (hr : r.rest = lead ++ (text ++ rest))
    (hlead : r.LeadIn lead) (ht : Spells (.number s) text)
    (he : (Tree.number s).EndsBefore r.ending rest) :
    ∃ p, Passes (.number s) r (r.movedTo rest p).valueDone := by
  obtain ⟨p, hp⟩ := h.step_complete hr hlead ht he
  obtain ⟨rfl, hn⟩ := ht
  exact ⟨_, (hp fun _ => passNumber false).trans
    (passNumber_eq_ok_iff.2 ⟨rest, rfl, hn, he, nofun, rfl⟩)⟩

/-- A string that is spelled is passed. -/
theorem AtValue.string_complete {s : String} (h : AtValue r) (hr : r.rest = lead ++ (text ++ rest))
    (hlead : r.LeadIn lead) (ht : Spells (.string s) text)
    (he : (Tree.string s).EndsBefore r.ending rest) :
    ∃ p, Passes (.string s) r (r.movedTo rest p).valueDone := by
  obtain ⟨p, hp⟩ := h.step_complete hr hlead ht he
  obtain ⟨inner, rfl, ht⟩ := ht
  -- The quote that starts the string was only looked at.
  obtain ⟨q, hq⟩ := passText_complete rest
    (r := (r.movedTo (('"' :: (inner ++ ['"'])) ++ rest) p).seen .string) (by simp [seen]) ht
  exact ⟨q, (hp fun _ => do let s ← passText; modify valueDone; return s).trans
    ((bind_of_ok hq).trans rfl)⟩

end Scalars

/-- An array or object is entered at the bracket that was looked at. -/
theorem enter_seen {frame : Frame} {m : Mark} {c : Char} {text rest : List Char} (p : Position)
    (htext : text = c :: rest) (hd : r.frames.length < maxDepth) :
    enter frame ((r.movedTo text p).seen m) = .ok () (r.opened frame rest (p.past c)) :=
  (enter_eq_ok_iff htext).2 ⟨hd, rfl⟩

mutual

/-- What spells a value is passed, when no more containers are open than allowed. -/
theorem passes_complete : ∀ {j : Tree} {r : Reader} (lead : List Char) {text rest : List Char},
    AtValue r →
    r.rest = lead ++ (text ++ rest) → r.LeadIn lead → Spells j text →
    j.EndsBefore r.ending rest → j.depth ≤ maxDepth - r.frames.length →
    ∃ p, Passes j r (r.movedTo rest p).valueDone
  | .null, _, _, _, _, h, hr, hlead, ht, he, _ => h.null_complete hr hlead ht he
  | .bool _, _, _, _, _, h, hr, hlead, ht, he, _ => h.bool_complete hr hlead ht he
  | .number _, _, _, _, _, h, hr, hlead, ht, he, _ => h.number_complete hr hlead ht he
  | .string _, _, _, _, _, h, hr, hlead, ht, he, _ => h.string_complete hr hlead ht he
  | .array js, r, lead, cs, rest, h, hr, hlead, ht, he, hd => by
    obtain ⟨p, hp⟩ := h.step_complete hr hlead ht he
    obtain ⟨items, rfl, hjs⟩ := ht
    rw [Tree.depth] at hd
    -- The array is one level deeper, so that its items may be one less deep.
    obtain ⟨r₂, hitems, hend, ha⟩ := passesItems_complete rest
      (opened_beforeItem r (items ++ ']' :: rest) (p.past '[')) rfl hjs
      (by simp only [opened, List.length_cons]; omega)
    obtain ⟨q, hq⟩ := leave_of_atEnd hend
    rw [← leaveArray_eq ha] at hq
    have htext : '[' :: (items ++ [']']) ++ rest = '[' :: (items ++ ']' :: rest) := by simp
    have henter := (hp fun _ => enter (.array 0)).trans (enter_seen p htext (by omega))
    exact ⟨q, _, r₂, henter, hitems, hq⟩
  | .object ms, r, lead, cs, rest, h, hr, hlead, ht, he, hd => by
    obtain ⟨p, hp⟩ := h.step_complete hr hlead ht he
    obtain ⟨members, rfl, hms⟩ := ht
    rw [Tree.depth] at hd
    obtain ⟨r₂, hmembers, hend, hn⟩ := passesMembers_complete rest
      (opened_beforeName r (members ++ '\x7d' :: rest) (p.past '\x7b')) rfl hms
      (by simp only [opened, List.length_cons]; omega)
    obtain ⟨q, hq⟩ := leave_of_atEnd hend
    rw [← leaveObject_eq hn] at hq
    have htext :
        '\x7b' :: (members ++ ['\x7d']) ++ rest = '\x7b' :: (members ++ '\x7d' :: rest) := by simp
    have henter := (hp fun _ => enter (.object none)).trans (enter_seen p htext (by omega))
    exact ⟨q, _, r₂, henter, hmembers, hq⟩

/-- Spelled items are passed, up to the closing bracket. -/
theorem passesItems_complete : ∀ {js : List Tree} {r : Reader} {items : List Char}
    (rest : List Char), BeforeItem r → r.rest = items ++ ']' :: rest → SpellsItems r.due js items →
    Tree.depthItems js ≤ maxDepth - r.frames.length →
    ∃ r', PassesItems js r r' ∧ AtEnd r r' ']' rest ∧ r'.inArray = true
  | [], r, items, rest, h, hr, hs, hd => h.more_false hr hs
  | j :: js, r, _, rest, h, hr, hs, hd => by
    obtain ⟨lead, text, items, rfl, hlead, ht, hs⟩ := hs
    obtain ⟨hdj, hdjs⟩ := Nat.max_le.1 hd
    have hr : r.rest = lead ++ (text ++ (items ++ ']' :: rest)) := by simpa using hr
    -- what follows an item ends it, be it a number or a literal
    have hends : j.EndsBefore r.ending (items ++ ']' :: rest) := .of_stops hs.stops j
    have hstart : (r.movedTo (text ++ (items ++ ']' :: rest)) r.position).Starts j.mark :=
      ht.starts (nameDue_of_inArray h.inArray) rfl hends
    obtain ⟨p, hp⟩ := h.more_true hr hlead hstart j.mark_ne_close
    obtain ⟨q, hq⟩ := passes_complete []
      (.of_seen (r := r.movedTo _ p) h.valueDue (starts_movedTo.1 hstart) j.mark_ne_close)
      rfl rfl ht hends hdj
    obtain ⟨hitem, hdue, hframes, hlength⟩ := valueDone_beforeItem
      (r := ((r.movedTo _ p).seen j.mark).movedTo (items ++ ']' :: rest) q) h.inArray
    obtain ⟨r', hjs, hend, ha⟩ := passesItems_complete rest hitem (by simp)
      (hdue ▸ hs) (hlength ▸ hdjs)
    refine ⟨r', ⟨_, _, hp, hq, hjs⟩, ⟨hend.rest, ?_, hend.looked, hend.frames.trans hframes⟩, ha⟩
    rw [hend.ending, valueDone_ending]
    rfl

/-- Spelled members are passed, up to the closing brace. -/
theorem passesMembers_complete : ∀ {ms : List (String × Tree)} {r : Reader}
    {members : List Char} (rest : List Char), BeforeName r → r.rest = members ++ '\x7d' :: rest →
    SpellsMembers r.due ms members → Tree.depthMembers ms ≤ maxDepth - r.frames.length →
    ∃ r', PassesMembers ms r r' ∧ AtEnd r r' '\x7d' rest ∧ r'.nameDue = true
  | [], r, members, rest, h, hr, hs, hd => h.more_false hr hs
  | (s, j) :: ms, r, _, rest, h, hr, hs, hd => by
    obtain ⟨lead, _, colon, text, members, rfl, hlead, ⟨key, rfl, hkey⟩, hcolon, ht, hs⟩ := hs
    obtain ⟨hdj, hdms⟩ := Nat.max_le.1 hd
    have hr : r.rest = lead ++ '"' :: (key ++ '"' ::
        (colon ++ (text ++ (members ++ '\x7d' :: rest)))) := by simpa using hr
    have hlength := h.named_length (.object (some s))
    -- three steps for a member: up to its name, over the name, and over the value
    obtain ⟨p, hp⟩ := h.more_true hr hlead
    obtain ⟨q, hq⟩ := name_complete (s := s) (r := (r.movedTo ('"' :: (key ++ '"' ::
      (colon ++ (text ++ (members ++ '\x7d' :: rest))))) p).seen .name) h.nameDue rfl rfl hkey
    obtain ⟨o, ho⟩ := passes_complete colon (named_atValue _ s _ q) rfl hcolon ht
      (.of_stops hs.stops j) (hlength.symm ▸ hdj)
    obtain ⟨hbefore, hdue, hframes⟩ := valueDone_beforeName
      (r := (r.named s (colon ++ (text ++ (members ++ '\x7d' :: rest))) q).movedTo
        (members ++ '\x7d' :: rest) o) rfl
    obtain ⟨r', hms, hend, hn⟩ := passesMembers_complete rest hbefore (by simp)
      (hdue ▸ hs) (by rw [hframes]; exact hlength.symm ▸ hdms)
    refine ⟨r', ⟨_, _, _, hp, hq, ho, hms⟩, ⟨hend.rest, ?_, hend.looked, ?_⟩, hn⟩
    · rw [hend.ending, valueDone_ending]
      rfl
    · rw [hend.frames, hframes]
      rfl

end

/-! ## Where a value leaves the reader -/

/-- Passing a value moves on. -/
theorem Passes.rest_lt {j : Tree} (h : Passes j r r') (hr : AtValue r) :
    r'.rest.length < r.rest.length := by
  obtain ⟨⟨lead, text, rest, p, hrest, -, ht, -, rfl⟩, -⟩ := h.sound hr
  have hpos := List.length_pos_iff.2 ht.ne_nil
  rw [hrest, valueDone_rest, movedTo_rest, List.length_append, List.length_append]
  omega

/-- Behind an item, the reader stands between items of the same array. -/
theorem Passes.beforeItem {j : Tree} (h : Passes j r r') (hr : AtValue r)
    (ha : r.inArray = true) : BeforeItem r' ∧ r'.frames.length = r.frames.length := by
  obtain ⟨⟨lead, text, rest, p, -, -, -, -, rfl⟩, -⟩ := h.sound hr
  obtain ⟨hb, -, -, hlength⟩ := valueDone_beforeItem (r := r.movedTo rest p) ha
  exact ⟨hb, hlength⟩

/-- Behind the value of a member, the reader stands between members of the same object. -/
theorem Passes.beforeName {j : Tree} {n : Option String} {fs : List Frame} (h : Passes j r r')
    (hr : AtValue r) (hf : r.frames = .object n :: fs) :
    BeforeName r' ∧ r'.frames = r.frames := by
  obtain ⟨⟨lead, text, rest, p, -, -, -, -, rfl⟩, -⟩ := h.sound hr
  obtain ⟨hb, -, hframes⟩ := valueDone_beforeName (r := r.movedTo rest p) hf
  exact ⟨hb, hframes⟩

/-- Behind its last item, an array can be left. -/
theorem PassesItems.leaveArray {js : List Tree} (h : PassesItems js r r') (hb : BeforeItem r) :
    ∃ r'', Reader.leaveArray r' = .ok () r'' := by
  obtain ⟨items, rest, -, -, -, hend, ha⟩ := h.sound hb
  exact ⟨_, (leaveArray_eq ha).trans (leave_of_close hend.rest hend.looked)⟩

/-- Behind its last member, an object can be left. -/
theorem PassesMembers.leaveObject {ms : List (String × Tree)} (h : PassesMembers ms r r')
    (hb : BeforeName r) : ∃ r'', Reader.leaveObject r' = .ok () r'' := by
  obtain ⟨members, rest, -, -, -, hend, hn⟩ := h.sound hb
  exact ⟨_, (leaveObject_eq hn).trans (leave_of_close hend.rest hend.looked)⟩

end Reader

end JsonAdapters.Json
