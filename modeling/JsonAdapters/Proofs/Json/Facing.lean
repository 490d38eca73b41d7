import JsonAdapters.Proofs.Json.Document

/-!
# What a reader faces

A reader may stop within a value that the grammar knows, because containers are nested too deep or
because a number is too long. What it finds up to there is determined by the text that it faces: its
steps show this value and no other, and whatever it passes is this value.

## Main definitions

* `Json.Reader.Faces`: the text of a value comes next; `Json.Reader.FacesItems` and
  `Json.Reader.FacesMembers`: the rest of a container.

## Main statements

* `Json.Reader.Passes.of_faces`: no other value is passed than the one that is faced.
* `Json.Reader.faces_ofSource`: a reader at the start of a document faces its value.
* `Json.IsDocument.eq_of_depth`: a document that is not too deep is one of no other tree.

## Design notes

`Json.Reader.passes_complete` says more of a value that is faced, namely that it is passed, and it
asks for more. Here nothing is asked of the value, and nothing is said of how far the reader comes.
-/

namespace JsonAdapters.Json

namespace Reader

open Outcome

variable {r r' r₁ r₂ : Reader} {j k : Tree} {js ks : List Tree} {ms ns : List (String × Tree)}
  {rest : List Char}

/-- The text of the value comes next, and this is what follows it. -/
def Faces (r : Reader) (j : Tree) (rest : List Char) : Prop :=
  ∃ lead text, r.rest = lead ++ (text ++ rest) ∧ r.LeadIn lead ∧ Spells j text ∧
    j.EndsBefore r.ending rest

/-- The text of the items comes next, up to the end of the array. -/
def FacesItems (r : Reader) (js : List Tree) (rest : List Char) : Prop :=
  ∃ items, r.rest = items ++ ']' :: rest ∧ SpellsItems r.due js items

/-- The text of the members comes next, up to the end of the object. -/
def FacesMembers (r : Reader) (ms : List (String × Tree)) (rest : List Char) : Prop :=
  ∃ members, r.rest = members ++ '\x7d' :: rest ∧ SpellsMembers r.due ms members

/-! ## Steps -/

/-- A look shows the token of the value that is faced, and the reader faces it still. -/
theorem AtValue.look_faces {m : Mark} (h : AtValue r) (hf : r.Faces j rest)
    (hl : look r = .ok m r₁) : m = j.mark ∧ ∃ text p, Spells j text ∧
      r₁ = (r.movedTo (text ++ rest) p).seen m ∧ r₁.Faces j rest := by
  obtain ⟨lead, text, hr, hlead, ht, he⟩ := hf
  obtain ⟨p, hp⟩ := h.look_complete hr hlead
    (ht.starts (r := r.movedTo (text ++ rest) r.position) h.due.nameDue rfl he) j.mark_ne_close
  cases hl.symm.trans hp
  exact ⟨rfl, text, p, ht, rfl, [], text, rfl, rfl, ht, he⟩

/-- A peek shows the kind of the value that is faced. -/
theorem AtValue.peek_faces {kind : Kind} (h : AtValue r) (hf : r.Faces j rest)
    (hp : peek r = .ok kind r₁) : kind = j.kind ∧ r₁.Faces j rest := by
  obtain ⟨m, hl, rfl⟩ := h.peek_eq_ok_iff.1 hp
  obtain ⟨rfl, -, -, -, -, hf₁⟩ := h.look_faces hf hl
  exact ⟨j.kind_mark, hf₁⟩

/-- Inside an array that was entered, the reader faces its items. -/
theorem AtValue.enterArray_faces (h : AtValue r) (hf : r.Faces j rest)
    (henter : enterArray r = .ok () r₁) :
    ∃ js, j = .array js ∧ BeforeItem r₁ ∧ r₁.FacesItems js rest := by
  obtain ⟨m, r₀, hl, henter⟩ := bind_eq_ok.1 henter
  obtain ⟨hl, hk⟩ := h.lookKind_eq_ok_iff.1 hl
  obtain ⟨rfl, text, p, ht, rfl, -⟩ := h.look_faces hf hl
  obtain ⟨js, rfl⟩ := Tree.kind_eq_iff.1 (j.kind_mark.symm.trans hk)
  obtain ⟨items, rfl, hitems⟩ := ht
  obtain ⟨-, rfl⟩ := (enter_eq_ok_iff rfl).1 henter
  exact ⟨js, rfl, opened_beforeItem _ _ _, items, by simp [opened], hitems⟩

/-- Inside an object that was entered, the reader faces its members. -/
theorem AtValue.enterObject_faces (h : AtValue r) (hf : r.Faces j rest)
    (henter : enterObject r = .ok () r₁) :
    ∃ ms, j = .object ms ∧ BeforeName r₁ ∧ r₁.FacesMembers ms rest := by
  obtain ⟨m, r₀, hl, henter⟩ := bind_eq_ok.1 henter
  obtain ⟨hl, hk⟩ := h.lookKind_eq_ok_iff.1 hl
  obtain ⟨rfl, text, p, ht, rfl, -⟩ := h.look_faces hf hl
  obtain ⟨ms, rfl⟩ := Tree.kind_eq_iff.1 (j.kind_mark.symm.trans hk)
  obtain ⟨members, rfl, hmembers⟩ := ht
  obtain ⟨-, rfl⟩ := (enter_eq_ok_iff rfl).1 henter
  exact ⟨ms, rfl, opened_beforeName _ _ _, members, by simp [opened], hmembers⟩

/-- Entering an array moves on. -/
theorem AtValue.enterArray_rest (h : AtValue r) (henter : enterArray r = .ok () r₁) :
    r₁.rest.length < r.rest.length := by
  obtain ⟨lead, rest, p, hrest, -, -, rfl⟩ := h.enterArray_sound henter
  simp only [hrest, opened, List.length_append, List.length_cons]
  omega

/-- Entering an object moves on. -/
theorem AtValue.enterObject_rest (h : AtValue r) (henter : enterObject r = .ok () r₁) :
    r₁.rest.length < r.rest.length := by
  obtain ⟨lead, rest, p, hrest, -, -, rfl⟩ := h.enterObject_sound henter
  simp only [hrest, opened, List.length_append, List.length_cons]
  omega

/-- Whether one more item is found shows in the items that are faced. -/
theorem BeforeItem.more_faces {b : Bool} (h : BeforeItem r) (hf : r.FacesItems js rest)
    (hm : more r = .ok b r₁) :
    match js with
    | [] => b = false ∧ AtEnd r r₁ ']' rest ∧ r₁.inArray = true
    | j :: js => b = true ∧ AtValue r₁ ∧ r₁.inArray = true ∧
      ∃ items, SpellsItems .further js items ∧ r₁.Faces j (items ++ ']' :: rest) := by
  obtain ⟨items, hr, hs⟩ := hf
  cases js with
  | nil =>
    obtain ⟨r₂, hmore, hend, harray⟩ := h.more_false hr hs
    cases hm.symm.trans hmore
    exact ⟨rfl, hend, harray⟩
  | cons j js =>
    obtain ⟨lead, text, items, rfl, hlead, ht, hs⟩ := hs
    have hr : r.rest = lead ++ (text ++ (items ++ ']' :: rest)) := by simpa using hr
    -- what follows an item ends words and numbers
    have hends : j.EndsBefore r.ending (items ++ ']' :: rest) := .of_stops hs.stops j
    have hstart : (r.movedTo (text ++ (items ++ ']' :: rest)) r.position).Starts j.mark :=
      ht.starts (nameDue_of_inArray h.inArray) rfl hends
    obtain ⟨p, hp⟩ := h.more_true hr hlead hstart j.mark_ne_close
    cases hm.symm.trans hp
    exact ⟨rfl, .of_seen (r := r.movedTo _ p) h.valueDue (starts_movedTo.1 hstart) j.mark_ne_close,
      h.inArray, items, hs, [], text, rfl, rfl, ht, hends⟩

/-- Whether one more member is found shows in the members that are faced. -/
theorem BeforeName.more_faces {b : Bool} (h : BeforeName r) (hf : r.FacesMembers ms rest)
    (hm : more r = .ok b r₁) :
    match ms with
    | [] => b = false ∧ AtEnd r r₁ '\x7d' rest ∧ r₁.nameDue = true
    | (key, j) :: ms => b = true ∧ ∀ key' r₂, name r₁ = .ok key' r₂ →
      key' = key ∧ AtValue r₂ ∧ (∃ n fs, r₂.frames = .object n :: fs) ∧
        ∃ members, SpellsMembers .further ms members ∧ r₂.Faces j (members ++ '\x7d' :: rest) := by
  obtain ⟨members, hr, hs⟩ := hf
  cases ms with
  | nil =>
    obtain ⟨r₂, hmore, hend, hdue⟩ := h.more_false hr hs
    cases hm.symm.trans hmore
    exact ⟨rfl, hend, hdue⟩
  | cons m ms =>
    obtain ⟨key, j⟩ := m
    obtain ⟨lead, _, colon, text, members, rfl, hlead, ⟨cs, rfl, hcs⟩, hcolon, ht, hs⟩ := hs
    have hr : r.rest = lead ++ '"' :: (cs ++ '"' ::
        (colon ++ (text ++ (members ++ '\x7d' :: rest)))) := by simpa using hr
    obtain ⟨p, hp⟩ := h.more_true hr hlead
    cases hm.symm.trans hp
    refine ⟨rfl, fun key' r₂ hname => ?_⟩
    -- the name is read as it is spelled
    obtain ⟨q, hq⟩ := name_complete (s := key) (r := (r.movedTo ('"' :: (cs ++ '"' ::
      (colon ++ (text ++ (members ++ '\x7d' :: rest))))) p).seen .name) h.nameDue rfl rfl hcs
    cases hname.symm.trans hq
    exact ⟨rfl, named_atValue _ _ _ _, ⟨_, _, rfl⟩, members, hs, colon, text, rfl, hcolon, ht,
      .of_stops hs.stops j⟩

/-- Looking for one more item leaves no more to read. -/
theorem BeforeItem.more_rest {b : Bool} (h : BeforeItem r) (hm : more r = .ok b r₁) :
    r₁.rest.length ≤ r.rest.length := by
  obtain ⟨lead, rest, hrest, hfound⟩ := h.more_sound hm
  cases b with
  | false =>
    obtain ⟨tail, rfl, -, hend, -⟩ := hfound
    rw [hend.rest, hrest, List.length_append]
    exact Nat.le_add_left ..
  | true =>
    obtain ⟨-, -, p, m, rfl⟩ := hfound
    simp [hrest, seen]

/-! ## Passing -/

/-- A value without parts that is faced is passed. -/
theorem AtValue.passes_faces (h : AtValue r) (hf : r.Faces j rest) (hd : j.depth = 0) :
    ∃ r', Passes j r r' ∧ r'.rest = rest := by
  obtain ⟨lead, text, hr, hlead, ht, he⟩ := hf
  obtain ⟨p, hp⟩ := passes_complete lead h hr hlead ht he (hd ▸ Nat.zero_le _)
  exact ⟨_, hp, by rw [valueDone_rest, movedTo_rest]⟩

/-- Behind an item, the reader faces the items that are left. -/
theorem Passes.facesItems {items : List Char} (h : Passes k r r') (hr : AtValue r)
    (ha : r.inArray = true) (hs : SpellsItems .further js items)
    (hrest : r'.rest = items ++ ']' :: rest) : BeforeItem r' ∧ r'.FacesItems js rest := by
  obtain ⟨⟨lead, text, tail, p, -, -, -, -, rfl⟩, -⟩ := h.sound hr
  obtain ⟨hb, hdue, -⟩ := valueDone_beforeItem (r := r.movedTo tail p) ha
  exact ⟨hb, items, hrest, hdue ▸ hs⟩

/-- Behind the value of a member, the reader faces the members that are left. -/
theorem Passes.facesMembers {members : List Char} (h : Passes k r r') (hr : AtValue r)
    (hframes : ∃ n fs, r.frames = .object n :: fs) (hs : SpellsMembers .further ms members)
    (hrest : r'.rest = members ++ '\x7d' :: rest) : BeforeName r' ∧ r'.FacesMembers ms rest := by
  obtain ⟨n, fs, hframes⟩ := hframes
  obtain ⟨⟨lead, text, tail, p, -, -, -, -, rfl⟩, -⟩ := h.sound hr
  obtain ⟨hb, hdue, -⟩ := valueDone_beforeName (r := r.movedTo tail p) hframes
  exact ⟨hb, members, hrest, hdue ▸ hs⟩

/-- A container is left at its end. -/
theorem leave_rest {c : Char} (hend : r.rest = c :: rest) (hl : r.looked = some .close)
    (h : leave r = .ok () r') : r'.rest = rest := by
  rw [leave_of_close hend hl] at h
  cases h
  exact valueDone_rest

mutual

/-- No other value is passed than the one that is faced, and what follows it is left. -/
theorem Passes.of_faces {r r' : Reader} {rest : List Char} : ∀ {j k : Tree}, Passes k r r' →
    AtValue r → r.Faces j rest → k = j ∧ r'.rest = rest
  | j, k, h, hr, hf => by
    -- the kind shows beforehand, so that both values are of the same kind
    obtain ⟨r₁, hp⟩ := h.peek
    have hk := (hr.peek_faces hf hp).1
    cases k <;> cases j <;> simp only [Tree.kind, reduceCtorEq] at hk
    case null.null | bool.bool | number.number | string.string =>
      obtain ⟨r₂, hj, hrest⟩ := hr.passes_faces hf rfl
      obtain ⟨hkj, rfl⟩ := h.unique hj
      exact ⟨hkj, hrest⟩
    case array.array =>
      obtain ⟨r₁, r₂, henter, hks, hleave⟩ := h
      obtain ⟨js, hjs, hb, hf⟩ := hr.enterArray_faces hf henter
      obtain ⟨rfl, hend, hl, ha⟩ := PassesItems.of_faces hks hb hf
      exact ⟨hjs.symm, leave_rest hend hl ((leaveArray_eq ha).symm.trans hleave)⟩
    case object.object =>
      obtain ⟨r₁, r₂, henter, hns, hleave⟩ := h
      obtain ⟨ms, hms, hb, hf⟩ := hr.enterObject_faces hf henter
      obtain ⟨rfl, hend, hl, hn⟩ := PassesMembers.of_faces hns hb hf
      exact ⟨hms.symm, leave_rest hend hl ((leaveObject_eq hn).symm.trans hleave)⟩

theorem PassesItems.of_faces {r r' : Reader} {rest : List Char} : ∀ {js ks : List Tree},
    PassesItems ks r r' → BeforeItem r → r.FacesItems js rest →
      ks = js ∧ r'.rest = ']' :: rest ∧ r'.looked = some .close ∧ r'.inArray = true
  | [], [], h, hb, hf => by
    obtain ⟨-, hend, ha⟩ := hb.more_faces hf h
    exact ⟨rfl, hend.rest, hend.looked, ha⟩
  | _ :: _, [], h, hb, hf => by cases (hb.more_faces hf h).1
  | [], _ :: _, ⟨_, _, hm, _⟩, hb, hf => by cases (hb.more_faces hf hm).1
  | j :: js, k :: ks, ⟨r₁, r₂, hm, hk, hks⟩, hb, hf => by
    obtain ⟨-, hr, ha, items, hs, hf⟩ := hb.more_faces hf hm
    obtain ⟨rfl, hrest⟩ := Passes.of_faces hk hr hf
    obtain ⟨hb, hf⟩ := hk.facesItems hr ha hs hrest
    obtain ⟨rfl, hend⟩ := PassesItems.of_faces hks hb hf
    exact ⟨rfl, hend⟩

theorem PassesMembers.of_faces {r r' : Reader} {rest : List Char} :
    ∀ {ms ns : List (String × Tree)}, PassesMembers ns r r' → BeforeName r →
      r.FacesMembers ms rest →
        ns = ms ∧ r'.rest = '\x7d' :: rest ∧ r'.looked = some .close ∧ r'.nameDue = true
  | [], [], h, hb, hf => by
    obtain ⟨-, hend, hn⟩ := hb.more_faces hf h
    exact ⟨rfl, hend.rest, hend.looked, hn⟩
  | _ :: _, [], h, hb, hf => by cases (hb.more_faces hf h).1
  | [], _ :: _, ⟨_, _, _, hm, _⟩, hb, hf => by cases (hb.more_faces hf hm).1
  | (key, j) :: ms, (key', k) :: ns, ⟨r₁, r₂, r₃, hm, hname, hk, hns⟩, hb, hf => by
    obtain ⟨-, hfaces⟩ := hb.more_faces hf hm
    obtain ⟨rfl, hr, hframes, members, hs, hf⟩ := hfaces key' r₂ hname
    obtain ⟨rfl, hrest⟩ := Passes.of_faces hk hr hf
    obtain ⟨hb, hf⟩ := hk.facesMembers hr hframes hs hrest
    obtain ⟨rfl, hend⟩ := PassesMembers.of_faces hns hb hf
    exact ⟨rfl, hend⟩

end

/-- One more item is found when one is faced, and behind it the reader faces the others. -/
theorem BeforeItem.next_faces {b : Bool} (h : BeforeItem r) (hf : r.FacesItems (j :: js) rest)
    (hm : more r = .ok b r₁) : b = true ∧ AtValue r₁ ∧ ∃ behind, r₁.Faces j behind ∧
      ∀ r₂, Passes j r₁ r₂ → BeforeItem r₂ ∧ r₂.FacesItems js rest := by
  obtain ⟨rfl, hr, ha, items, hs, hf₁⟩ := h.more_faces hf hm
  exact ⟨rfl, hr, _, hf₁, fun r₂ hj => hj.facesItems hr ha hs (hj.of_faces hr hf₁).2⟩

/-- One more member is found when one is faced, and behind it the reader faces the others. -/
theorem BeforeName.next_faces {b : Bool} {key key' : String} (h : BeforeName r)
    (hf : r.FacesMembers ((key, j) :: ms) rest) (hm : more r = .ok b r₁)
    (hname : name r₁ = .ok key' r₂) : key' = key ∧ AtValue r₂ ∧ ∃ behind, r₂.Faces j behind ∧
      ∀ r₃, Passes j r₂ r₃ → BeforeName r₃ ∧ r₃.FacesMembers ms rest := by
  obtain ⟨-, hfaces⟩ := h.more_faces hf hm
  obtain ⟨rfl, hr, hframes, members, hs, hf₂⟩ := hfaces key' r₂ hname
  exact ⟨rfl, hr, _, hf₂, fun r₃ hj => hj.facesMembers hr hframes hs (hj.of_faces hr hf₂).2⟩

/-! ## Documents -/

/-- A reader at the start of a document faces the value of the document. -/
theorem faces_ofSource {s : Source} (h : IsDocument j s.chars) (hs : s.ending = .finished) :
    ∃ rest, (ofSource s).Faces j rest := by
  obtain ⟨lead, text, rest, hr, hlead, ht, hb⟩ := h
  exact ⟨rest, lead, text, hr, hlead, ht, .of_stops (stops_of_isBlank hb hs) j⟩

end Reader

/-- A document that is not too deep has no other tree, however deep. -/
theorem IsDocument.eq_of_depth {j k : Tree} {cs : List Char} (hj : IsDocument j cs)
    (hk : IsDocument k cs) (hdepth : k.depth ≤ maxDepth) : k = j := by
  obtain ⟨rest, hf⟩ := Reader.faces_ofSource (s := ⟨cs, .finished⟩) hj rfl
  obtain ⟨r, -, hpasses, -⟩ := (Reader.passes_finish_iff (s := ⟨cs, .finished⟩)).2 ⟨hk, rfl, hdepth⟩
  exact (hpasses.of_faces (Reader.ofSource_atValue _) hf).1

end JsonAdapters.Json
