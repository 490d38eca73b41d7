import JsonAdapters.Proofs.Json.Passing
import JsonAdapters.Proofs.Json.Strings

/-!
# Steps at a value

The steps of a reader that stands at a value or inside a container, each with the text that it
takes. A step that fails blames the document.

## Main definitions

* `Json.Tree.mark`: the token of a value.
* `Json.Tree.EndsBefore`: what follows a value does not continue it.
* `Json.Reader.opened`: the reader inside a container that it entered.
* `Json.Reader.AtEnd`: the reader at the end of its container.
-/

namespace JsonAdapters.Json

open Outcome

/-- The token that a value starts with. -/
def Tree.mark : Tree → Mark
  | .null => .null
  | .bool b => .bool b
  | .number _ => .number
  | .string _ => .string
  | .array _ => .openArray
  | .object _ => .openObject

/-- No value starts with a closing bracket. -/
theorem Tree.mark_ne_close (j : Tree) : j.mark ≠ .close := by
  cases j <;> exact nofun

/-- The mark of a value tells its kind. -/
theorem Tree.kind_mark (j : Tree) : Reader.Mark.kind j.mark = j.kind := by
  cases j <;> rfl

/-- What follows a value does not continue it. -/
def Tree.EndsBefore (ending : Ending) (rest : List Char) : Tree → Prop
  | .null | .bool _ | .number _ => Stops ending rest
  | .string _ | .array _ | .object _ => True

namespace Reader

variable {r r' r₁ r₂ : Reader}

/-! ## Scalars -/

/-- After a value, only the rest of the text and the open arrays and objects matter. -/
theorem valueDone_congr {a b : Reader} (hrest : a.rest = b.rest) (hending : a.ending = b.ending)
    (hposition : a.position = b.position) (hframes : a.frames = b.frames) :
    a.valueDone = b.valueDone := by
  obtain ⟨rest, ending, position, frames, due, looked⟩ := a
  obtain ⟨rest', ending', position', frames', due', looked'⟩ := b
  obtain rfl : rest = rest' := hrest
  obtain rfl : ending = ending' := hending
  obtain rfl : position = position' := hposition
  obtain rfl : frames = frames' := hframes
  unfold valueDone
  cases frames with
  | nil => rfl
  | cons f fs => cases f <;> rfl

/-- The end of a value does not depend on what was looked at. -/
theorem valueDone_seen {m : Mark} {rest : List Char} {p : Position} :
    ((r.seen m).movedTo rest p).valueDone = (r.movedTo rest p).valueDone :=
  valueDone_congr rfl rfl rfl rfl

@[simp] theorem valueDone_rest : r.valueDone.rest = r.rest := by
  unfold valueDone
  split <;> rfl

@[simp] theorem valueDone_ending : r.valueDone.ending = r.ending := by
  unfold valueDone
  split <;> rfl

@[simp] theorem valueDone_looked : r.valueDone.looked = none := by
  unfold valueDone
  split <;> rfl

/-- After a value, the same arrays and objects are open. -/
theorem valueDone_length (r : Reader) : r.valueDone.frames.length = r.frames.length := by
  unfold valueDone
  split <;> simp_all

/-- After an item, a further one may come. -/
theorem valueDone_inArray (h : r.inArray = true) :
    r.valueDone.inArray = true ∧ r.valueDone.due = .further := by
  unfold inArray at h
  split at h
  · next hf =>
    constructor <;> simp only [valueDone, inArray, hf]
  · cases h

/-- A literal is passed if its word comes next. -/
theorem passLiteral_of_word {m : Mark} {rest : List Char} (h : r.rest = word m ++ rest) :
    passLiteral m r = .ok () (r.movedTo rest (r.position.right (word m).length)).valueDone := by
  simp only [passLiteral, modify_run, h, List.drop_left]
  rfl

/-- A text that is passed was spelled. -/
theorem passText_sound {s : String} (h : passText r = .ok s r') :
    ∃ text rest p, r.rest.drop 1 = text ++ '"' :: rest ∧ SpellsText s.toList text ∧
      r' = { r.movedTo rest p with looked := none } := by
  simp only [passText, get_bind_run] at h
  cases hs : scanText r.ending none (r.position.right 1) (r.rest.drop 1) with
  | error e =>
    rw [hs] at h
    cases h
  | ok x =>
    obtain ⟨cs, p, rest⟩ := x
    rw [hs] at h
    cases h
    obtain ⟨text, ht, hscan⟩ := scanText_sound hs
    exact ⟨text, rest, p, ht, by simpa [Scans] using hscan, rfl⟩

/-- A text that is spelled is passed. -/
theorem passText_complete {s : String} {text : List Char} (rest : List Char)
    (hr : r.rest.drop 1 = text ++ '"' :: rest) (ht : SpellsText s.toList text) :
    ∃ p, passText r = .ok s { r.movedTo rest p with looked := none } := by
  obtain ⟨p, hp⟩ : ∃ p, scanText r.ending none (r.position.right 1) (text ++ '"' :: rest) =
      .ok (s.toList, p, rest) := scanText_complete ht _ rest
  refine ⟨p, ?_⟩
  simp only [passText, get_bind_run, hr, hp]
  simp [movedTo]

/-- Behind a number that was scanned, the end of the input is an end of the number. -/
theorem endsNumber_iff {ending : Ending} {rest : List Char} (h : EndsScan ending rest) :
    endsNumber (ending.next rest) = true ↔ Stops ending rest := by
  cases rest with
  | nil =>
    cases ending with
    | failing reason => exact absurd rfl (h reason)
    | finished | cut _ | undecodable => simp [Stops, Ending.next, endsNumber]
  | cons c rest => simp [Stops, Ending.next, endsNumber]

/-- Numbers of the grammar are passed, and no others; those that are kept must be supported. -/
theorem passNumber_eq_ok_iff {kept : Bool} {text : String} :
    passNumber kept r = .ok text r' ↔ ∃ rest, r.rest = text.toList ++ rest ∧
      IsNumber text.toList ∧ Stops r.ending rest ∧ (kept = true → isSupported text.toList = true) ∧
      r' = (r.movedTo rest (r.position.right text.toList.length)).valueDone := by
  have hscan {rest : List Char} (hr : r.rest = text.toList ++ rest) (hn : IsNumber text.toList)
      (hstops : Stops r.ending rest) :
      scanNumber r.ending .start r.rest = .ok (text.toList, rest) :=
    scanNumber_eq_ok_iff.2 ⟨hr, hn, hstops.endsScan⟩
  -- the scanner takes all number characters; what may follow them is checked afterwards
  cases hs : scanNumber r.ending .start r.rest with
  | error cause =>
    simp only [passNumber, get_bind_run, hs]
    refine ⟨nofun, ?_⟩
    rintro ⟨rest, hr, hn, hstops, -⟩
    rw [hscan hr hn hstops] at hs
    cases hs
  | ok x =>
    obtain ⟨cs, rest⟩ := x
    obtain ⟨hr, hn, hends⟩ := scanNumber_eq_ok_iff.1 hs
    simp only [passNumber, get_bind_run, hs, ite_run, fail_bind_apply, failAt_bind_apply,
      set_bind_run, pure_run]
    constructor
    · intro h
      split at h
      · cases h
      next hk =>
      split at h
      · cases h
      next hf =>
      cases h
      simp only [String.toList_ofList]
      refine ⟨rest, hr, hn, (endsNumber_iff hends).1 (by simpa using hf), ?_, rfl⟩
      rintro rfl
      simpa using hk
    -- whatever splits off a number splits off what was scanned
    · rintro ⟨rest', hr', hn', hstops, hk, rfl⟩
      rw [hscan hr' hn' hstops] at hs
      cases hs
      have hk' : (kept && !isSupported text.toList) = false := by
        cases kept with
        | false => rfl
        | true => simpa using hk rfl
      rw [if_neg (by simp [hk']), if_neg (by simp [(endsNumber_iff hends).2 hstops]),
        String.ofList_toList]
      rfl

/-! ## Containers -/

/-- The reader inside a container that it entered. -/
def opened (r : Reader) (frame : Frame) (rest : List Char) (p : Position) : Reader :=
  { rest, ending := r.ending, position := p, frames := frame :: r.frames }

/-- An array or object is entered if it is not too deep. -/
theorem enter_eq_ok_iff {frame : Frame} {c : Char} {rest : List Char} (hr : r.rest = c :: rest) :
    enter frame r = .ok () r' ↔ r.frames.length < maxDepth ∧
      r' = r.opened frame rest (r.position.past c) := by
  simp only [enter, get_bind_run, ite_run, fail_bind_apply, bind_of_ok (advance_of_cons hr),
    modify_run]
  split
  · next hd => exact ⟨nofun, fun h => absurd h.1 (by omega)⟩
  · next hd =>
    constructor
    · intro h
      cases h
      exact ⟨by omega, rfl⟩
    · rintro ⟨-, rfl⟩
      rfl

/-- The reader stands at the end of the container in which it was at first. -/
structure AtEnd (r r' : Reader) (bracket : Char) (rest : List Char) : Prop where
  rest : r'.rest = bracket :: rest
  ending : r'.ending = r.ending
  looked : r'.looked = some .close
  frames : r'.frames.drop 1 = r.frames.drop 1

/-- An array or object is left at its closing bracket. -/
theorem leave_of_close {c : Char} {rest : List Char} (hr : r.rest = c :: rest)
    (hl : r.looked = some .close) : leave r = .ok () (valueDone { r with
      rest, position := r.position.past c, frames := r.frames.drop 1 }) := by
  rw [leave, bind_of_ok (look_of_looked hl)]
  simp only [ne_eq, not_true_eq_false, if_false, bind_of_ok (advance_of_cons hr), modify_run]
  rfl

/-- In an array, leaving an array is leaving. -/
theorem leaveArray_eq (h : r.inArray = true) : leaveArray r = leave r := by
  simp only [leaveArray, get_bind_run, h, Bool.not_true, Bool.false_eq_true, if_false]

/-- In an object, leaving an object is leaving. -/
theorem leaveObject_eq (h : r.nameDue = true) : leaveObject r = leave r := by
  simp only [leaveObject, get_bind_run, h, Bool.not_true, Bool.false_eq_true, if_false]

/-- Left at its end, an entered container was one value. -/
theorem leave_of_atEnd {frame : Frame} {bracket : Char} {start rest : List Char} {p : Position}
    (h : AtEnd (r.opened frame start p) r' bracket rest) :
    ∃ q, leave r' = .ok () (r.movedTo rest q).valueDone := by
  refine ⟨r'.position.past bracket, ?_⟩
  rw [leave_of_close h.rest h.looked]
  exact congrArg _ (valueDone_congr rfl h.ending rfl h.frames)

/-- There are more items or members unless a closing bracket comes next. -/
theorem more_eq_ok_iff {b : Bool} (hf : r.frames ≠ []) (hd : r.due ≠ .memberValue) :
    more r = .ok b r' ↔ ∃ m, look r = .ok m r' ∧ b = (m ≠ .close : Bool) := by
  have hf : r.frames.isEmpty = false := by simpa using hf
  simp only [more, get_bind_run, hf, hd, Bool.false_or, decide_false, Bool.false_eq_true,
    ite_run, if_false, bind_eq_ok, pure_run]
  constructor
  · rintro ⟨m, r₁, hl, h⟩
    cases h
    exact ⟨m, hl, by simp⟩
  · rintro ⟨m, hl, rfl⟩
    exact ⟨m, r', hl, by simp⟩

end Reader

end JsonAdapters.Json
