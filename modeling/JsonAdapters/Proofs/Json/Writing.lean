import JsonAdapters.Json.Writer
import JsonAdapters.Proofs.Json.Grammar
import JsonAdapters.Proofs.Json.Printing
import JsonAdapters.Proofs.Outcome
import JsonAdapters.Proofs.Text.Utf8

/-!
# Writing values

A writer only ever appends. Each step, taken where it is allowed, appends the text that it stands
for, and the texts of steps put together are texts of the grammar, without a blank between them. A
step that fails does so because the sink does not take everything.

## Main definitions

* `Json.Tree.compact`, `Json.Tree.spelled`: the text of a tree that has no blanks.
* `Json.Writer.Went`: what was appended from one writer to the next, and where that led.
* `Json.Writer.Wrote`: one value, in some text.
* `Json.Writer.WroteText`, `WroteItems`, `WroteMembers`: one value, and the rest of a container,
  with their texts.
* `Json.Writer.Unbounded`: the sink takes everything.

## Main statements

* `Json.Writer.scalar_ends`, `enter_ends`, `name_ends`, `leaveArray_ends`, `leaveObject_ends`,
  `finish_ends`: the steps.
* `Json.Writer.leaveArray_wrote`, `Json.Writer.leaveObject_wrote`: containers are put together.
-/

namespace JsonAdapters.Json

open Outcome

/-- The comma before a value or name that is not the first one. -/
def Due.comma : Due → List Char
  | .further => [',']
  | _ => []

/-- A comma leads where an item came before. -/
theorem Due.lead_comma {d : Due} (h : d = .first ∨ d = .further) : Lead d d.comma := by
  obtain rfl | rfl := h
  · exact .none
  · exact .comma

namespace Tree

mutual

/-- The text of the tree without blanks, in which strings have only the escapes that they need. -/
def compact : Tree → List Char
  | null => ['n', 'u', 'l', 'l']
  | bool true => ['t', 'r', 'u', 'e']
  | bool false => ['f', 'a', 'l', 's', 'e']
  | number text => text.toList
  | string s => (quote s).toList
  | array js => '[' :: (compactItems .first js ++ [']'])
  | object ms => '\x7b' :: (compactMembers .first ms ++ ['\x7d'])

/-- The text of items, the first of which is due in an array. -/
def compactItems : Due → List Tree → List Char
  | _, [] => []
  | due, j :: js => due.comma ++ (compact j ++ compactItems .further js)

/-- The text of members, the first of which is due in an object. -/
def compactMembers : Due → List (String × Tree) → List Char
  | _, [] => []
  | due, (name, j) :: ms =>
    due.comma ++ ((quote name).toList ++ ':' :: (compact j ++ compactMembers .further ms))

end

/-- A tree, with the text that it is written in. -/
def spelled (j : Tree) : Tree × List Char := (j, j.compact)

/-- Items, with the text that they are written in. -/
def spelledItems (due : Due) (js : List Tree) : List Tree × List Char := (js, compactItems due js)

/-- Members, with the text that they are written in. -/
def spelledMembers (due : Due) (ms : List (String × Tree)) : List (String × Tree) × List Char :=
  (ms, compactMembers due ms)

end Tree

namespace Writer

variable {w w' w₁ w₂ w₃ : Writer}

/-! ## Moves -/

/-- The sink takes everything. -/
structure Unbounded (w : Writer) : Prop where
  capacity : w.sink.capacity = none
  stuck : w.stuck = false

/-- The text was appended, and the writer is now inside these containers, where `due` is due. -/
structure Went (w w' : Writer) (text : List Char) (containers : List Container) (due : Due) :
    Prop where
  text : w'.text.toList = w.text.toList ++ text
  containers : w'.containers = containers
  due : w'.due = due
  sink : w'.sink = w.sink
  stuck : w'.stuck = w.stuck

theorem Went.refl (w : Writer) : Went w w [] w.containers w.due :=
  ⟨(List.append_nil _).symm, rfl, rfl, rfl, rfl⟩

/-- What was written in two parts is written together. -/
theorem Went.trans {text text' : List Char} {cs cs' : List Container} {d d' : Due}
    (h : Went w w₁ text cs d) (h' : Went w₁ w₂ text' cs' d') :
    Went w w₂ (text ++ text') cs' d' := by
  refine ⟨?_, h'.containers, h'.due, h'.sink.trans h.sink, h'.stuck.trans h.stuck⟩
  rw [h'.text, h.text, List.append_assoc]

/-- Writing does not bound the sink. -/
theorem Went.unbounded {text : List Char} {cs : List Container} {d : Due}
    (h : Went w w' text cs d) (hw : w.Unbounded) : w'.Unbounded :=
  ⟨h.sink ▸ hw.capacity, h.stuck.trans hw.stuck⟩

/-- A failure for which the sink is to blame. -/
def Stopped (w : Writer) (e : WriteFailure) : Prop := e ≠ .misuse ∧ ¬w.Unbounded

/-- A writer that stops later stops. -/
theorem Stopped.back {text : List Char} {cs : List Container} {d : Due} {e : WriteFailure}
    (h : Stopped w' e) (hw : Went w w' text cs d) : Stopped w e :=
  ⟨h.1, fun hu => h.2 (hw.unbounded hu)⟩

/-! ## Places -/

/-- A value is due. -/
structure AtValue (w : Writer) : Prop where
  value : w.nameDue = false
  due : w.due ≠ .nothing

/-- Between the items of an array. -/
structure BeforeItem (w : Writer) : Prop where
  inArray : w.containers.head? = some .array
  due : w.due = .first ∨ w.due = .further

/-- Between the members of an object. -/
structure BeforeName (w : Writer) : Prop where
  inObject : w.containers.head? = some .object
  due : w.due = .first ∨ w.due = .further

/-- Before an item, a value may be written. -/
theorem BeforeItem.atValue (h : BeforeItem w) : AtValue w := by
  refine ⟨?_, fun hd => ?_⟩
  · simp [Writer.nameDue, h.inArray]
  · obtain h | h := h.due <;> cases hd.symm.trans h

/-- Before a name, a name may be written. -/
theorem BeforeName.nameDue (h : BeforeName w) : w.nameDue = true := by
  obtain hd | hd := h.due <;> simp [Writer.nameDue, h.inObject, hd]

/-- Behind the name of a member its value is due. -/
theorem atValue_of_memberValue (h : w.due = .memberValue) : AtValue w := by
  refine ⟨?_, fun hd => ?_⟩
  · simp [Writer.nameDue, h]
  · cases hd.symm.trans h

/-- At the start, a value may be written. -/
theorem ofSink_atValue (s : Sink) : AtValue (ofSink s) := ⟨rfl, nofun⟩

/-! ## Steps -/

/-- Appending text fails only when the sink does. -/
theorem emit_ends (s : String) (w : Writer) :
    Ends (emit s) w (fun _ w' => Went w w' s.toList w.containers w.due)
      (fun e _ => Stopped w e) := by
  by_cases hempty : s.isEmpty = true
  · have hs : s.toList = [] := by
      rw [String.isEmpty_iff.1 hempty]
      rfl
    have hrun : emit s w = .ok () w := by
      simp only [emit, get_bind_run, hempty, if_true, pure_run]
    exact .of_ok hrun (hs ▸ .refl w)
  by_cases hstuck : w.stuck = true
  · have hrun : emit s w = .error (.sinkFailed w.sink.reason) w := by
      simp [emit, hempty, hstuck]
    refine .of_error hrun ⟨nofun, fun hw => ?_⟩
    cases hstuck.symm.trans hw.stuck
  -- text is delivered in whole blocks, and the sink is asked for new blocks only
  let full := (w.text ++ s).utf8ByteSize / blockSize * blockSize
  by_cases hfull : full = w.delivered ∨ w.sink.accepts full = true
  · have hrun : emit s w = .ok () { w with text := w.text ++ s, delivered := full } := by
      simp only [full] at hfull
      simp only [emit, get_bind_run, hempty, hstuck, Bool.false_eq_true, if_false, ite_run,
        Bool.or_eq_true, decide_eq_true_eq, hfull, if_true, set_run, full]
    exact .of_ok hrun ⟨String.toList_append, rfl, rfl, rfl, rfl⟩
  · have hrun : emit s w = .error (.sinkFailed w.sink.reason) { w with
        text := w.text ++ s
        delivered := w.sink.capacity.getD 0 / blockSize * blockSize
        stuck := true } := by
      simp only [full] at hfull
      simp only [emit, get_bind_run, hempty, hstuck, Bool.false_eq_true, if_false, ite_run,
        Bool.or_eq_true, decide_eq_true_eq, hfull, set_bind_run, throw_run]
    refine .of_error hrun ⟨nofun, fun hw => hfull (.inr ?_)⟩
    rw [Sink.accepts, hw.capacity]

/-- A comma is written where one is due. -/
theorem comma_ends (w : Writer) : Ends (if w.due = .further then emit "," else pure ()) w
    (fun _ w' => Went w w' w.due.comma w.containers w.due) (fun e _ => Stopped w e) := by
  split
  · next hd =>
    have hends := emit_ends "," w
    rw [hd] at hends ⊢
    exact hends
  · next hd =>
    have hcomma : w.due.comma = [] := by
      cases hw : w.due <;> first | rfl | exact absurd hw hd
    exact .pure (hcomma ▸ .refl w)

/-- Place is made for a value. -/
theorem beforeValue_ends (h : AtValue w) : Ends beforeValue w
    (fun _ w' => Went w w' w.due.comma w.containers w.due) (fun e _ => Stopped w e) := by
  refine .congr ?_ (comma_ends w)
  simp [beforeValue, h.value, h.due]

/-- One value was written. -/
def Wrote (j : Tree) (w w' : Writer) : Prop :=
  ∃ text, Spells j text ∧ Went w w' (w.due.comma ++ text) w.containers w.valueDone.due

/-- One value was written in this text. -/
def WroteText (z : Tree × List Char) (w w' : Writer) : Prop :=
  Spells z.1 z.2 ∧ Went w w' (w.due.comma ++ z.2) w.containers w.valueDone.due

/-- A tree that was written with its text was written. -/
theorem WroteText.wrote {z : Tree × List Char} (h : WroteText z w w') : Wrote z.1 w w' :=
  ⟨z.2, h⟩

/-- A value that is no container is written in one piece. -/
theorem scalar_ends {s : String} {j : Tree} (h : AtValue w) (hs : Spells j s.toList) :
    Ends (scalar s) w (fun _ w' => WroteText (j, s.toList) w w') (fun e _ => Stopped w e) := by
  refine (beforeValue_ends h).bind fun _ w₁ _ h₁ => ?_
  have hdone : Went w w₁.valueDone w.due.comma w.containers w.valueDone.due := by
    refine ⟨h₁.text, h₁.containers, ?_, h₁.sink, h₁.stuck⟩
    simp only [valueDone, h₁.containers]
  refine .congr (modify_bind_run ..) ((emit_ends s w₁.valueDone).mono
    (fun _ w₂ _ h₂ => ⟨hs, ?_⟩) fun e _ he => he.back hdone)
  have htrans := hdone.trans h₂
  rwa [hdone.containers, hdone.due] at htrans

/-- `null` is written, or the sink fails. -/
theorem null_ends (h : AtValue w) :
    Ends null w (fun _ w' => WroteText Tree.null.spelled w w') (fun e _ => Stopped w e) :=
  scalar_ends h rfl

/-- A boolean is written, or the sink fails. -/
theorem bool_ends (b : Bool) (h : AtValue w) :
    Ends (bool b) w (fun _ w' => WroteText (Tree.bool b).spelled w w')
      (fun e _ => Stopped w e) := by
  cases b with
  | true => exact scalar_ends h rfl
  | false => exact scalar_ends h rfl

/-- A string is written in quotes, or the sink fails. -/
theorem string_ends (s : String) (h : AtValue w) :
    Ends (string s) w (fun _ w' => WroteText (Tree.string s).spelled w w')
      (fun e _ => Stopped w e) :=
  scalar_ends h (quote_spells s)

/-- An integer is written in decimals, or the sink fails. -/
theorem integer_ends (n : Int) (h : AtValue w) :
    Ends (integer n) w
      (fun _ w' => WroteText (Tree.number (toString n)).spelled w w')
      (fun e _ => Stopped w e) :=
  scalar_ends h ⟨rfl, integer_isNumber n⟩

/-- A floating point number is written when it is finite. -/
theorem float_ends (fmt : Binary.Format) (bits : Nat) (h : AtValue w) :
    Ends (float fmt bits) w
      (fun _ w' => WroteText (Tree.number (Decimal.print fmt bits)).spelled w w')
      (fun e _ => e ≠ .misuse ∧ ¬(fmt.isFinite bits = true ∧ w.Unbounded)) := by
  cases hfinite : fmt.isFinite bits with
  | false =>
    have hrun : float fmt bits w =
        .error (.refused s!"non-finite number: {nonFiniteText fmt bits}") w := by
      simp only [float, hfinite, Bool.not_false, if_true, throw_bind_run]
    exact .of_error hrun (by simp)
  | true =>
    have hscalar := scalar_ends (s := Decimal.print fmt bits)
      (j := .number (Decimal.print fmt bits)) h ⟨rfl, Decimal.print_isNumber fmt bits⟩
    simp only [float, hfinite, Bool.not_true, Bool.false_eq_true, if_false]
    refine hscalar.tryCatch fun e w' he => ?_
    cases e with
    | misuse => exact absurd rfl he.1
    | refused => exact .throw ⟨he.1, fun h => he.2 h.2⟩
    -- a failing sink is reported as a refusal, which is no misuse either
    | sinkFailed => exact .throw ⟨by simp, fun h => he.2 h.2⟩

/-! ## Containers -/

/-- A bracket opens an array or object, or the sink fails. -/
theorem enter_ends (c : Container) (bracket : String) (h : AtValue w) :
    Ends (enter c bracket) w
      (fun _ w' => Went w w' (w.due.comma ++ bracket.toList) (c :: w.containers) .first)
      (fun e _ => Stopped w e) := by
  refine (beforeValue_ends h).bind fun _ w₁ _ h₁ => ?_
  refine ((emit_ends bracket w₁).mono (fun _ _ _ h => h) fun e _ he => he.back h₁).bind
    fun _ w₂ _ h₂ => .of_ok (modify_run _) ?_
  have htrans := h₁.trans h₂
  exact ⟨htrans.text, by rw [htrans.containers, h₁.containers], rfl, htrans.sink, htrans.stuck⟩

/-- Where a container leads that is left. -/
theorem leave_ends (bracket : String) (w : Writer) :
    Ends (leave bracket) w
      (fun _ w' => Went w w' bracket.toList (w.containers.drop 1)
        (valueDone { w with containers := w.containers.drop 1 }).due)
      (fun e _ => Stopped w e) := by
  refine (emit_ends bracket w).bind fun _ w₁ _ h₁ => .of_ok (modify_run _) ?_
  refine ⟨h₁.text, ?_, ?_, h₁.sink, h₁.stuck⟩
  · simp only [valueDone, h₁.containers]
  · simp only [valueDone, h₁.containers]

/-- A bracket closes an array, or the sink fails. -/
theorem leaveArray_ends (h : w.containers.head? = some .array) :
    Ends leaveArray w
      (fun _ w' => Went w w' [']'] (w.containers.drop 1)
        (valueDone { w with containers := w.containers.drop 1 }).due)
      (fun e _ => Stopped w e) := by
  refine .congr (y := leave "]") (t := w) ?_ (leave_ends "]" w)
  simp [leaveArray, h]

/-- A brace closes an object, or the sink fails. -/
theorem leaveObject_ends (h : w.nameDue = true) :
    Ends leaveObject w
      (fun _ w' => Went w w' ['\x7d'] (w.containers.drop 1)
        (valueDone { w with containers := w.containers.drop 1 }).due)
      (fun e _ => Stopped w e) := by
  refine .congr (y := leave "\x7d") (t := w) ?_ (leave_ends "\x7d" w)
  simp [leaveObject, h]

/-- The name of a member, with its colon. -/
theorem name_ends (s : String) (h : BeforeName w) :
    Ends (name s) w
      (fun _ w' => Went w w' (w.due.comma ++ ((quote s).toList ++ [':'])) w.containers .memberValue)
      (fun e _ => Stopped w e) := by
  have hrun : name s w = ((if w.due = .further then emit "," else pure ()) >>= fun _ => do
      emit (quote s)
      emit ":"
      modify fun w => { w with due := .memberValue }) w := by
    simp only [name, get_bind_run, h.nameDue, Bool.not_true, Bool.false_eq_true, if_false,
      ite_bind_run, pure_bind_run, ite_run]
  -- comma, name and colon are written one after the other
  refine .congr hrun ((comma_ends w).bind fun _ w₁ _ h₁ => ?_)
  refine ((emit_ends (quote s) w₁).mono (fun _ _ _ h => h) fun e _ he => he.back h₁).bind
    fun _ w₂ _ h₂ => ?_
  have h₂ := h₁.trans h₂
  refine ((emit_ends ":" w₂).mono (fun _ _ _ h => h) fun e _ he => he.back h₂).bind
    fun _ w₃ _ h₃ => .of_ok (modify_run _) ?_
  have h₃ := h₂.trans h₃
  refine ⟨?_, ?_, rfl, h₃.sink, h₃.stuck⟩
  · have htext := h₃.text
    rwa [List.append_assoc w.due.comma] at htext
  · change w₃.containers = w.containers
    rw [h₃.containers, h₂.containers, h₁.containers]

/-- A document is completed when all of it reaches the sink. -/
theorem finish_ends (h : w.due = .nothing) :
    Ends finish w (fun _ w' => w'.text = w.text ∧ w'.delivered = w.text.utf8ByteSize)
      (fun e _ => Stopped w e) := by
  by_cases hsize : w.text.utf8ByteSize = w.delivered
  · have hrun : finish w = .ok () w := by
      simp only [finish, get_bind_run, h, ne_eq, not_true_eq_false, if_false, hsize, if_true,
        pure_run, ite_run]
    exact .of_ok hrun ⟨rfl, hsize.symm⟩
  -- the last block, which need not be a whole one
  by_cases hbad : w.stuck = true ∨ w.sink.accepts w.text.utf8ByteSize = false
  · have hrun : finish w = .error (.sinkFailed w.sink.reason) w := by
      simp only [finish, get_bind_run, h, ne_eq, not_true_eq_false, if_false, hsize, ite_run,
        Bool.or_eq_true, Bool.not_eq_true', hbad, if_true, throw_bind_run]
    refine .of_error hrun ⟨nofun, fun hw => ?_⟩
    obtain hs | ha := hbad
    · cases hs.symm.trans hw.stuck
    · rw [Sink.accepts, hw.capacity] at ha
      cases ha
  · have hrun : finish w = .ok () { w with delivered := w.text.utf8ByteSize } := by
      simp only [finish, get_bind_run, h, ne_eq, not_true_eq_false, if_false, hsize, ite_run,
        Bool.or_eq_true, Bool.not_eq_true', hbad, set_run]
    exact .of_ok hrun ⟨rfl, rfl⟩

/-- When all of a text was delivered, its bytes are decoded as the text. -/
theorem decode_output (h : w.delivered = w.text.utf8ByteSize) :
    Utf8.decode w.output = (w.text.toList, none) := by
  rw [output, h, ← Utf8.length_toUTF8, List.take_length, Utf8.decode_toUTF8]

/-! ## Values put together -/

/-- The rest of an array was written in this text, up to its bracket. -/
def WroteItems (z : List Tree × List Char) (w w' : Writer) : Prop :=
  SpellsItems w.due z.1 z.2 ∧
    Went w w' z.2 w.containers (if z.1.isEmpty then w.due else .further)

/-- The rest of an object was written in this text, up to its bracket. -/
def WroteMembers (z : List (String × Tree) × List Char) (w w' : Writer) : Prop :=
  SpellsMembers w.due z.1 z.2 ∧
    Went w w' z.2 w.containers (if z.1.isEmpty then w.due else .further)

theorem WroteItems.nil (w : Writer) : WroteItems ([], []) w w := ⟨nofun, .refl w⟩

theorem WroteMembers.nil (w : Writer) : WroteMembers ([], []) w w := ⟨nofun, .refl w⟩

/-- After an item, a further one may come. -/
theorem valueDone_due (h : w.containers ≠ []) : w.valueDone.due = .further := by
  simp [valueDone, h]

/-- Before an item, an array is open. -/
theorem BeforeItem.containers_ne (h : BeforeItem w) : w.containers ≠ [] := by
  intro hnil
  have harray := h.inArray
  rw [hnil] at harray
  cases harray

/-- Before a name, an object is open. -/
theorem BeforeName.containers_ne (h : BeforeName w) : w.containers ≠ [] := by
  intro hnil
  have hobject := h.inObject
  rw [hnil] at hobject
  cases hobject

/-- Behind an item, the writer stands between items. -/
theorem WroteText.beforeItem {z : Tree × List Char} (hz : WroteText z w w₁) (h : BeforeItem w) :
    BeforeItem w₁ ∧ w₁.due = .further := by
  obtain ⟨-, hwent⟩ := hz
  have hdue := hwent.due.trans (valueDone_due h.containers_ne)
  exact ⟨⟨by rw [hwent.containers, h.inArray], .inr hdue⟩, hdue⟩

/-- An item before items makes items. -/
theorem WroteItems.cons {z : Tree × List Char} {zs : List Tree × List Char} (h : BeforeItem w)
    (hz : WroteText z w w₁) (hzs : WroteItems zs w₁ w₂) :
    WroteItems (z.1 :: zs.1, w.due.comma ++ (z.2 ++ zs.2)) w w₂ := by
  have hdue := (hz.beforeItem h).2
  obtain ⟨htext, hwent⟩ := hz
  obtain ⟨hrest, hwent'⟩ := hzs
  rw [hdue] at hrest hwent'
  refine ⟨⟨w.due.comma, z.2, zs.2, rfl, Due.lead_comma h.due, htext, hrest⟩, ?_⟩
  -- behind an item a comma is due, whether or not there is another one
  have htrans := hwent.trans hwent'
  rw [hwent.containers, ite_self, List.append_assoc] at htrans
  exact htrans

/-- Behind a name and the value of the member, the writer stands between members. -/
theorem WroteText.beforeName {z : Tree × List Char} {text : List Char} (h : BeforeName w)
    (hname : Went w w₁ text w.containers .memberValue) (hz : WroteText z w₁ w₂) :
    BeforeName w₂ ∧ w₂.due = .further := by
  obtain ⟨-, hwent⟩ := hz
  have hne : w₁.containers ≠ [] := by
    rw [hname.containers]
    exact h.containers_ne
  have hdue := hwent.due.trans (valueDone_due hne)
  exact ⟨⟨by rw [hwent.containers, hname.containers, h.inObject], .inr hdue⟩, hdue⟩

/-- A name and its value before members make members. -/
theorem WroteMembers.cons {s : String} {z : Tree × List Char}
    {zs : List (String × Tree) × List Char} (h : BeforeName w)
    (hname : Went w w₁ (w.due.comma ++ ((quote s).toList ++ [':'])) w.containers .memberValue)
    (hz : WroteText z w₁ w₂) (hzs : WroteMembers zs w₂ w₃) :
    WroteMembers ((s, z.1) :: zs.1,
      w.due.comma ++ ((quote s).toList ++ ':' :: (z.2 ++ zs.2))) w w₃ := by
  have hdue := (WroteText.beforeName h hname hz).2
  obtain ⟨htext, hwent⟩ := hz
  obtain ⟨hrest, hwent'⟩ := hzs
  rw [hdue] at hrest hwent'
  rw [hname.due] at hwent
  refine ⟨⟨w.due.comma, (quote s).toList, [':'], z.2, zs.2, rfl, Due.lead_comma h.due,
    quote_spells s, .colon, htext, hrest⟩, ?_⟩
  have htrans := (hname.trans hwent).trans hwent'
  rw [hwent.containers, hname.containers, ite_self] at htrans
  simpa [Due.comma] using htrans

/-- Inside an array that was entered. -/
theorem Went.beforeItem {text : List Char} {cs : List Container}
    (h : Went w w' text (.array :: cs) .first) : BeforeItem w' :=
  ⟨by rw [h.containers]; rfl, .inl h.due⟩

/-- Inside an object that was entered. -/
theorem Went.beforeName {text : List Char} {cs : List Container}
    (h : Went w w' text (.object :: cs) .first) : BeforeName w' :=
  ⟨by rw [h.containers]; rfl, .inl h.due⟩

/-- A container was entered, what it holds was written, and it was left. -/
theorem Went.enclosed {c : Container} {opening text closing : List Char} {d : Due}
    (henter : Went w w₁ (w.due.comma ++ opening) (c :: w.containers) .first)
    (hinner : Went w₁ w₂ text w₁.containers d)
    (hleave : Went w₂ w₃ closing (w₂.containers.drop 1)
      (valueDone { w₂ with containers := w₂.containers.drop 1 }).due) :
    Went w w₃ (w.due.comma ++ (opening ++ (text ++ closing))) w.containers w.valueDone.due := by
  have hcontainers : w₂.containers = c :: w.containers :=
    hinner.containers.trans henter.containers
  have htrans := (henter.trans hinner).trans hleave
  simp only [hcontainers, List.drop_succ_cons, List.drop_zero, valueDone] at htrans
  simpa [valueDone] using htrans

/-- An array that is left at its end was written as one value. -/
theorem leaveArray_wrote {z : List Tree × List Char}
    (henter : Went w w₁ (w.due.comma ++ ['[']) (.array :: w.containers) .first)
    (hitems : WroteItems z w₁ w₂) :
    Ends leaveArray w₂ (fun _ w' => WroteText (.array z.1, '[' :: (z.2 ++ [']'])) w w')
      (fun e _ => Stopped w₂ e) := by
  obtain ⟨hspells, hwent⟩ := hitems
  rw [henter.due] at hspells
  have hcontainers : w₂.containers = .array :: w.containers :=
    hwent.containers.trans henter.containers
  refine (leaveArray_ends (by rw [hcontainers]; rfl)).mono (fun _ w₃ _ hleave => ?_) fun _ _ h => h
  exact ⟨⟨z.2, rfl, hspells⟩, henter.enclosed hwent hleave⟩

/-- An object that is left at its end was written as one value. -/
theorem leaveObject_wrote {z : List (String × Tree) × List Char}
    (henter : Went w w₁ (w.due.comma ++ ['\x7b']) (.object :: w.containers) .first)
    (hmembers : WroteMembers z w₁ w₂) :
    Ends leaveObject w₂ (fun _ w' => WroteText (.object z.1, '\x7b' :: (z.2 ++ ['\x7d'])) w w')
      (fun e _ => Stopped w₂ e) := by
  obtain ⟨hspells, hwent⟩ := hmembers
  rw [henter.due] at hspells
  have hcontainers : w₂.containers = .object :: w.containers :=
    hwent.containers.trans henter.containers
  -- an object is left only where a name may stand
  have hdue : w₂.due = .first ∨ w₂.due = .further := by
    rw [hwent.due]
    split
    · exact .inl henter.due
    · exact .inr rfl
  have hname : BeforeName w₂ := ⟨by rw [hcontainers]; rfl, hdue⟩
  refine (leaveObject_ends hname.nameDue).mono (fun _ w₃ _ hleave => ?_) fun _ _ h => h
  exact ⟨⟨z.2, rfl, hspells⟩, henter.enclosed hwent hleave⟩

/-- Behind a value that is in no container, nothing is due. -/
theorem Wrote.due_of_top {j : Tree} (h : Wrote j w w') (hw : w.containers = []) :
    w'.due = .nothing := by
  obtain ⟨_, -, hwent⟩ := h
  rw [hwent.due, valueDone, hw]
  rfl

/-- A document that was written whole. -/
theorem Wrote.isDocument {j : Tree} {s : Sink} (h : Wrote j (ofSink s) w) :
    IsDocument j w.text.toList := by
  obtain ⟨text, htext, hwent⟩ := h
  rw [show w.text.toList = text from hwent.text]
  exact htext.isDocument

/-- The text of a document is the text of its value. -/
theorem WroteText.text {z : Tree × List Char} {s : Sink} (h : WroteText z (ofSink s) w) :
    w.text.toList = z.2 := h.2.text

end Writer

end JsonAdapters.Json
