import JsonAdapters.Proofs.Adapter.Documents
import JsonAdapters.Proofs.Adapter.Restoring
import JsonAdapters.Proofs.Number.Denoting

/-!
# Numbers

What the adapters of number types make of number texts, against the numbers that the texts denote.

## Main statements

* `Scalar.read_number`: reading where a number comes next.
* `Registry.decode_number`: reading a document that is one number.
* `Scalar.integers_exact`: integers are read exactly and written as they are read.
-/

namespace JsonAdapters

open Json (Denotes IsDocument IsNumber IsPlain Reader Tree isSupported)
open Json.Reader (AtValue Passes)
open Outcome
open Registry (Grows Valid)
open Samples (registryOf registryOf_valid_of_tables schema_sound)

/-! ## Reading numbers -/

/-- The scalar types of numbers. -/
def Scalar.IsNumeric (c : Scalar) : Prop := c ≠ .bool ∧ c ≠ .string

variable {c : Scalar} {s : Session Reader} {r : Registry} {text : String} {r' : Reader} {x : ℚ}

theorem Scalar.IsNumeric.read_eq (hc : c.IsNumeric) :
    c.read = do
      if ← passNull then return none
      return some (← c.readNumber) := by
  cases c with
  | bool => exact absurd rfl hc.1
  | string => exact absurd rfl hc.2
  | signed | unsigned | single | double => rfl

/-- Where a number comes next, looking for `null` finds none, and the number is read as without
looking. -/
theorem passNull_of_number (hs : AtValue s.stream) (h : Passes (.number text) s.stream r') :
    ∃ r₁, passNull s = .ok false { s with stream := r₁ } ∧
      Reader.number r₁ = Reader.number s.stream := by
  obtain ⟨r₁, hpeek⟩ := h.peek
  have hrun : onReader Reader.peek s = .ok .number { s with stream := r₁ } := by
    simp only [onReader, hpeek, Tree.kind]
  refine ⟨r₁, ?_, ?_⟩
  · rw [passNull, bind_of_ok hrun]
    rfl
  · rw [Reader.number]
    change EStateM.bind _ _ _ = EStateM.bind _ _ _
    rw [EStateM.bind, EStateM.bind, hs.lookKind_peek hpeek]

/-- The value of a number text is read, and a text without value is refused as it is. -/
theorem Scalar.read_number (hc : c.IsNumeric) (hs : AtValue s.stream)
    (h : Reader.number s.stream = .ok text r') :
    c.read s = match c.ofNumber? text with
      | some v => .ok (some v) { s with stream := r' }
      | none => .error (.error (.invalidNumber text c.path)) { s with stream := r' } := by
  have hpasses : Passes (.number text) s.stream r' := (Reader.number_eq_ok_iff.1 h).1
  -- the look for a `null` leaves the number where it is
  obtain ⟨r₁, hnull, hagain⟩ := passNull_of_number hs hpasses
  have hnumber : onReader Reader.number { s with stream := r₁ } =
      .ok text { s with stream := r' } := by
    simp only [onReader, hagain, h]
  have hread : c.readNumber { s with stream := r₁ } = match c.ofNumber? text with
      | some v => .ok v { s with stream := r' }
      | none => .error (.error (.invalidNumber text c.path)) { s with stream := r' } := by
    rw [Scalar.readNumber, bind_of_ok hnumber]
    cases c.ofNumber? text <;> rfl
  rw [hc.read_eq, bind_of_ok hnull]
  cases hv : c.ofNumber? text with
  | some v =>
    rw [hv] at hread
    exact bind_of_ok hread
  | none =>
    rw [hv] at hread
    exact bind_of_error hread

/-- A number beyond the limits is not read. -/
theorem Scalar.read_unsupported (hc : c.IsNumeric) (hs : AtValue s.stream)
    (h : Passes (.number text) s.stream r') (hk : isSupported text.toList = false) : ∃ r₁,
    c.read s = .error
      (.error (.read ⟨.unsupportedNumber text, s.stream.path, r₁.position⟩))
      { s with stream := r₁ } := by
  obtain ⟨r₁, hnull, hagain⟩ := passNull_of_number hs h
  obtain ⟨r₂, hfail⟩ := hs.number_unsupported h hk
  have hnumber : onReader Reader.number { s with stream := r₁ } =
      .error (.error (.read ⟨.unsupportedNumber text, s.stream.path, r₂.position⟩))
        { s with stream := r₂ } := by
    simp only [onReader, hagain, hfail, AdapterFailure.ofRead]
  refine ⟨r₂, ?_⟩
  rw [hc.read_eq, bind_of_ok hnull]
  exact bind_of_error (bind_of_error hnumber)

/-- A number that is read is a number text. -/
theorem isNumber_of_number (h : Reader.number s.stream = .ok text r') : IsNumber text.toList := by
  obtain ⟨m, r₁, -, hpass⟩ := bind_eq_ok.1 h
  obtain ⟨-, -, hnumber, -⟩ := Reader.passNumber_eq_ok_iff.1 hpass
  exact hnumber

/-! ## Documents of one number -/

/-- A request to read a scalar runs the adapter of the scalar. -/
theorem readDocument_scalar (hv : r.Valid fun S k => ¬S.Needs (.scalar c) k.serves)
    (hs : Served r (.scalar c)) (source : Json.Source) :
    ∃ r₁, readDocument (.scalar c) ⟨r, Reader.ofSource source⟩ =
      (do
        let v ← c.read
        onReader Reader.finish
        return v) ⟨r₁, Reader.ofSource source⟩ := by
  have hrequest := hv.adapter_ends (.scalar c)
  cases ha : Registry.adapter (.scalar c) r with
  | error e r₁ => exact absurd ⟨hs.1, .inr (hs.2 _ .self)⟩ (hrequest.error ha).none
  | ok id r₁ =>
    have hobtained := hrequest.ok ha
    obtain ⟨codec, hm, hserves⟩ := Registry.exists_moves hobtained.serves
    have hfits := hm.fits hobtained.valid
    -- the adapter is the built-in one, since no other factory has one for the type
    obtain rfl : codec = .scalar c := by
      cases codec with
      | scalar d => exact congrArg Codec.scalar (Ty.scalar.inj hserves)
      | custom k =>
        have hserves : k.serves = .scalar c := hserves
        have hnot : ¬r₁.schema.Needs (.scalar c) k.serves := hfits
        exact absurd (hserves ▸ .self) hnot
      | _ => cases hserves
    refine ⟨r₁, (bind_of_ok (onRegistry_ok ha)).trans ?_⟩
    rw [readWhole, readWith]
    obtain ⟨fuel, hfuel⟩ : ∃ fuel,
        readFuel r₁.schema (.scalar c) (Reader.ofSource source) = fuel + 1 := by
      refine ⟨readFuel r₁.schema (.scalar c) (Reader.ofSource source) - 1, ?_⟩
      have hpos : 0 < readFuel r₁.schema (.scalar c) (Reader.ofSource source) :=
        Nat.mul_pos (by omega) (by omega)
      omega
    have hread : (do
        let s ← get
        read (readFuel s.registry.schema (.scalar c) s.stream) id : AdapterM Reader _)
          ⟨r₁, Reader.ofSource source⟩ = c.read ⟨r₁, Reader.ofSource source⟩ := by
      rw [get_bind_run, hfuel, read, bind_of_ok (codecOf_moves hm)]
    change EStateM.bind _ _ _ = EStateM.bind _ _ _
    rw [EStateM.bind, EStateM.bind, hread]

/-- What a document makes of the type that is one number: a text within the limits of readers is
read as its value or refused as it is, and no other text is read. -/
theorem Registry.decode_number (hc : c.IsNumeric)
    (hv : r.Valid fun S k => ¬S.Needs (.scalar c) k.serves) (hs : Served r (.scalar c))
    (hn : IsNumber text.toList) :
    (isSupported text.toList = true →
      (r.decode (.scalar c) (.ofText text)).1 = match c.ofNumber? text with
        | some v => .ok (some v)
        | none => .error (.error (.invalidNumber text c.path))) ∧
    (isSupported text.toList = false → ∃ position, (r.decode (.scalar c) (.ofText text)).1 =
      .error (.error (.read ⟨.unsupportedNumber text, [], position⟩))) := by
  have hdoc : IsDocument (.number text) text.toList := Json.Spells.isDocument ⟨rfl, hn⟩
  obtain ⟨r', r'', hpasses, hfinish⟩ := Reader.passes_finish_iff (s := .ofText text).2
    ⟨hdoc, rfl, Nat.zero_le _⟩
  have hstart := Reader.ofSource_atValue (.ofText text)
  obtain ⟨r₁, hrun⟩ := readDocument_scalar hv hs (.ofText text)
  rw [Registry.decode_fst, hrun]
  -- a number that is not supported fails in the reader, before the scalar sees it
  refine ⟨fun hk => ?_, fun hk => ?_⟩
  · have hread := Scalar.read_number (s := ⟨r₁, Reader.ofSource (.ofText text)⟩) hc hstart
      (Reader.number_eq_ok_iff.2 ⟨hpasses, hk⟩)
    cases hvalue : c.ofNumber? text with
    | some v =>
      rw [hvalue] at hread
      have hend : onReader Reader.finish (⟨r₁, r'⟩ : Session Reader) = .ok () ⟨r₁, r''⟩ := by
        simp only [onReader, hfinish]
      rw [bind_of_ok hread, bind_of_ok hend]
      rfl
    | none =>
      rw [hvalue] at hread
      rw [bind_of_error hread]
  · obtain ⟨r₂, hread⟩ := Scalar.read_unsupported (s := ⟨r₁, Reader.ofSource (.ofText text)⟩) hc
      hstart hpasses hk
    refine ⟨r₂.position, ?_⟩
    rw [bind_of_error hread]
    rfl

/-- A number is written as the text that is its tree, and the registry can be asked again. -/
theorem Registry.encode_number {v : Value}
    (hv : r.Valid fun S k => ¬S.Needs (.scalar c) k.serves) (hsound : r.schema.Sound)
    (hs : Served r (.scalar c)) (htype : v.HasType r.schema (.scalar c)) (hfinite : v.Finite)
    (htree : v.encode r.schema (.scalar c) = .number text) :
    ∃ r', r.encode (.scalar c) (some v) = (.ok text, r') ∧
      r'.Valid (fun S k => ¬S.Needs (.scalar c) k.serves) ∧ Served r' (.scalar c) := by
  obtain ⟨text', r', hencode, hv', hg, -, hcompact⟩ :=
    Registry.encode_eq_compact Schema.writesLawfully_of_unneeded hv ⟨hsound, fun _ h => h⟩ hs
      (fun x hx => Option.some.inj hx ▸ htype) (fun x hx => Option.some.inj hx ▸ hfinite)
  obtain rfl : text' = text := by
    rw [Value.encodeOption, htree] at hcompact
    exact String.toList_injective hcompact
  exact ⟨r', hencode, hv', hs.grows hg⟩

/-! ## Integers -/

/-- The text is plain and denotes an integer within the bounds of the type, without a sign that the
type does not take. -/
structure Scalar.Takes (c : Scalar) (text : String) (n : ℤ) : Prop where
  plain : IsPlain text.toList
  denotes : Denotes n text.toList
  least : c.least ≤ n
  greatest : n ≤ c.greatest
  unsigned : ∀ w, c = .unsigned w → text.toList.head? ≠ some '-'

/-- The value of a text is the integer that the text denotes. -/
theorem Scalar.ofNumber?_eq_some_iff {w : Width} (hc : c = .signed w ∨ c = .unsigned w)
    (hx : Denotes x text.toList) (v : Value) :
    c.ofNumber? text = some v ↔ ∃ n, v = .int n ∧ c.Takes text n := by
  have hwithin (n : ℤ) : (if c.least ≤ n && n ≤ c.greatest then some (Value.int n) else none) =
      some v ↔ v = .int n ∧ c.least ≤ n ∧ n ≤ c.greatest := by
    split
    · next h =>
      simp only [Bool.and_eq_true, decide_eq_true_eq] at h
      rw [Option.some.injEq, and_iff_left h, eq_comm]
    · next h =>
      simp only [Bool.and_eq_true, decide_eq_true_eq] at h
      exact iff_of_false (Option.some_ne_none _).symm fun hn => h hn.2
  -- without a sign rule, what counts is plain spelling and the bounds
  have hinteger : ((integerOf? text.toList).bind fun n =>
      if c.least ≤ n && n ≤ c.greatest then some (Value.int n) else none) = some v ↔
        ∃ n : ℤ, v = .int n ∧ IsPlain text.toList ∧ Denotes n text.toList ∧ c.least ≤ n ∧
          n ≤ c.greatest := by
    rw [Option.bind_eq_some_iff]
    refine exists_congr fun n => ?_
    rw [hx.integerOf?_eq_some_iff, hwithin]
    constructor
    · rintro ⟨⟨hplain, rfl⟩, hv, hbounds⟩
      exact ⟨hv, hplain, hx, hbounds⟩
    · rintro ⟨hv, hplain, hn, hbounds⟩
      exact ⟨⟨hplain, hx.unique hn⟩, hv, hbounds⟩
  obtain rfl | rfl := hc
  · rw [Scalar.ofNumber?, hinteger]
    refine exists_congr fun n => and_congr_right fun _ => ?_
    constructor
    · rintro ⟨hplain, hn, hl, hg⟩
      refine ⟨hplain, hn, hl, hg, fun w' h => ?_⟩
      cases h
    · intro h
      exact ⟨h.plain, h.denotes, h.least, h.greatest⟩
  · rw [Scalar.ofNumber?]
    split
    · next hsign =>
      refine iff_of_false (Option.some_ne_none _).symm ?_
      rintro ⟨n, -, h⟩
      exact h.unsigned w rfl hsign
    · next hsign =>
      rw [hinteger]
      refine exists_congr fun n => and_congr_right fun _ => ?_
      constructor
      · rintro ⟨hplain, hn, hl, hg⟩
        exact ⟨hplain, hn, hl, hg, fun _ _ => hsign⟩
      · intro h
        exact ⟨h.plain, h.denotes, h.least, h.greatest⟩

variable {w : Width} {n : ℤ}

theorem Scalar.isNumeric_of_integer (hc : c = .signed w ∨ c = .unsigned w) : c.IsNumeric := by
  obtain rfl | rfl := hc
  · exact ⟨nofun, nofun⟩
  · exact ⟨nofun, nofun⟩

/-- A text that the type takes is read as its integer, and any other text is refused as it is. -/
theorem Scalar.read_integer (hc : c = .signed w ∨ c = .unsigned w) (hs : AtValue s.stream)
    (h : Reader.number s.stream = .ok text r') :
    (∀ n, c.read s = .ok (some (.int n)) { s with stream := r' } ↔ c.Takes text n) ∧
      ((∀ n, ¬c.Takes text n) →
        c.read s = .error (.error (.invalidNumber text c.path)) { s with stream := r' }) := by
  obtain ⟨x, hx⟩ := Json.denotes_of_isNumber (isNumber_of_number h)
  have hread := Scalar.read_number (isNumeric_of_integer hc) hs h
  cases hvalue : c.ofNumber? text with
  | some v =>
    obtain ⟨m, rfl, hm⟩ := (Scalar.ofNumber?_eq_some_iff hc hx v).1 hvalue
    rw [hvalue] at hread
    refine ⟨fun n => ?_, fun hnone => absurd hm (hnone m)⟩
    rw [hread]
    constructor
    · intro h
      cases h
      exact hm
    · intro hn
      obtain rfl : n = m := by exact_mod_cast hn.denotes.unique hm.denotes
      rfl
  | none =>
    -- no integer is taken from this text, since it would have been the result
    have hnone (n : ℤ) : ¬c.Takes text n := by
      intro hn
      have hsome := (Scalar.ofNumber?_eq_some_iff hc hx (.int n)).2 ⟨n, rfl, hn⟩
      cases hvalue.symm.trans hsome
    rw [hvalue] at hread
    refine ⟨fun n => iff_of_false ?_ (hnone n), fun _ => hread⟩
    rw [hread]
    nofun

/-- The type takes the digits of its integers. -/
theorem Scalar.takes_toString (hc : c = .signed w ∨ c = .unsigned w) (hleast : c.least ≤ n)
    (hgreatest : n ≤ c.greatest) : c.Takes (toString n) n := by
  obtain ⟨x, hx⟩ := Json.denotes_of_isNumber (integer_isNumber n)
  obtain ⟨m, hm, htakes⟩ := (Scalar.ofNumber?_eq_some_iff hc hx _).1
    (Scalar.ofNumber?_toString hc hleast hgreatest)
  obtain rfl : n = m := Value.int.inj hm
  exact htakes

/-- Where a value is due, the digits of an integer are written. -/
theorem Scalar.writeValue_integer (hc : c = .signed w ∨ c = .unsigned w) {s : Session Json.Writer}
    (hs : s.stream.AtValue) (hsink : s.stream.Unbounded) (n : ℤ) : ∃ s',
    c.writeValue (.int n) s = .ok () s' ∧ s'.registry = s.registry ∧
      s'.stream.text.toList = s.stream.text.toList ++ (s.stream.due.comma ++ (toString n).toList)
    := by
  have hends := Json.Writer.integer_ends n hs
  have hwrite : c.writeValue (.int n) = onWriter (Json.Writer.integer n) := by
    obtain rfl | rfl := hc
    · rfl
    · rfl
  rw [hwrite]
  cases hrun : Json.Writer.integer n s.stream with
  | ok a w' =>
    refine ⟨{ s with stream := w' }, ?_, rfl, (hends.ok hrun).2.text⟩
    simp only [onWriter, hrun]
  | error e w' => exact absurd hsink (hends.error hrun).2

/-- A document of an integer of the type is its digits, and they are read as the integer. -/
theorem Registry.decode_encode_integer (hc : c = .signed w ∨ c = .unsigned w)
    (hv : r.Valid fun S k => ¬S.Needs (.scalar c) k.serves) (hsound : r.schema.Sound)
    (hs : Served r (.scalar c)) (hleast : c.least ≤ n) (hgreatest : n ≤ c.greatest) :
    ∃ r', r.encode (.scalar c) (some (.int n)) = (.ok (toString n), r') ∧
      (r'.decode (.scalar c) (.ofText (toString n))).1 = .ok (some (.int n)) := by
  have htype : (Value.int n).HasType r.schema (.scalar c) := by
    obtain rfl | rfl := hc
    · exact ⟨hleast, hgreatest⟩
    · exact ⟨hleast, hgreatest⟩
  obtain ⟨r', hencode, hv', hs'⟩ :=
    Registry.encode_number hv hsound hs htype trivial
      (show (Value.int n).encode r.schema (.scalar c) = .number (toString n) from rfl)
  obtain ⟨hlow, hhigh⟩ := c.bounds
  have hdecode :=
    (Registry.decode_number (Scalar.isNumeric_of_integer hc) hv' hs' (integer_isNumber n)).1
      (integer_isSupported (by omega) (by omega))
  rw [Scalar.ofNumber?_toString hc hleast hgreatest] at hdecode
  exact ⟨r', hencode, hdecode⟩

/-- Integers are read exactly. A text is read as an integer when it is plain, denotes the integer
and the integer is within the bounds of the type; any other text is refused as it is. An integer of
the type is written as its digits, which the type takes, and documents of integers are read back. -/
theorem Scalar.integers_exact (hc : c = .signed w ∨ c = .unsigned w) :
    (∀ (s : Session Reader) (text : String) (r' : Reader), AtValue s.stream →
      Reader.number s.stream = .ok text r' →
      (∀ n, c.read s = .ok (some (.int n)) { s with stream := r' } ↔ c.Takes text n) ∧
      ((∀ n, ¬c.Takes text n) →
        c.read s = .error (.error (.invalidNumber text c.path)) { s with stream := r' })) ∧
    ∀ n, c.least ≤ n → n ≤ c.greatest → c.Takes (toString n) n ∧
      (∀ s : Session Json.Writer, s.stream.AtValue → s.stream.Unbounded → ∃ s',
        c.writeValue (.int n) s = .ok () s' ∧ s'.registry = s.registry ∧
        s'.stream.text.toList =
          s.stream.text.toList ++ (s.stream.due.comma ++ (toString n).toList)) ∧
      ∀ r : Registry, r.Valid (fun S k => ¬S.Needs (.scalar c) k.serves) → r.schema.Sound →
        Served r (.scalar c) → ∃ r', r.encode (.scalar c) (some (.int n)) = (.ok (toString n), r') ∧
          (r'.decode (.scalar c) (.ofText (toString n))).1 = .ok (some (.int n)) := by
  refine ⟨fun s text r' hs h => Scalar.read_integer hc hs h, fun n hleast hgreatest => ?_⟩
  refine ⟨Scalar.takes_toString hc hleast hgreatest,
    fun s hs hsink => Scalar.writeValue_integer hc hs hsink n, fun r hv hsound hs => ?_⟩
  exact Registry.decode_encode_integer hc hv hsound hs hleast hgreatest

namespace Samples

/-- A number that keeps to the limits of readers is delivered at the start of its document. -/
theorem number_ofText {text : String} (hn : IsNumber text.toList)
    (hk : isSupported text.toList = true) :
    ∃ r', Reader.number (Reader.ofSource (.ofText text)) = .ok text r' := by
  obtain ⟨r', -, hpasses, -⟩ := Reader.passes_finish_iff (s := .ofText text) (j := .number text).2
    ⟨Json.Spells.isDocument ⟨rfl, hn⟩, rfl, Nat.zero_le _⟩
  exact ⟨r', Reader.number_eq_ok_iff.2 ⟨hpasses, hk⟩⟩

/-- The least integer of eight bits is read and written, and the one behind the greatest is not
read. -/
theorem integers_exact_byte :
    let byte : Scalar := .signed .w8
    let start (text : String) : Session Reader :=
      ⟨registryOf ["provider"], Reader.ofSource (.ofText text)⟩
    (∃ s', byte.read (start (toString (-128 : ℤ))) = .ok (some (.int (-128))) s') ∧
    (∃ s', byte.read (start (toString (128 : ℤ))) =
      .error (.error (.invalidNumber (toString (128 : ℤ)) "i8")) s') ∧
    ∃ r', (registryOf ["provider"]).encode (.scalar byte) (some (.int (-128))) =
        (.ok (toString (-128 : ℤ)), r') ∧
      (r'.decode (.scalar byte) (.ofText (toString (-128 : ℤ)))).1 = .ok (some (.int (-128))) := by
  intro byte start
  obtain ⟨hread, hwrite⟩ := Scalar.integers_exact (c := byte) (w := .w8) (.inl rfl)
  have hstart (text : String) : AtValue (start text).stream := Reader.ofSource_atValue _
  obtain ⟨r₁, h₁⟩ := number_ofText (integer_isNumber (-128)) (by decide)
  obtain ⟨r₂, h₂⟩ := number_ofText (integer_isNumber 128) (by decide)
  obtain ⟨htakes, -, hdocument⟩ := hwrite (-128) (by decide) (by decide)
  have hwide : (Scalar.signed .w16).Takes (toString (128 : ℤ)) 128 :=
    Scalar.takes_toString (.inl rfl) (by decide) (by decide)
  refine ⟨⟨_, ((hread _ _ r₁ (hstart _) h₁).1 _).2 htakes⟩,
    ⟨_, (hread _ _ r₂ (hstart _) h₂).2 fun n hn => ?_⟩,
    hdocument _ (registryOf_valid_of_tables (by decide)) schema_sound
      (.of_closed (L := [.scalar byte]) rfl (by decide) (by decide) (by decide))⟩
  obtain rfl : n = 128 := by exact_mod_cast hn.denotes.unique hwide.denotes
  exact absurd hn.greatest (by decide)

end Samples

end JsonAdapters
