import JsonAdapters.Proofs.Adapter.Encoding
import JsonAdapters.Proofs.Adapter.Reading
import JsonAdapters.Proofs.Json.Writing

/-!
# What adapters write

Every adapter, started where a value is due, writes one value, and what built-in and generated
adapters write is the compact text of the trees of their values. The induction follows the value
that is written.

## Main definitions

* `CustomCodec.WritesLawfully`: what is asked of adapters that are not generated.
* `Written`, `Unwritten`: the two ways in which writing can end.

## Main statements

* `writesValue`: one value that is present.
* `writeOption_spells`, `writeOption_ends`: one value, present or absent.
-/

namespace JsonAdapters

open Json (Container Due Tree Writer WriteM WriteFailure)
open Json.Writer (AtValue BeforeItem BeforeName Stopped Unbounded Went Wrote WroteItems WroteMembers
  WroteText)
open Outcome
open Registry (Grows Valid)

/-- The codec writes one value, or has not to answer for the failure. -/
def CustomCodec.WritesLawfully (S : Schema) (c : CustomCodec) : Prop :=
  ∀ v : Option Value, (∀ x, v = some x → x.HasType S c.serves) → ∀ w, AtValue w →
    Ends (c.write v) w (fun _ w' => ∃ j, Wrote j w w') (fun e _ => e ≠ .misuse)

/-- Nothing is asked of codecs for types that are not needed. -/
theorem Schema.writesLawfully_of_unneeded {T : Ty} (S : Schema) (c : CustomCodec)
    (h : ¬S.Needs T c.serves) (h' : S.Needs T c.serves) : c.WritesLawfully S := absurd h' h

variable {κ : Type} {P : Schema → CustomCodec → Prop} {T t : Ty} {finite : Prop}
  {s s₁ s₂ : Session Writer}

/-- A run from `s` wrote something, and unless other adapters were at work, it is `what`. -/
structure Written (P : Schema → CustomCodec → Prop) (T : Ty) (R : κ → Writer → Writer → Prop)
    (what : κ) (s s' : Session Writer) : Prop where
  valid : s'.registry.Valid P
  grows : Grows s.registry s'.registry
  wrote : ∃ z, R z s.stream s'.stream ∧ (Plain P s.registry.schema T → z = what)

/-- The failure is an error that is reported, or a request did not end because not all requests to
the registry do. -/
def AdapterFailure.Reported (f : AdapterFailure) (r : Registry) : Prop :=
  match f with
  | .error _ => True
  | .misuse | .stalled => False
  | .endless => ¬r.Conclusive

/-- A run from `s` failed with an error, for which there is one of four reasons. That the bytes
which were written are no text is none of them. -/
structure Unwritten (P : Schema → CustomCodec → Prop) (T : Ty) (finite : Prop)
    (s : Session Writer) (e : AdapterFailure) (s' : Session Writer) : Prop where
  valid : s'.registry.Valid P
  grows : Grows s.registry s'.registry
  reported : e.Reported s'.registry
  readable : ∀ fault, e ≠ .error (.utf8 fault)
  inevitable : ¬(Plain P s.registry.schema T ∧ Served s.registry T ∧ finite ∧ s.stream.Unbounded)

/-- The second session comes after the first, and its sink is no worse. -/
structure Since (P : Schema → CustomCodec → Prop) (s s₁ : Session Writer) : Prop where
  valid : s₁.registry.Valid P
  grows : Grows s.registry s₁.registry
  unbounded : s.stream.Unbounded → s₁.stream.Unbounded

theorem Since.refl (hv : s.registry.Valid P) : Since P s s := ⟨hv, .refl _, fun h => h⟩

theorem Since.of_step (hv : s.registry.Valid P) (h : s₁.registry = s.registry)
    (hu : s.stream.Unbounded → s₁.stream.Unbounded) : Since P s s₁ := ⟨h ▸ hv, .of_eq h, hu⟩

theorem Since.trans (h : Since P s s₁) (h' : Since P s₁ s₂) : Since P s s₂ :=
  ⟨h'.valid, h.grows.trans h'.grows, fun hu => h'.unbounded (h.unbounded hu)⟩

theorem Since.schema (h : Since P s s₁) : s₁.registry.schema = s.registry.schema := h.grows.schema

/-- A failure is one of everything that came before, too. -/
theorem Unwritten.back {finite₁ : Prop} {e : AdapterFailure} {s' : Session Writer}
    (h : Unwritten P T finite₁ s₁ e s') (hs : Since P s s₁) (hf : finite → finite₁) :
    Unwritten P T finite s e s' := by
  refine ⟨h.valid, hs.grows.trans h.grows, h.reported, h.readable, ?_⟩
  rintro ⟨hp, hserved, hfinite, hu⟩
  exact h.inevitable ⟨hp.of_grows hs.grows, hserved.grows hs.grows, hf hfinite, hs.unbounded hu⟩

theorem ofWrite_reported {e : WriteFailure} {r : Registry} (h : e ≠ .misuse) :
    (AdapterFailure.ofWrite e).Reported r := by
  cases e with
  | misuse => exact absurd rfl h
  | refused why => trivial
  | sinkFailed reason => trivial

theorem ofWrite_readable (e : WriteFailure) (fault : Utf8.Fault) :
    AdapterFailure.ofWrite e ≠ .error (.utf8 fault) := by
  cases e <;> exact nofun

theorem Registry.Unanswered.reported {f : AdapterFailure} {r r' : Registry}
    (h : r.Unanswered t f r') : f.Reported r := by
  cases f with
  | error e => trivial
  | endless => exact h.inconclusive rfl
  | misuse | stalled => exact h.ofRequest

theorem AdapterFailure.OfRequest.readable {f : AdapterFailure} (h : f.OfRequest)
    (fault : Utf8.Fault) : f ≠ .error (.utf8 fault) := by
  rintro rfl
  exact h

/-! ## Steps -/

/-- A step of the writer. -/
theorem onWriter_ends {x : WriteM Unit} {post : Writer → Prop} (hv : s.registry.Valid P)
    (hx : Ends x s.stream (fun _ w => post w)
      (fun e _ => e ≠ .misuse ∧ ¬(finite ∧ s.stream.Unbounded))) :
    Ends (onWriter x) s (fun _ s' => s'.registry = s.registry ∧ post s'.stream)
      (Unwritten P T finite s) := by
  cases h : x s.stream with
  | ok a w =>
    have hrun : onWriter x s = .ok a { s with stream := w } := by
      simp only [onWriter, h]
    exact .of_ok hrun ⟨rfl, hx.ok h⟩
  | error e w =>
    have hrun : onWriter x s = .error (.ofWrite e) { s with stream := w } := by
      simp only [onWriter, h]
    obtain ⟨hmisuse, hsink⟩ := hx.error h
    exact .of_error hrun ⟨hv, .refl _, ofWrite_reported hmisuse, ofWrite_readable e,
      fun hall => hsink hall.2.2⟩

/-- A step that only the sink can stop. -/
theorem onWriter_ends_of_stopped {x : WriteM Unit} {post : Writer → Prop}
    (hv : s.registry.Valid P)
    (hx : Ends x s.stream (fun _ w => post w) (fun e _ => Stopped s.stream e)) :
    Ends (onWriter x) s (fun _ s' => s'.registry = s.registry ∧ post s'.stream)
      (Unwritten P T finite s) :=
  onWriter_ends hv (hx.mono (fun _ _ _ h => h) fun _ _ h => ⟨h.1, fun hu => h.2 hu.2⟩)

/-- The adapter of a part. -/
theorem onPart_ends {id : AdapterId} {c : Codec} (hv : s.registry.Valid P)
    (hm : s.registry.Moves id c) (ht : t ∈ c.parts) (hn : s.registry.schema.Needs T t) :
    Ends (onRegistry (Registry.part id t)) s
      (fun inner s' => s'.stream = s.stream ∧ Since P s s' ∧ s'.registry.serves inner t = true)
      (Unwritten P T finite s) := by
  obtain ⟨a, ha, rfl⟩ := hm
  have hpart := hv.part_ends ha ht
  cases hx : Registry.part id t s.registry with
  | ok inner r =>
    have ho := hpart.ok hx
    exact .of_ok (onRegistry_ok hx) ⟨rfl, ⟨ho.valid, ho.grows, fun h => h⟩, ho.serves⟩
  | error e r =>
    have hunanswered := hpart.error hx
    obtain rfl := hunanswered.unchanged
    refine .of_error (onRegistry_error hx)
      ⟨hv, .refl _, hunanswered.reported, hunanswered.ofRequest.readable, ?_⟩
    rintro ⟨-, hserved, -⟩
    exact hunanswered.none ⟨hserved.1, .inr (hserved.2 t hn)⟩

/-! ## Values that are no containers -/

/-- One value was written in one step. -/
theorem wrote_ends {z : Tree × List Char} {x : WriteM Unit} (hv : s.registry.Valid P)
    (hx : Ends x s.stream (fun _ w => WroteText z s.stream w)
      (fun e _ => e ≠ .misuse ∧ ¬(finite ∧ s.stream.Unbounded))) :
    Ends (onWriter x) s (fun _ => Written P T WroteText z s) (Unwritten P T finite s) := by
  refine (onWriter_ends hv hx).mono (fun _ s' _ h => ?_) fun _ _ h => h
  obtain ⟨hregistry, hwrote⟩ := h
  exact ⟨hregistry ▸ hv, .of_eq hregistry, z, hwrote, fun _ => rfl⟩

theorem wrote_ends_of_stopped {z : Tree × List Char} {x : WriteM Unit} (hv : s.registry.Valid P)
    (hx : Ends x s.stream (fun _ w => WroteText z s.stream w) (fun e _ => Stopped s.stream e)) :
    Ends (onWriter x) s (fun _ => Written P T WroteText z s) (Unwritten P T finite s) :=
  wrote_ends hv (hx.mono (fun _ _ _ h => h) fun _ _ h => ⟨h.1, fun hu => h.2 hu.2⟩)

/-- Another adapter writes a value. Which one is not said. -/
theorem custom_ends {c : CustomCodec} {v : Option Value} {z : Tree × List Char}
    (hv : s.registry.Valid P)
    (hc : c.WritesLawfully s.registry.schema) (hp : ¬Plain P s.registry.schema T)
    (htype : ∀ x, v = some x → x.HasType s.registry.schema c.serves) (hw : AtValue s.stream) :
    Ends (onWriter (c.write v)) s (fun _ => Written P T WroteText z s)
      (Unwritten P T finite s) := by
  have hends := hc v htype s.stream hw
  cases h : c.write v s.stream with
  | ok a w =>
    have hrun : onWriter (c.write v) s = .ok a { s with stream := w } := by
      simp only [onWriter, h]
    obtain ⟨j, text, hj⟩ := hends.ok h
    exact .of_ok hrun ⟨hv, .refl _, (j, text), hj, fun h => absurd h hp⟩
  | error e w =>
    have hrun : onWriter (c.write v) s = .error (.ofWrite e) { s with stream := w } := by
      simp only [onWriter, h]
    exact .of_error hrun ⟨hv, .refl _, ofWrite_reported (hends.error h), ofWrite_readable e,
      fun h => hp h.1⟩

/-- A scalar is written as its text. -/
theorem Scalar.writeValue_ends (c : Scalar) (v : Value) (hv : s.registry.Valid P)
    (htype : v.HasType s.registry.schema (.scalar c)) (hw : AtValue s.stream) :
    Ends (c.writeValue v) s
      (fun _ => Written P T WroteText (v.encode s.registry.schema (.scalar c)).spelled s)
      (Unwritten P T v.Finite s) := by
  cases v with
  | bool b =>
    cases c with
    | bool => exact wrote_ends_of_stopped hv (Writer.bool_ends b hw)
    | _ => exact htype.elim
  | int n =>
    cases c with
    | signed w | unsigned w => exact wrote_ends_of_stopped hv (Writer.integer_ends n hw)
    | _ => exact htype.elim
  | single bits =>
    cases c with
    | single => exact wrote_ends hv (Writer.float_ends Binary.single bits hw)
    | _ => exact htype.elim
  | double bits =>
    cases c with
    | double => exact wrote_ends hv (Writer.float_ends Binary.double bits hw)
    | _ => exact htype.elim
  | string x =>
    cases c with
    | string => exact wrote_ends_of_stopped hv (Writer.string_ends x hw)
    | _ => exact htype.elim
  | vec | nothing | just | box | map | record => exact htype.elim

/-- Adapters that are not generated move values only of types for which they are asked. -/
theorem Registry.Moves.custom {id : AdapterId} {c : CustomCodec} {r : Registry}
    (h : r.Moves id (.custom c)) (hc : c.serves = t) (hv : r.Valid P) (hn : r.schema.Needs T t)
    (hP : ∀ S c, P S c → S.Needs T c.serves → c.WritesLawfully S) :
    c.WritesLawfully r.schema ∧ ¬Plain P r.schema T := by
  subst hc
  exact ⟨hP _ c (h.fits hv) hn, fun hp => hp.2 c (h.fits hv) hn⟩

/-! ## The absent value -/

/-- The absent value is written as `null`. -/
theorem writeAbsent_ends {id : AdapterId}
    (hP : ∀ S c, P S c → S.Needs T c.serves → c.WritesLawfully S) (hv : s.registry.Valid P)
    (hs : s.registry.serves id t = true) (hn : s.registry.schema.Needs T t)
    (hw : AtValue s.stream) :
    Ends (writeAbsent t id) s (fun _ => Written P T WroteText Tree.null.spelled s)
      (Unwritten P T finite s) := by
  -- only boxes hand on what is absent; for all others, `null` is written
  induction t generalizing s id with
  | box u ih =>
    obtain ⟨c, hm, hc⟩ := Registry.exists_moves hs
    unfold writeAbsent
    refine .congr (bind_of_ok (codecOf_moves hm)) ?_
    cases c with
    | custom c =>
      obtain ⟨hlawful, hp⟩ := hm.custom hc hv hn hP
      exact custom_ends hv hlawful hp nofun hw
    | box u' =>
      cases hc
      have hu := List.mem_singleton.2 (Eq.refl u)
      refine (onPart_ends hv hm hu (.part hn hu)).bind fun inner s₁ _ h₁ => ?_
      obtain ⟨hstream, hsince, hinner⟩ := h₁
      have hnull := ih hsince.valid hinner (hsince.schema ▸ .part hn hu) (hstream ▸ hw)
      refine hnull.mono (fun _ s₂ _ h₂ => ?_) fun e s₂ h₂ => h₂.back hsince fun h => h
      obtain ⟨j, hj, hmeans⟩ := h₂.wrote
      refine ⟨h₂.valid, hsince.grows.trans h₂.grows, j, hstream ▸ hj, fun hp => ?_⟩
      exact hmeans (hp.of_grows hsince.grows)
    | scalar | vec | option | hashMap | treeMap | record => cases hc
  | scalar | vec | option | hashMap | treeMap | record =>
    obtain ⟨c, hm, hc⟩ := Registry.exists_moves hs
    unfold writeAbsent
    refine .congr (bind_of_ok (codecOf_moves hm)) ?_
    cases c with
    | custom c =>
      obtain ⟨hlawful, hp⟩ := hm.custom hc hv hn hP
      exact custom_ends hv hlawful hp nofun hw
    | box u' => cases hc
    | scalar | vec | option | hashMap | treeMap | record =>
      exact wrote_ends_of_stopped hv (Writer.null_ends hw)

/-! ## Present values -/

/-- Adapters of its type write the value. -/
def WritesValue (P : Schema → CustomCodec → Prop) (T : Ty) (v : Value) : Prop :=
  ∀ ⦃s : Session Writer⦄ ⦃id : AdapterId⦄ ⦃t : Ty⦄, s.registry.Valid P →
    s.registry.serves id t = true → s.registry.schema.Needs T t →
    v.HasType s.registry.schema t → AtValue s.stream →
    Ends (writeValue v id) s
      (fun _ => Written P T WroteText (v.encode s.registry.schema t).spelled s)
      (Unwritten P T v.Finite s)

/-- Adapters of their type write the values as the rest of an array. -/
def WritesItems (P : Schema → CustomCodec → Prop) (T : Ty) (vs : List Value) : Prop :=
  ∀ ⦃s : Session Writer⦄ ⦃id : AdapterId⦄ ⦃t : Ty⦄, s.registry.Valid P →
    s.registry.serves id t = true → s.registry.schema.Needs T t →
    Value.HaveType s.registry.schema vs t → BeforeItem s.stream →
    Ends (writeItems vs id) s
      (fun _ => Written P T WroteItems
        (Tree.spelledItems s.stream.due (Value.encodeItems s.registry.schema vs t)) s)
      (Unwritten P T (Value.AllFinite vs) s)

/-- Adapters of the type of their values write the entries as the rest of an object. -/
def WritesEntries (P : Schema → CustomCodec → Prop) (T : Ty) (es : List (String × Value)) : Prop :=
  ∀ ⦃s : Session Writer⦄ ⦃id : AdapterId⦄ ⦃t : Ty⦄, s.registry.Valid P →
    s.registry.serves id t = true → s.registry.schema.Needs T t →
    Value.EntriesHaveType s.registry.schema es t → BeforeName s.stream →
    Ends (writeEntries es id) s
      (fun _ => Written P T WroteMembers
        (Tree.spelledMembers s.stream.due (Value.encodeEntries s.registry.schema es t)) s)
      (Unwritten P T (Value.EntriesFinite es) s)

/-- Adapters of records write the values of fields as the rest of an object. -/
def WritesFields (P : Schema → CustomCodec → Prop) (T : Ty) (vs : List Value) : Prop :=
  ∀ ⦃s : Session Writer⦄ ⦃id : AdapterId⦄ ⦃c : Codec⦄ ⦃fs : List Field⦄, s.registry.Valid P →
    s.registry.Moves id c → (∀ f ∈ fs, f.type ∈ c.parts) →
    (∀ f ∈ fs, s.registry.schema.Needs T f.type) →
    Value.FieldsHaveType s.registry.schema vs fs → BeforeName s.stream →
    Ends (writeFields vs fs id) s
      (fun _ => Written P T WroteMembers
        (Tree.spelledMembers s.stream.due (Value.encodeFields s.registry.schema vs fs)) s)
      (Unwritten P T (Value.AllFinite vs) s)

/-- What was written since, was written from the start, when the stream did not move in between. -/
theorem Written.back {R : κ → Writer → Writer → Prop} {what : κ} {s' : Session Writer}
    (h : Written P T R what s₁ s') (hs : Since P s s₁) (hstream : s₁.stream = s.stream) :
    Written P T R what s s' := by
  obtain ⟨z, hz, hwhat⟩ := h.wrote
  exact ⟨h.valid, hs.grows.trans h.grows, z, hstream ▸ hz, fun hp => hwhat (hp.of_grows hs.grows)⟩

/-- A container is entered, what it holds is written, and it is left. -/
theorem container_ends {R : κ → Writer → Writer → Prop} {c : Container} {leave : WriteM Unit}
    (bracket : String) (what : Due → κ) (whole : κ → Tree × List Char) (body : AdapterM Writer Unit)
    (hv : s.registry.Valid P) (hw : AtValue s.stream)
    (hbody : ∀ s₁ : Session Writer, s₁.registry = s.registry →
      Went s.stream s₁.stream (s.stream.due.comma ++ bracket.toList) (c :: s.stream.containers)
        .first →
      Ends body s₁ (fun _ => Written P T R (what s₁.stream.due) s₁) (Unwritten P T finite s₁))
    (hunbounded : ∀ {z w w'}, R z w w' → w.Unbounded → w'.Unbounded)
    (hleave : ∀ {z w w₁ w₂}, Went w w₁ (w.due.comma ++ bracket.toList) (c :: w.containers) .first →
      R z w₁ w₂ → Ends leave w₂ (fun _ w' => WroteText (whole z) w w') fun e _ => Stopped w₂ e) :
    Ends (do
      onWriter (Writer.enter c bracket)
      body
      onWriter leave) s
      (fun _ => Written P T WroteText (whole (what .first)) s) (Unwritten P T finite s) := by
  refine (onWriter_ends_of_stopped hv (Writer.enter_ends c bracket hw)).bind
    fun _ s₁ _ ⟨hregistry, henter⟩ => ?_
  have hsince : Since P s s₁ := .of_step hv hregistry henter.unbounded
  refine ((hbody s₁ hregistry henter).mono (fun _ _ _ h => h)
    fun e s' h => h.back hsince fun h => h).bind fun _ s₂ _ h₂ => ?_
  obtain ⟨z, hz, hwhat⟩ := h₂.wrote
  -- the registry has grown on the way; what was written before still means the same
  have hsince₂ : Since P s s₂ := hsince.trans ⟨h₂.valid, h₂.grows, hunbounded hz⟩
  refine (onWriter_ends_of_stopped h₂.valid (hleave henter hz)).mono
    (fun _ s₃ _ ⟨hregistry₃, hwrote⟩ => ?_) fun e s' h => h.back hsince₂ fun h => h
  refine ⟨hregistry₃ ▸ h₂.valid, by rw [hregistry₃]; exact hsince₂.grows, _, hwrote, fun hp => ?_⟩
  rw [hwhat (hp.of_grows hsince.grows), henter.due]

/-- An array is entered, its items are written, and it is left. -/
theorem array_ends (body : AdapterM Writer Unit) (js : List Tree) (hv : s.registry.Valid P)
    (hw : AtValue s.stream)
    (hbody : ∀ s₁ : Session Writer, s₁.registry = s.registry → BeforeItem s₁.stream →
      Ends body s₁ (fun _ => Written P T WroteItems (Tree.spelledItems s₁.stream.due js) s₁)
        (Unwritten P T finite s₁)) :
    Ends (do
      onWriter Writer.enterArray
      body
      onWriter Writer.leaveArray) s
      (fun _ => Written P T WroteText (Tree.array js).spelled s)
      (Unwritten P T finite s) :=
  container_ends (R := WroteItems) "[" (fun due => Tree.spelledItems due js)
    (fun z => (.array z.1, '[' :: (z.2 ++ [']']))) body hv hw
    (fun s₁ hregistry henter => hbody s₁ hregistry henter.beforeItem)
    (fun hitems => hitems.2.unbounded) Writer.leaveArray_wrote

/-- An object is entered, its members are written, and it is left. -/
theorem object_ends (body : AdapterM Writer Unit) (ms : List (String × Tree))
    (hv : s.registry.Valid P) (hw : AtValue s.stream)
    (hbody : ∀ s₁ : Session Writer, s₁.registry = s.registry → BeforeName s₁.stream →
      Ends body s₁ (fun _ => Written P T WroteMembers (Tree.spelledMembers s₁.stream.due ms) s₁)
        (Unwritten P T finite s₁)) :
    Ends (do
      onWriter Writer.enterObject
      body
      onWriter Writer.leaveObject) s
      (fun _ => Written P T WroteText (Tree.object ms).spelled s)
      (Unwritten P T finite s) :=
  container_ends (R := WroteMembers) "\x7b" (fun due => Tree.spelledMembers due ms)
    (fun z => (.object z.1, '\x7b' :: (z.2 ++ ['\x7d']))) body hv hw
    (fun s₁ hregistry henter => hbody s₁ hregistry henter.beforeName)
    (fun hmembers => hmembers.2.unbounded) Writer.leaveObject_wrote

/-- The adapter of a part writes what its owner stands for. -/
theorem part_ends {id : AdapterId} {c : Codec} {v : Value} {j : Tree} (hw : WritesValue P T v)
    (hv : s.registry.Valid P) (hm : s.registry.Moves id c) (ht : t ∈ c.parts)
    (hn : s.registry.schema.Needs T t) (htype : v.HasType s.registry.schema t)
    (hr : AtValue s.stream) (hj : v.encode s.registry.schema t = j) :
    Ends (do writeValue v (← onRegistry (Registry.part id t))) s
      (fun _ => Written P T WroteText j.spelled s) (Unwritten P T v.Finite s) := by
  refine (onPart_ends hv hm ht hn).bind fun inner s₁ _ ⟨hstream, hsince, hinner⟩ => ?_
  have hS := hsince.schema
  have hvalue := hw hsince.valid hinner (hS ▸ hn) (hS ▸ htype) (hstream ▸ hr)
  rw [hS, hj] at hvalue
  exact hvalue.mono (fun _ _ _ h => h.back hsince hstream) fun _ _ h => h.back hsince fun h => h

/-- A vector is written as an array of its items. -/
theorem writeVec_ends {vs : List Value} {id : AdapterId} {c : Codec} (hitems : WritesItems P T vs)
    (hv : s.registry.Valid P) (hm : s.registry.Moves id c) (ht : t ∈ c.parts)
    (hn : s.registry.schema.Needs T t) (htype : Value.HaveType s.registry.schema vs t)
    (hw : AtValue s.stream) :
    Ends (do
      let inner ← onRegistry (Registry.part id t)
      onWriter Writer.enterArray
      writeItems vs inner
      onWriter Writer.leaveArray) s
      (fun _ => Written P T WroteText
        (Tree.array (Value.encodeItems s.registry.schema vs t)).spelled s)
      (Unwritten P T (Value.AllFinite vs) s) := by
  refine (onPart_ends hv hm ht hn).bind fun inner s₁ _ ⟨hstream, hsince, hinner⟩ => ?_
  -- asking for the part does not change the schema
  have hS := hsince.schema
  refine Ends.mono (array_ends (writeItems vs inner) (Value.encodeItems s.registry.schema vs t)
    hsince.valid (hstream ▸ hw) fun s₂ hregistry hb => ?_)
    (fun _ _ _ h => h.back hsince hstream) fun _ _ h => h.back hsince fun h => h
  · rw [← hS, ← hregistry]
    have hS₂ : s₂.registry.schema = s.registry.schema := by rw [hregistry, hS]
    exact hitems (hregistry ▸ hsince.valid) (hregistry ▸ hinner) (hS₂ ▸ hn) (hS₂ ▸ htype) hb

/-- A map is written as an object of its entries. -/
theorem writeMap_ends {es : List (String × Value)} {id : AdapterId} {c : Codec}
    (hentries : WritesEntries P T es) (hv : s.registry.Valid P) (hm : s.registry.Moves id c)
    (ht : t ∈ c.parts) (hn : s.registry.schema.Needs T t)
    (htype : Value.EntriesHaveType s.registry.schema es t) (hw : AtValue s.stream) :
    Ends (do
      let inner ← onRegistry (Registry.part id t)
      onWriter Writer.enterObject
      writeEntries es inner
      onWriter Writer.leaveObject) s
      (fun _ => Written P T WroteText
        (Tree.object (Value.encodeEntries s.registry.schema es t)).spelled s)
      (Unwritten P T (Value.EntriesFinite es) s) := by
  refine (onPart_ends hv hm ht hn).bind fun inner s₁ _ ⟨hstream, hsince, hinner⟩ => ?_
  have hS := hsince.schema
  refine Ends.mono (object_ends (writeEntries es inner)
    (Value.encodeEntries s.registry.schema es t) hsince.valid (hstream ▸ hw)
    fun s₂ hregistry hb => ?_)
    (fun _ _ _ h => h.back hsince hstream) fun _ _ h => h.back hsince fun h => h
  · rw [← hS, ← hregistry]
    have hS₂ : s₂.registry.schema = s.registry.schema := by rw [hregistry, hS]
    exact hentries (hregistry ▸ hsince.valid) (hregistry ▸ hinner) (hS₂ ▸ hn) (hS₂ ▸ htype) hb

/-- A record is written as an object of its fields. -/
theorem writeRecord_ends {vs skipped : List Value} {id : AdapterId}
    {r : Record} (hfields : WritesFields P T vs) (hv : s.registry.Valid P)
    (hm : s.registry.Moves id (.record r)) (hfind : s.registry.schema.find? r.id = some r)
    (hneeds : ∀ u ∈ r.slots, s.registry.schema.Needs T u)
    (htype : (Value.record vs skipped).HasType s.registry.schema (.record r.id))
    (hw : AtValue s.stream) :
    Ends (do
      onWriter Writer.enterObject
      writeFields vs r.fields id
      onWriter Writer.leaveObject) s
      (fun _ => Written P T WroteText
        ((Value.record vs skipped).encode s.registry.schema (.record r.id)).spelled s)
      (Unwritten P T (Value.AllFinite vs) s) := by
  -- no part is asked for here: each field asks for its own
  have hslots (f : Field) (hf : f ∈ r.fields) : f.type ∈ r.slots :=
    Record.mem_slots.2 ⟨f, hf, rfl⟩
  obtain ⟨r', hr', hfieldsType⟩ := htype
  obtain rfl : r = r' := Option.some.inj (hfind.symm.trans hr')
  rw [Value.encode_record hfind]
  refine object_ends _ _ hv hw fun s₁ hregistry hb => ?_
  have hm₁ : s₁.registry.Moves id (.record r) := hregistry ▸ hm
  rw [← hregistry]
  exact hfields (hregistry ▸ hv) hm₁ hslots
    (fun f hf => hregistry ▸ hneeds f.type (hslots f hf)) (hregistry ▸ hfieldsType) hb

/-- Adapters of all kinds write a value, when what it holds is written. -/
theorem writesValue_of_parts {v : Value}
    (hP : ∀ S c, P S c → S.Needs T c.serves → c.WritesLawfully S)
    (hitems : ∀ vs, v = .vec vs → WritesItems P T vs)
    (hentries : ∀ es, v = .map es → WritesEntries P T es)
    (hjust : ∀ w, v = .just w → WritesValue P T w) (hbox : ∀ w, v = .box w → WritesValue P T w)
    (hfields : ∀ vs skipped, v = .record vs skipped → WritesFields P T vs) :
    WritesValue P T v := by
  intro s id t hv hs hn htype hw
  obtain ⟨c, hm, hc⟩ := Registry.exists_moves hs
  have hfits := hm.fits hv
  have hparts (u : Ty) (hu : u ∈ c.parts) : s.registry.schema.Needs T u :=
    .part hn (hc ▸ hfits.parts_subset hu)
  rw [writeValue.eq_def]
  refine .congr (bind_of_ok (codecOf_moves hm)) ?_
  -- one case for each kind of adapter; values of another form are not of its type
  cases c with
  | custom c =>
    obtain ⟨hlawful, hp⟩ := hm.custom hc hv hn hP
    refine custom_ends hv hlawful hp (fun x hx => ?_) hw
    cases hx
    rw [show c.serves = t from hc]
    exact htype
  | scalar c =>
    subst hc
    exact c.writeValue_ends v hv htype hw
  | vec u =>
    subst hc
    have hu := List.mem_singleton.2 (Eq.refl u)
    cases v with
    | vec vs => exact writeVec_ends (hitems vs rfl) hv hm hu (hparts u hu) htype hw
    | _ => exact htype.elim
  | hashMap u | treeMap u =>
    subst hc
    have hu := List.mem_singleton.2 (Eq.refl u)
    cases v with
    | map es => exact writeMap_ends (hentries es rfl) hv hm hu (hparts u hu) htype.1 hw
    | _ => exact htype.elim
  | option u =>
    subst hc
    have hu := List.mem_singleton.2 (Eq.refl u)
    cases v with
    | just w => exact part_ends (hjust w rfl) hv hm hu (hparts u hu) htype hw rfl
    | nothing => exact wrote_ends_of_stopped hv (Writer.null_ends hw)
    | _ => exact htype.elim
  | box u =>
    subst hc
    have hu := List.mem_singleton.2 (Eq.refl u)
    cases v with
    | box w => exact part_ends (hbox w rfl) hv hm hu (hparts u hu) htype hw rfl
    | _ => exact htype.elim
  | record r =>
    subst hc
    cases v with
    | record vs skipped =>
      exact writeRecord_ends (hfields vs skipped rfl) hv hm hfits hparts htype hw
    | _ => exact htype.elim

/-- One item is written, and then the others. -/
theorem WritesItems.cons {v : Value} {vs : List Value} (hv : WritesValue P T v)
    (hvs : WritesItems P T vs) : WritesItems P T (v :: vs) := by
  intro s id t hvalid hs hn ⟨htype, htypes⟩ hb
  rw [writeItems]
  refine ((hv hvalid hs hn htype hb.atValue).mono (fun _ _ _ h => h)
    fun e s' h => h.back (.refl hvalid) fun h => h.1).bind fun _ s₁ _ h₁ => ?_
  -- the others start from a registry to which adapters may have been added
  obtain ⟨z, hz, hmeans⟩ := h₁.wrote
  have hsince : Since P s s₁ := ⟨h₁.valid, h₁.grows, hz.2.unbounded⟩
  have hS := hsince.schema
  obtain ⟨hb₁, hdue⟩ := hz.beforeItem hb
  refine (hvs h₁.valid (h₁.grows.serves hs) (hS ▸ hn) (hS ▸ htypes) hb₁).mono
    (fun _ s₂ _ h₂ => ?_) fun e s' h => h.back hsince fun h => h.2
  obtain ⟨zs, hzs, hmeans'⟩ := h₂.wrote
  refine ⟨h₂.valid, hsince.grows.trans h₂.grows, _, .cons hb hz hzs, fun hp => ?_⟩
  rw [hmeans hp, hmeans' (hp.of_grows hsince.grows), hS, hdue]
  rfl

theorem WritesItems.nil : WritesItems P T [] :=
  fun s _ _ hv _ _ _ _ => .pure ⟨hv, .refl _, _, .nil s.stream, fun _ => rfl⟩

/-- One entry is written, and then the others. -/
theorem WritesEntries.cons {key : String} {v : Value} {es : List (String × Value)}
    (hv : WritesValue P T v) (hes : WritesEntries P T es) :
    WritesEntries P T ((key, v) :: es) := by
  intro s id t hvalid hs hn ⟨htype, htypes⟩ hb
  rw [writeEntries]
  refine (onWriter_ends_of_stopped hvalid (Writer.name_ends key hb)).bind
    fun _ s₁ _ ⟨hregistry, hname⟩ => ?_
  -- name, value and further entries are written, each in a later registry
  have hsince₁ : Since P s s₁ := .of_step hvalid hregistry hname.unbounded
  refine ((hv hsince₁.valid (hregistry ▸ hs) (hregistry ▸ hn) (hregistry ▸ htype)
    (Writer.atValue_of_memberValue hname.due)).mono (fun _ _ _ h => h)
    fun e s' h => h.back hsince₁ fun h => h.1).bind fun _ s₂ _ h₂ => ?_
  obtain ⟨z, hz, hmeans⟩ := h₂.wrote
  have hsince₂ : Since P s s₂ := hsince₁.trans ⟨h₂.valid, h₂.grows, hz.2.unbounded⟩
  have hS := hsince₂.schema
  obtain ⟨hb₂, hdue⟩ := WroteText.beforeName hb hname hz
  refine (hes h₂.valid (hsince₂.grows.serves hs) (hS ▸ hn) (hS ▸ htypes) hb₂).mono
    (fun _ s₃ _ h₃ => ?_) fun e s' h => h.back hsince₂ fun h => h.2
  obtain ⟨zs, hzs, hmeans'⟩ := h₃.wrote
  refine ⟨h₃.valid, hsince₂.grows.trans h₃.grows, _, .cons hb hname hz hzs, fun hp => ?_⟩
  rw [hmeans (hp.of_grows hsince₁.grows), hmeans' (hp.of_grows hsince₂.grows), hsince₁.schema, hS,
    hdue]
  rfl

theorem WritesEntries.nil : WritesEntries P T [] :=
  fun s _ _ hv _ _ _ _ => .pure ⟨hv, .refl _, _, .nil s.stream, fun _ => rfl⟩

/-- What a field holds is written with the adapter of the type of its member, and then the rest. -/
theorem writeField_ends (finite : Prop) {f : Field} {v : Value} {id : AdapterId}
    {rest : Unit → AdapterM Writer Unit} {post : Session Writer → Prop}
    (hP : ∀ S c, P S c → S.Needs T c.serves → c.WritesLawfully S) (hw : WritesValue P T v)
    (hjust : ∀ w, v = .just w → WritesValue P T w) (hv : s.registry.Valid P)
    (hs : s.registry.serves id f.type = true) (hn : s.registry.schema.Needs T f.type)
    (htype : v.HasType s.registry.schema f.declared) (hr : AtValue s.stream)
    (hfinite : finite → v.Finite)
    (hrest : ∀ s', Written P T WroteText (v.encode s.registry.schema f.declared).spelled s s' →
      Ends (rest ()) s' (fun _ => post) (Unwritten P T finite s)) :
    Ends (match f.nullable, v with
      | true, .nothing => writeAbsent f.type id >>= rest
      | true, .just w => writeValue w id >>= rest
      | true, _ => throw .misuse >>= rest
      | false, v => writeValue v id >>= rest) s (fun _ => post) (Unwritten P T finite s) := by
  have hseq {x : AdapterM Writer Unit}
      (hx : Ends x s
        (fun _ => Written P T WroteText (v.encode s.registry.schema f.declared).spelled s)
        (Unwritten P T v.Finite s)) :
      Ends (x >>= rest) s (fun _ => post) (Unwritten P T finite s) :=
    (hx.mono (fun _ _ _ h => h) fun _ _ h => h.back (.refl hv) hfinite).bind
      fun _ s' _ h => hrest s' h
  cases hf : f.nullable with
  | false =>
    rw [Field.declared_eq_type hf] at htype hseq
    exact hseq (hw hv hs hn htype hr)
  -- a nullable field holds an option of what its adapter writes
  | true =>
    rw [Field.declared_eq_option hf] at htype hseq
    cases v with
    | nothing => exact hseq (writeAbsent_ends hP hv hs hn hr)
    | just w => exact hseq (hjust w rfl hv hs hn htype hr)
    | _ => exact htype.elim

/-- One field is written, and then the others. -/
theorem WritesFields.cons {v : Value} {vs : List Value}
    (hP : ∀ S c, P S c → S.Needs T c.serves → c.WritesLawfully S) (hv : WritesValue P T v)
    (hjust : ∀ w, v = .just w → WritesValue P T w) (hvs : WritesFields P T vs) :
    WritesFields P T (v :: vs) := by
  intro s id c fs hvalid hm hparts hneeds htypes hb
  cases fs with
  | nil => exact htypes.elim
  | cons f fs =>
  obtain ⟨htype, htypes⟩ := htypes
  have hf : f ∈ f :: fs := List.mem_cons_self
  rw [writeFields]
  refine (onWriter_ends_of_stopped hvalid (Writer.name_ends f.key hb)).bind
    fun _ s₁ _ ⟨hregistry, hname⟩ => ?_
  have hsince₁ : Since P s s₁ := .of_step hvalid hregistry hname.unbounded
  have hS₁ := hsince₁.schema
  refine ((onPart_ends hsince₁.valid (hregistry ▸ hm) (hparts f hf) (hS₁ ▸ hneeds f hf)).mono
    (fun _ _ _ h => h) fun e s' h => h.back hsince₁ fun h => h).bind
    fun inner s₂ _ ⟨hstream, hsince₂, hinner⟩ => ?_
  have hsince₂ := hsince₁.trans hsince₂
  have hS₂ := hsince₂.schema
  -- the adapter of the field is there, and the name is written
  refine (writeField_ends (Value.AllFinite (v :: vs)) hP hv hjust hsince₂.valid hinner
    (hS₂ ▸ hneeds f hf) (hS₂ ▸ htype) (hstream ▸ Writer.atValue_of_memberValue hname.due)
    (fun h => h.1) fun s₃ h₃ => ?_).mono (fun _ _ _ h => h) fun e s' h => h.back hsince₂ fun h => h
  obtain ⟨z, hz, hmeans⟩ := h₃.wrote
  have hsince₃ : Since P s₂ s₃ := ⟨h₃.valid, h₃.grows, hz.2.unbounded⟩
  have hS₃ := hsince₃.schema.trans hS₂
  have hz' : WroteText z s₁.stream s₃.stream := hstream ▸ hz
  obtain ⟨hb₃, hdue⟩ := WroteText.beforeName hb hname hz'
  refine (hvs h₃.valid (Registry.Moves.grows hm (hsince₂.grows.trans h₃.grows))
    (fun g hg => hparts g (.tail f hg)) (fun g hg => hS₃ ▸ hneeds g (.tail f hg)) (hS₃ ▸ htypes)
    hb₃).mono (fun _ s₄ _ h₄ => ?_) fun e s' h => h.back hsince₃ fun h => h.2
  obtain ⟨zs, hzs, hmeans'⟩ := h₄.wrote
  refine ⟨h₄.valid, (hsince₂.grows.trans h₃.grows).trans h₄.grows, _, .cons hb hname hz' hzs,
    fun hp => ?_⟩
  rw [hmeans (hp.of_grows hsince₂.grows), hmeans' (hp.of_grows (hsince₂.grows.trans h₃.grows)), hS₂,
    hS₃, hdue]
  rfl

theorem WritesFields.nil : WritesFields P T [] := by
  intro s id c fs hv _ _ _ htypes _
  cases fs with
  | cons => exact htypes.elim
  | nil => exact .pure ⟨hv, .refl _, _, .nil s.stream, fun _ => rfl⟩

/-! ## All values -/

mutual

/-- Adapters write every value of their type. -/
theorem writesValue (hP : ∀ S c, P S c → S.Needs T c.serves → c.WritesLawfully S) :
    (v : Value) → WritesValue P T v
  | .vec vs => writesValue_of_parts hP (fun _ h => Value.vec.inj h ▸ writesItems hP vs)
      nofun nofun nofun nofun
  | .map es => writesValue_of_parts hP nofun (fun _ h => Value.map.inj h ▸ writesEntries hP es)
      nofun nofun nofun
  | .just w => writesValue_of_parts hP nofun nofun (fun _ h => Value.just.inj h ▸ writesValue hP w)
      nofun nofun
  | .box w => writesValue_of_parts hP nofun nofun nofun
      (fun _ h => Value.box.inj h ▸ writesValue hP w) nofun
  | .record vs _ => writesValue_of_parts hP nofun nofun nofun nofun
      (fun _ _ h => (Value.record.inj h).1 ▸ writesFields hP vs)
  | .bool _ | .int _ | .single _ | .double _ | .string _ | .nothing =>
    writesValue_of_parts hP nofun nofun nofun nofun nofun

theorem writesItems (hP : ∀ S c, P S c → S.Needs T c.serves → c.WritesLawfully S) :
    (vs : List Value) → WritesItems P T vs
  | [] => .nil
  | v :: vs => (writesItems hP vs).cons (writesValue hP v)

theorem writesEntries (hP : ∀ S c, P S c → S.Needs T c.serves → c.WritesLawfully S) :
    (es : List (String × Value)) → WritesEntries P T es
  | [] => .nil
  | (_, v) :: es => (writesEntries hP es).cons (writesValue hP v)

theorem writesFields (hP : ∀ S c, P S c → S.Needs T c.serves → c.WritesLawfully S) :
    (vs : List Value) → WritesFields P T vs
  | [] => .nil
  | v :: vs => .cons hP (writesValue hP v)
      (fun _ h => match v, h with | .just w, h => Value.just.inj h ▸ writesValue hP w)
      (writesFields hP vs)

end

/-- Adapters write every value of their type, and the absent one, as the compact text of its
tree. -/
theorem writeOption_spells {id : AdapterId} {v : Option Value}
    (hP : ∀ S c, P S c → S.Needs T c.serves → c.WritesLawfully S) (hv : s.registry.Valid P)
    (hs : s.registry.serves id t = true) (hn : s.registry.schema.Needs T t)
    (htype : ∀ x, v = some x → x.HasType s.registry.schema t) (hw : AtValue s.stream) :
    Ends (writeOption t v id) s
      (fun _ => Written P T WroteText (Value.encodeOption s.registry.schema t v).spelled s)
      (Unwritten P T (∀ x, v = some x → x.Finite) s) := by
  cases v with
  | none => exact writeAbsent_ends hP hv hs hn hw
  | some v =>
    refine (writesValue hP v hv hs hn (htype v rfl) hw).mono (fun _ _ _ h => h) fun _ _ h => ?_
    exact h.back (.refl hv) fun hfinite => hfinite v rfl

/-- The text of what was written left out. -/
theorem Written.wrote_tree {j : Tree} {s' : Session Writer}
    (h : Written P T WroteText j.spelled s s') : Written P T Wrote j s s' := by
  obtain ⟨z, hz, hmeans⟩ := h.wrote
  exact ⟨h.valid, h.grows, z.1, hz.wrote, fun hp => congrArg Prod.fst (hmeans hp)⟩

/-- Adapters write every value of their type, and the absent one. -/
theorem writeOption_ends {id : AdapterId} {v : Option Value}
    (hP : ∀ S c, P S c → S.Needs T c.serves → c.WritesLawfully S) (hv : s.registry.Valid P)
    (hs : s.registry.serves id t = true) (hn : s.registry.schema.Needs T t)
    (htype : ∀ x, v = some x → x.HasType s.registry.schema t) (hw : AtValue s.stream) :
    Ends (writeOption t v id) s
      (fun _ => Written P T Wrote (Value.encodeOption s.registry.schema t v) s)
      (Unwritten P T (∀ x, v = some x → x.Finite) s) :=
  (writeOption_spells hP hv hs hn htype hw).mono (fun _ _ _ h => h.wrote_tree) fun _ _ h => h

end JsonAdapters
