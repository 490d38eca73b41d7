import JsonAdapters.Proofs.Json.Facing
import JsonAdapters.Proofs.Samples.Factories

/-!
# Documents

A registry reads a source as a value of a type by one pass over its characters. What comes out is
what decoding says of the one tree that the source is a document of. A registry writes a value of
a type as a document of the value's tree.

## Main definitions

* `Holds`: a source is a document that is not too deep.
* `Delivered`: all of the text of a value is at the sink.

## Main statements

* `readDocument_asks`, `readDocument_ends`: all outcomes of reading a document.
* `Registry.decode_eq_ok_iff`, `Registry.decode_eq_ok_iff_answersAll`, `Registry.decode_text`:
  reading against decoding.
* `writeDocument_delivers`, `writeDocument_ends`: all outcomes of writing a document.
* `Registry.encode_document`, `Registry.encode_eq_compact`, `Registry.encode_eq_ok`: the text of a
  value.
-/

namespace JsonAdapters

open Json (IsDocument Lead Reader Sink Source Spells SpellsMembers Tree Writer maxDepth quote
  quote_spells)
open Json.Reader (Passes)
open Outcome
open Registry (Grows Valid)
open Samples (registryOf registryOf_valid_of_tables schema_sound string treeNodeId)

variable {P : Schema → CustomCodec → Prop} {T : Ty} {r : Registry}

/-- The source is a document of the tree, and no deeper than readers go. -/
structure Holds (source : Source) (j : Tree) : Prop where
  document : IsDocument j source.chars
  finished : source.ending = .finished
  depth : j.depth ≤ maxDepth

theorem Holds.unique {source : Source} {j k : Tree} (hj : Holds source j) (hk : Holds source k) :
    j = k :=
  hk.document.eq_of_depth hj.document hj.depth

/-- The registry answers the request for the type, and all requests that are made on the way when
the tree is read. -/
def Registry.AnswersAll (r : Registry) (T : Ty) (j : Tree) : Prop :=
  r.Answers T ∧ j.AsksOnly r.Answers r.schema T

theorem Served.answersAll (h : Served r T) (j : Tree) : r.AnswersAll T j :=
  ⟨.inr (h.2 T .self), Tree.asksOnly_of_needs fun t ht => .inr (h.2 t ht)⟩

/-- A source is read as what its document stands for, and then all requests were answered; or it is
not read and its document stands for nothing, or is none, or a request was not answered. -/
theorem readDocument_asks (hP : ∀ S c, P S c → S.Needs T c.serves → c.ReadsLawfully)
    (hv : r.Valid P) (source : Source) :
    Ends (readDocument T) ⟨r, Reader.ofSource source⟩
      (fun v s => s.registry.Valid P ∧ Grows r s.registry ∧ ∃ j, Holds source j ∧
        (Plain P r.schema T →
          j.decode r.schema T = some v ∧ (r.Remembers → r.AnswersAll T j)))
      (fun e s => s.registry.Valid P ∧ Grows r s.registry ∧ e.Innocent s.registry ∧
        (Plain P r.schema T → r.alive = true → ∀ j, Holds source j → j.Supported →
          r.AnswersAll T j → j.decode r.schema T = none)) := by
  have hrequest := hv.adapter_ends T
  have hr := Reader.ofSource_atValue source
  cases ha : Registry.adapter T r with
  | error e r₁ =>
    have hunanswered := hrequest.error ha
    obtain rfl := hunanswered.unchanged
    -- there is no adapter for the type, and nothing was read
    exact .of_error (bind_of_error (onRegistry_error ha)) ⟨hv, .refl _, hunanswered.innocent,
      fun _ hlive _ _ _ ho => absurd ⟨hlive, ho.1⟩ hunanswered.none⟩
  | ok id r₁ =>
    have hobtained := hrequest.ok ha
    have hg₁ := hobtained.grows
    refine .congr (bind_of_ok (onRegistry_ok ha)) ?_
    have hread := readWith_refines (s := ⟨r₁, Reader.ofSource source⟩) hP hobtained.valid
      hobtained.serves hr
    refine Ends.bind (hread.mono (fun _ _ _ ha => ha) fun e s he => ?_) fun v s _ ha => ?_
    -- any document would have been passed by the adapter
    · refine ⟨he.valid, hg₁.trans he.grows, he.innocent, fun hp hs j hj hj' ho => ?_⟩
      obtain ⟨r', -, hpass, -⟩ := Reader.passes_finish_iff.2 ⟨hj.document, hj.finished, hj.depth⟩
      have hnone := he.none (hp.of_grows hg₁) (hg₁.alive.trans hs) j r' hpass hj'
        ((Passage.open_of_grows hg₁).2 ho.2)
      rwa [hg₁.schema] at hnone
    · obtain ⟨j, hj, hmeans⟩ := ha.passed
      have hdecode (hp : Plain P r.schema T) :
          j.decode r.schema T = some v ∧ (r.Remembers → r.AnswersAll T j) := by
        obtain ⟨hmeans, ho⟩ := hmeans (hp.of_grows hg₁)
        rw [hg₁.schema] at hmeans
        exact ⟨hmeans, fun hr => ⟨hobtained.answers hr,
          (Passage.open_of_grows hg₁).1 (ho (hg₁.remembers hr))⟩⟩
      have hdue := hj.due_of_top hr rfl
      refine ends_onReader (fun _ r' hf => .pure ?_) fun e r' hf => ?_
      · obtain ⟨hdoc, hfin, hdepth⟩ := Reader.passes_finish_iff.1 ⟨_, r', hj, hf⟩
        exact ⟨ha.valid, hg₁.trans ha.grows, j, ⟨hdoc, hfin, hdepth⟩, hdecode⟩
      · refine ⟨ha.valid, hg₁.trans ha.grows,
          AdapterFailure.ofRead_innocent (Reader.finish_innocent hdue hf), fun _ _ k hk _ _ => ?_⟩
        -- a document would start with the value that was read, and nothing would stand behind it
        obtain ⟨a, b, hk, hf'⟩ := Reader.passes_finish_iff.2 ⟨hk.document, hk.finished, hk.depth⟩
        obtain ⟨-, rfl⟩ := hk.unique hj
        cases hf.symm.trans hf'

/-- A source is read as what its document stands for, or it is not read and its document stands for
nothing, or is none. -/
theorem readDocument_ends (hP : ∀ S c, P S c → S.Needs T c.serves → c.ReadsLawfully)
    (hv : r.Valid P) (source : Source) :
    Ends (readDocument T) ⟨r, Reader.ofSource source⟩
      (fun v s => s.registry.Valid P ∧ Grows r s.registry ∧ ∃ j, Holds source j ∧
        (Plain P r.schema T → j.decode r.schema T = some v))
      (fun e s => s.registry.Valid P ∧ Grows r s.registry ∧ e.Innocent s.registry ∧
        (Plain P r.schema T → Served r T → ∀ j, Holds source j → j.Supported →
          j.decode r.schema T = none)) := by
  refine (readDocument_asks hP hv source).mono (fun v s _ h => ?_) fun e s h => ?_
  · obtain ⟨hv', hg, j, hj, hdecode⟩ := h
    exact ⟨hv', hg, j, hj, fun hp => (hdecode hp).1⟩
  · obtain ⟨hv', hg, hi, hnone⟩ := h
    exact ⟨hv', hg, hi, fun hp hs j hj hj' => hnone hp hs.1 j hj hj' (hs.answersAll j)⟩

/-- What a request to read a document answers, in terms of the run. -/
theorem Registry.decode_fst (r : Registry) (T : Ty) (source : Source) :
    (r.decode T source).1 = match readDocument T ⟨r, Reader.ofSource source⟩ with
      | .ok v _ => .ok v
      | .error e _ => .error e := by
  rw [Registry.decode, Registry.run]
  cases readDocument T ⟨r, Reader.ofSource source⟩ <;> rfl

/-- A document that is read ends its run, and the run leaves the registry behind. -/
theorem Registry.readDocument_of_decode {source : Source} {v : Option Value}
    (h : (r.decode T source).1 = .ok v) :
    ∃ stream, readDocument T ⟨r, Reader.ofSource source⟩ =
      .ok v ⟨(r.decode T source).2, stream⟩ := by
  rw [Registry.decode, Registry.run] at h ⊢
  cases hrun : readDocument T ⟨r, Reader.ofSource source⟩ with
  | ok w s =>
    rw [hrun] at h
    cases h
    exact ⟨s.stream, rfl⟩
  | error e s =>
    rw [hrun] at h
    cases h

/-- A document that is not read fails its run. -/
theorem Registry.readDocument_of_decode_error {source : Source} {e : AdapterFailure}
    (h : (r.decode T source).1 = .error e) :
    ∃ s, readDocument T ⟨r, Reader.ofSource source⟩ = .error e s := by
  rw [Registry.decode_fst] at h
  cases hrun : readDocument T ⟨r, Reader.ofSource source⟩ with
  | ok w s =>
    rw [hrun] at h
    cases h
  | error e' s =>
    rw [hrun] at h
    cases h
    exact ⟨s, rfl⟩

/-- A document is read as what its tree stands for. -/
theorem Registry.decode_eq_ok_iff
    (hP : ∀ S c, P S c → S.Needs T c.serves → c.ReadsLawfully) (hv : r.Valid P)
    (hp : Plain P r.schema T) (hs : Served r T) {source : Source} {j : Tree}
    (hj : Holds source j) (hj' : j.Supported) {v : Option Value} :
    (r.decode T source).1 = .ok v ↔ j.decode r.schema T = some v := by
  have hends := readDocument_ends hP hv source
  rw [Registry.decode_fst]
  cases hrun : readDocument T ⟨r, Reader.ofSource source⟩ with
  | ok w s =>
    obtain ⟨-, -, k, hk, hdecode⟩ := hends.ok hrun
    rw [hj.unique hk, hdecode hp]
    simp
  | error e s =>
    rw [(hends.error hrun).2.2.2 hp hs j hj hj']
    simp

/-- A request to read a document leaves a valid registry behind, whatever it answers. -/
theorem Registry.decode_grows (hP : ∀ S c, P S c → S.Needs T c.serves → c.ReadsLawfully)
    (hv : r.Valid P) (source : Source) :
    (r.decode T source).2.Valid P ∧ Grows r (r.decode T source).2 := by
  have hends := readDocument_ends hP hv source
  rw [Registry.decode, Registry.run]
  cases hrun : readDocument T ⟨r, Reader.ofSource source⟩ with
  | ok v s => exact ⟨(hends.ok hrun).1, (hends.ok hrun).2.1⟩
  | error e s => exact ⟨(hends.error hrun).1, (hends.error hrun).2.1⟩

/-- A registry that remembers its answers reads a document as the value that its tree stands for,
as long as all requests are answered that are made on the way. -/
theorem Registry.decode_eq_ok_iff_answersAll
    (hP : ∀ S c, P S c → S.Needs T c.serves → c.ReadsLawfully) (hv : r.Valid P)
    (hp : Plain P r.schema T) (halive : r.alive = true) (hremembers : r.Remembers)
    {source : Source} {j : Tree} (hj : Holds source j) (hj' : j.Supported) {v : Option Value} :
    (r.decode T source).1 = .ok v ↔ r.AnswersAll T j ∧ j.decode r.schema T = some v := by
  have hends := readDocument_asks hP hv source
  rw [Registry.decode_fst]
  cases hrun : readDocument T ⟨r, Reader.ofSource source⟩ with
  | ok w s =>
    obtain ⟨-, -, k, hk, hdecode⟩ := hends.ok hrun
    obtain rfl := hj.unique hk
    obtain ⟨hdecode, hanswers⟩ := hdecode hp
    rw [hdecode, and_iff_right (hanswers hremembers)]
    simp
  | error e s =>
    have hnone := (hends.error hrun).2.2.2 hp halive j hj hj'
    refine iff_of_false nofun fun h => ?_
    cases (hnone h.1).symm.trans h.2

/-- A text is read as what its tree stands for, and a text that is no document is not read. -/
theorem Registry.decode_text (hv : r.Valid fun S c => ¬S.Needs T c.serves)
    (hsound : r.schema.Sound) (hs : Served r T) (text : String) :
    (∀ j, IsDocument j text.toList → j.depth ≤ maxDepth → j.Supported → ∀ v,
      (r.decode T (.ofText text)).1 = .ok v ↔ j.decode r.schema T = some v) ∧
    ((∀ j, ¬IsDocument j text.toList) → ∀ v, (r.decode T (.ofText text)).1 ≠ .ok v) := by
  have hP (S : Schema) (c : CustomCodec) (h : ¬S.Needs T c.serves) (h' : S.Needs T c.serves) :
      c.ReadsLawfully := absurd h' h
  refine ⟨fun j hj hdepth hj' v => ?_, fun hno v hok => ?_⟩
  · exact Registry.decode_eq_ok_iff hP hv ⟨hsound, fun _ h => h⟩ hs ⟨hj, rfl, hdepth⟩ hj'
  · obtain ⟨stream, hrun⟩ := Registry.readDocument_of_decode hok
    obtain ⟨-, -, j, hj, -⟩ := (readDocument_ends hP hv (.ofText text)).ok hrun
    exact hno j hj.document

/-- The later of two members for one field is read, in a registry of one dispatch table. -/
theorem Samples.decode_treeNode :
    ((registryOf ["provider"]).decode (.record treeNodeId)
      (.ofText "\x7b\"name\":\"x\",\"children\":[],\"name\":\"y\"\x7d")).1 =
      .ok (some (.record [.string "y", .vec []] [])) := by
  have hserved : Served (registryOf ["provider"]) (.record treeNodeId) :=
    .of_closed (L := [.record treeNodeId, string, .vec (.record treeNodeId)]) rfl (by decide)
      (by decide) (by decide)
  have hcolon : Lead .memberValue [':'] := ⟨[], [], rfl, nofun, nofun⟩
  have hcomma : Lead .further [','] := ⟨[], [], rfl, nofun, nofun⟩
  -- the grammar is followed by hand: name, colon, value and comma, member by member
  have hspells : SpellsMembers .first
      [("name", .string "x"), ("children", .array []), ("name", .string "y")]
      ((quote "name").toList ++ ([':'] ++ ((quote "x").toList ++ ([','] ++
        ((quote "children").toList ++ ([':'] ++ (['[', ']'] ++ ([','] ++
        ((quote "name").toList ++ ([':'] ++ ((quote "y").toList ++ []))))))))))) :=
    ⟨[], _, _, _, _, rfl, nofun, quote_spells "name", hcolon, quote_spells "x",
      _, _, _, _, _, rfl, hcomma, quote_spells "children", hcolon, ⟨[], rfl, nofun⟩,
      _, _, _, _, _, rfl, hcomma, quote_spells "name", hcolon, quote_spells "y", nofun⟩
  have hdoc : IsDocument
      (.object [("name", .string "x"), ("children", .array []), ("name", .string "y")])
      "\x7b\"name\":\"x\",\"children\":[],\"name\":\"y\"\x7d".toList :=
    Spells.isDocument ⟨_, by decide, hspells⟩
  refine ((Registry.decode_text ?_ schema_sound hserved _).1 _ hdoc ?_ ?_ _).2 rfl
  · exact registryOf_valid_of_tables (by decide)
  · decide
  · simp [Tree.Supported, Tree.SupportedMembers, Tree.SupportedItems]

/-! ## Writing -/

/-- A document was written and delivered, and unless other adapters were at work, it is the compact
text of this tree. -/
structure Delivered (P : Schema → CustomCodec → Prop) (T : Ty) (j : Tree) (r : Registry)
    (s : Session Writer) : Prop where
  valid : s.registry.Valid P
  grows : Grows r s.registry
  delivered : s.stream.delivered = s.stream.text.utf8ByteSize
  document : ∃ k, IsDocument k s.stream.text.toList ∧
    (Plain P r.schema T → k = j ∧ s.stream.text.toList = j.compact)

/-- A value is written as the compact text of its tree, or it is not written, for which there is a
reason. -/
theorem writeDocument_delivers {v : Option Value}
    (hP : ∀ S c, P S c → S.Needs T c.serves → c.WritesLawfully S) (hv : r.Valid P)
    (htype : ∀ x, v = some x → x.HasType r.schema T) (sink : Sink) :
    Ends (writeDocument T v) ⟨r, Writer.ofSink sink⟩
      (fun _ => Delivered P T (Value.encodeOption r.schema T v) r)
      (Unwritten P T (∀ x, v = some x → x.Finite) ⟨r, Writer.ofSink sink⟩) := by
  have hrequest := hv.adapter_ends T
  have hw := Writer.ofSink_atValue sink
  cases ha : Registry.adapter T r with
  | error e r₁ =>
    have hunanswered := hrequest.error ha
    obtain rfl := hunanswered.unchanged
    -- there is no adapter for the type, and nothing was written
    refine .of_error (bind_of_error (onRegistry_error ha))
      ⟨hv, .refl _, hunanswered.reported, hunanswered.ofRequest.readable, ?_⟩
    rintro ⟨-, hserved, -⟩
    exact hunanswered.none ⟨hserved.1, .inr (hserved.2 T .self)⟩
  | ok id r₁ =>
    obtain ⟨hv₁, hg₁, hs₁, -⟩ := hrequest.ok ha
    have hsince : Since P (⟨r, Writer.ofSink sink⟩ : Session Writer) ⟨r₁, Writer.ofSink sink⟩ :=
      ⟨hv₁, hg₁, fun h => h⟩
    refine .congr (bind_of_ok (onRegistry_ok ha)) ?_
    have hwrite := writeOption_spells (s := ⟨r₁, Writer.ofSink sink⟩) (v := v) hP hv₁ hs₁ .self
      (hg₁.schema ▸ htype) hw
    refine (hwrite.mono (fun _ _ _ h => h) fun e s h => h.back hsince fun h => h).bind
      fun _ s _ hs => ?_
    obtain ⟨z, hz, hmeans⟩ := hs.wrote
    have hsince₂ : Since P (⟨r, Writer.ofSink sink⟩ : Session Writer) s :=
      hsince.trans ⟨hs.valid, hs.grows, hz.2.unbounded⟩
    refine (onWriter_ends_of_stopped hs.valid (Writer.finish_ends (hz.wrote.due_of_top rfl))).mono
      (fun _ s' _ h => ?_) fun e s' h => h.back hsince₂ fun h => h
    obtain ⟨hregistry, htext, hall⟩ := h
    refine ⟨hregistry ▸ hs.valid, hregistry ▸ hsince₂.grows, htext ▸ hall, z.1,
      htext ▸ hz.wrote.isDocument, fun hp => ?_⟩
    have hmeans := hmeans (hp.of_grows hg₁)
    rw [hg₁.schema] at hmeans
    rw [htext, hz.text, hmeans]
    exact ⟨rfl, rfl⟩

/-- A value is written as a document of its tree, or it is not written, for which there is a
reason. -/
theorem writeDocument_ends {v : Option Value}
    (hP : ∀ S c, P S c → S.Needs T c.serves → c.WritesLawfully S) (hv : r.Valid P)
    (htype : ∀ x, v = some x → x.HasType r.schema T) (sink : Sink) :
    Ends (writeDocument T v) ⟨r, Writer.ofSink sink⟩
      (fun _ s => s.registry.Valid P ∧ Grows r s.registry ∧ ∃ j, IsDocument j s.stream.text.toList ∧
        (Plain P r.schema T → j = Value.encodeOption r.schema T v))
      (Unwritten P T (∀ x, v = some x → x.Finite) ⟨r, Writer.ofSink sink⟩) := by
  refine (writeDocument_delivers hP hv htype sink).mono (fun _ s _ h => ?_) fun _ _ h => h
  obtain ⟨j, hj, hmeans⟩ := h.document
  exact ⟨h.valid, h.grows, j, hj, fun hp => (hmeans hp).1⟩

/-- The text of a request to write a value is what the run wrote. -/
theorem Registry.encode_of_delivered {v : Option Value} {j : Tree} {s : Session Writer}
    (hrun : writeDocument T v ⟨r, Writer.ofSink {}⟩ = .ok () s) (h : Delivered P T j r s) :
    r.encode T v = (.ok s.stream.text, s.registry) := by
  have hdecode : Utf8.decode s.stream.output = (s.stream.text.toList, none) :=
    Writer.decode_output h.delivered
  rw [Registry.encode, Registry.run, hrun]
  simp only [documentText, hdecode, String.ofList_toList]

/-- A text that was written is the compact text of the value's tree, a document of the tree. The
registry stays one that can be asked. -/
theorem Registry.encode_document {v : Option Value} {r' : Registry} {text : String}
    (hP : ∀ S c, P S c → S.Needs T c.serves → c.WritesLawfully S) (hv : r.Valid P)
    (hp : Plain P r.schema T) (htype : ∀ x, v = some x → x.HasType r.schema T)
    (hencode : r.encode T v = (.ok text, r')) : r'.Valid P ∧ Grows r r' ∧
      IsDocument (Value.encodeOption r.schema T v) text.toList ∧
      text.toList = (Value.encodeOption r.schema T v).compact := by
  have hends := writeDocument_delivers hP hv htype {}
  cases hrun : writeDocument T v ⟨r, Writer.ofSink {}⟩ with
  | ok a s =>
    have hdelivered := hends.ok hrun
    rw [Registry.encode_of_delivered hrun hdelivered] at hencode
    cases hencode
    obtain ⟨j, hj, hmeans⟩ := hdelivered.document
    obtain ⟨rfl, hcompact⟩ := hmeans hp
    exact ⟨hdelivered.valid, hdelivered.grows, hj, hcompact⟩
  | error e s =>
    rw [Registry.encode, Registry.run, hrun] at hencode
    cases hencode

/-- A value is written as the compact text of its tree. -/
theorem Registry.encode_eq_compact {v : Option Value}
    (hP : ∀ S c, P S c → S.Needs T c.serves → c.WritesLawfully S) (hv : r.Valid P)
    (hp : Plain P r.schema T) (hs : Served r T) (htype : ∀ x, v = some x → x.HasType r.schema T)
    (hfinite : ∀ x, v = some x → x.Finite) :
    ∃ text r', r.encode T v = (.ok text, r') ∧ r'.Valid P ∧ Grows r r' ∧
      IsDocument (Value.encodeOption r.schema T v) text.toList ∧
      text.toList = (Value.encodeOption r.schema T v).compact := by
  have hends := writeDocument_delivers hP hv htype {}
  cases hrun : writeDocument T v ⟨r, Writer.ofSink {}⟩ with
  | ok a s =>
    have hencode := Registry.encode_of_delivered hrun (hends.ok hrun)
    exact ⟨_, _, hencode, Registry.encode_document hP hv hp htype hencode⟩
  | error e s => exact absurd ⟨hp, hs, hfinite, rfl, rfl⟩ (hends.error hrun).inevitable

/-- A value is written as a document of its tree. The registry stays one that can be asked. -/
theorem Registry.encode_eq_ok {v : Option Value}
    (hP : ∀ S c, P S c → S.Needs T c.serves → c.WritesLawfully S) (hv : r.Valid P)
    (hp : Plain P r.schema T) (hs : Served r T) (htype : ∀ x, v = some x → x.HasType r.schema T)
    (hfinite : ∀ x, v = some x → x.Finite) :
    ∃ text r', r.encode T v = (.ok text, r') ∧ r'.Valid P ∧ Grows r r' ∧
      IsDocument (Value.encodeOption r.schema T v) text.toList := by
  obtain ⟨text, r', hencode, hv', hg, hdoc, -⟩ :=
    Registry.encode_eq_compact hP hv hp hs htype hfinite
  exact ⟨text, r', hencode, hv', hg, hdoc⟩

end JsonAdapters
