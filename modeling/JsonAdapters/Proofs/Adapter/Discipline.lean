import JsonAdapters.Proofs.Adapter.Documents
import JsonAdapters.Proofs.Adapter.Tables

/-!
# The discipline of streams

Streams allow a step only where it has its place: values where one is due, names between the
members of an object, the end of a container behind its last part. No adapter takes a step that has
no place, whatever the document holds and whatever the sink does. An adapter that ends well has
moved one value, and none works for ever, unless a record extends itself: the token of such a record
has no end, and neither has a request that comes to it.

## Main definitions

* `AdapterFailure.Regular`: the failures of adapters that keep to the discipline.
* `Registry.Lawful`: all adapters that a registry can hand out keep to the discipline.

## Main statements

* `Registry.Lawful.disciplined`: adapters and documents, read and written.
-/

namespace JsonAdapters

open Json (IsDocument Reader Sink Source Writer)
open Json.Reader (Passed)
open Json.Writer (Wrote)
open Outcome
open Samples (registryOf string)

/-- Adapters that are not generated move one value at a time and take only steps that are
allowed, and factories come to an answer when no record extends itself. -/
structure Registry.Lawful (r : Registry) : Prop where
  valid : r.Valid fun S c => c.ReadsLawfully ∧ c.WritesLawfully S
  answer : r.schema.Acyclic → ∀ f ∈ r.factories, ∀ token, ∃ answer, f.create token = some answer

/-- The failure is an error that is reported, or some record extends itself, directly or through
others, and the computation has no end. -/
def AdapterFailure.Regular (S : Schema) (e : AdapterFailure) : Prop :=
  (∃ error, e = .error error) ∨ e = .endless ∧ ¬S.Acyclic

/-- The failure is not about a container that an adapter took for longer or shorter than it is. -/
def AdapterFailure.Blameless (e : AdapterFailure) : Prop :=
  ∀ error, e = .error (.read error) → error.cause.Blameless

variable {r r' : Registry} {e : AdapterFailure}

theorem AdapterFailure.Innocent.blameless (h : e.Innocent r) : e.Blameless := by
  rintro error rfl
  exact h

theorem AdapterFailure.Innocent.reported (h : e.Innocent r) : e.Reported r := by
  cases e with
  | error error => trivial
  | endless => exact h
  | misuse | stalled => exact h.elim

namespace Registry

/-- When no record extends itself, no request comes to a token without end. -/
theorem Lawful.conclusive (h : r.Lawful) (hS : r.schema.Acyclic) : r.Conclusive :=
  ⟨hS.exists_token, h.answer hS⟩

/-- Requests keep a registry lawful. -/
theorem Lawful.of_grows (h : r.Lawful)
    (hv : r'.Valid fun S c => c.ReadsLawfully ∧ c.WritesLawfully S) (hg : Grows r r') :
    r'.Lawful :=
  ⟨hv, hg.schema ▸ hg.factories ▸ h.answer⟩

theorem Lawful.regular (h : r.Lawful) (hg : Grows r r') (he : e.Reported r') :
    e.Regular r.schema := by
  cases e with
  | error error => exact .inl ⟨error, rfl⟩
  | endless => exact .inr ⟨rfl, fun hS => he (hg.toKeeps.conclusive (h.conclusive hS))⟩
  | misuse | stalled => exact he.elim

/-- A request for a type whose token has no end has none either, and leaves the registry and the
stream as they were. -/
theorem onRegistry_adapter_of_endless {σ : Type} {t : Ty} (ht : t.token r.schema = none)
    (stream : σ) : onRegistry (adapter t) ⟨r, stream⟩ = .error .endless ⟨r, stream⟩ := by
  refine onRegistry_error ?_
  rw [adapter_eq, ht]

/-- An adapter that is started where a value is due moves one value of its type, or reports an
error. So do documents, whatever the source holds and the sink takes. Only if a record extends
itself, directly or through others, there may be no end, and there is none for documents of a type
whose own token has none. -/
theorem Lawful.disciplined (h : r.Lawful) (t : Ty) :
    (∀ id stream, r.serves id t = true → Json.Reader.AtValue stream →
      Ends (readWith id t) ⟨r, stream⟩
        (fun _ s => s.registry.Lawful ∧ ∃ j, Passed j stream s.stream)
        (fun e s => s.registry.Lawful ∧ e.Regular r.schema ∧ e.Blameless)) ∧
    (∀ id stream v, r.serves id t = true → Json.Writer.AtValue stream →
      (∀ x, v = some x → x.HasType r.schema t) →
      Ends (writeOption t v id) ⟨r, stream⟩
        (fun _ s => s.registry.Lawful ∧ ∃ j, Wrote j stream s.stream)
        (fun e s => s.registry.Lawful ∧ e.Regular r.schema)) ∧
    (∀ source, Ends (readDocument t) ⟨r, Reader.ofSource source⟩
      (fun _ s => s.registry.Lawful ∧ ∃ j, IsDocument j source.chars)
      (fun e s => s.registry.Lawful ∧ e.Regular r.schema ∧ e.Blameless)) ∧
    (∀ sink v, (∀ x, v = some x → x.HasType r.schema t) →
      Ends (writeDocument t v) ⟨r, Writer.ofSink sink⟩
        (fun _ s => s.registry.Lawful ∧ ∃ j, IsDocument j s.stream.text.toList)
        (fun e s => s.registry.Lawful ∧ e.Regular r.schema)) ∧
    (t.token r.schema = none →
      (∀ source, readDocument t ⟨r, Reader.ofSource source⟩ =
        .error .endless ⟨r, Reader.ofSource source⟩) ∧
      ∀ sink v, writeDocument t v ⟨r, Writer.ofSink sink⟩ =
        .error .endless ⟨r, Writer.ofSink sink⟩) := by
  refine ⟨fun id stream hid hstream => ?_, fun id stream v hid hstream htype => ?_,
    fun source => ?_, fun sink v htype => ?_, fun ht => ⟨fun source => ?_, fun sink v => ?_⟩⟩
  -- reading by an adapter, writing by one, and both for whole documents
  · refine (readWith_refines (s := ⟨r, stream⟩) (fun _ _ h _ => h.1) h.valid hid hstream).mono
      (fun _ s _ hs => ?_) fun e s he => ?_
    · obtain ⟨j, hj, -⟩ := hs.passed
      exact ⟨h.of_grows hs.valid hs.grows, j, (hj.sound hstream).1⟩
    · exact ⟨h.of_grows he.valid he.grows, h.regular he.grows he.innocent.reported,
        he.innocent.blameless⟩
  · refine (writeOption_ends (s := ⟨r, stream⟩) (fun _ _ h _ => h.2) h.valid hid .self htype
      hstream).mono (fun _ s _ hs => ?_) fun e s he => ?_
    · obtain ⟨j, hj, -⟩ := hs.wrote
      exact ⟨h.of_grows hs.valid hs.grows, j, hj⟩
    · exact ⟨h.of_grows he.valid he.grows, h.regular he.grows he.reported⟩
  · refine (readDocument_ends (fun _ _ h _ => h.1) h.valid source).mono (fun _ s _ hs => ?_)
      fun e s he => ?_
    · obtain ⟨hv, hg, j, hj, -⟩ := hs
      exact ⟨h.of_grows hv hg, j, hj.document⟩
    · obtain ⟨hv, hg, hinnocent, -⟩ := he
      exact ⟨h.of_grows hv hg, h.regular hg hinnocent.reported, hinnocent.blameless⟩
  · refine (writeDocument_ends (fun _ _ h _ => h.2) h.valid htype sink).mono (fun _ s _ hs => ?_)
      fun e s he => ?_
    · obtain ⟨hv, hg, j, hj, -⟩ := hs
      exact ⟨h.of_grows hv hg, j, hj⟩
    · exact ⟨h.of_grows he.valid he.grows, h.regular he.grows he.reported⟩
  · exact bind_of_error (onRegistry_adapter_of_endless ht _)
  · exact bind_of_error (onRegistry_adapter_of_endless ht _)

end Registry

namespace Samples

/-- Sample registries are lawful, whichever factories they have. -/
theorem registryOf_lawful (names : List String) : (registryOf names).Lawful := by
  refine ⟨registryOf_valid ⟨upper_readsLawfully, fun _ hv _ hw => writeShouted_ends hv hw⟩
    ⟨absent_readsLawfully, fun _ hv _ hw => writeShouted_ends hv hw⟩, fun hS f hf token => ?_⟩
  obtain ⟨name, -, hf⟩ := List.mem_filterMap.1 hf
  unfold factory? at hf
  split at hf
  · cases hf
    exact ⟨_, rfl⟩
  · cases hf
    exact ⟨_, rfl⟩
  · cases hf
    exact ⟨_, rfl⟩
  · obtain ⟨table, htable, rfl⟩ := Option.map_eq_some_iff.1 hf
    obtain ⟨rs, -, rfl⟩ := Option.map_eq_some_iff.1 htable
    exact FactoryTable.exists_create hS rs token

/-- A registry from which an adapter for lists of strings was obtained. -/
def stringsObtained : Registry :=
  { registryOf ["upper", "provider"] with
    adapters := #[⟨.vec string, .applied (.vec string) "Vec" [Scalar.string.token],
      [⟨string, Scalar.string.token, none⟩]⟩]
    cache := [(.vec string, 0)] }

/-- Lists of strings whose items are moved by an adapter of another factory: one is read and one is
written, by an adapter and as a document, and a document that is cut off is refused. -/
theorem disciplined_vec :
    let text := Reader.ofSource (.ofText "[\"a\"]")
    let cut := Reader.ofSource (.ofText "[\"a\",3")
    let value : Value := .vec [.string "a"]
    Registry.adapter (.vec string) (registryOf ["upper", "provider"]) = .ok 0 stringsObtained ∧
    (∃ v s j, readWith 0 (.vec string) ⟨stringsObtained, text⟩ = .ok v s ∧
      Passed j text s.stream) ∧
    (∃ s j, writeOption (.vec string) (some value) 0 ⟨stringsObtained, Writer.ofSink {}⟩ =
      .ok () s ∧ Wrote j (Writer.ofSink {}) s.stream) ∧
    (∃ v s j, readDocument (.vec string) ⟨registryOf ["upper", "provider"], text⟩ = .ok v s ∧
      IsDocument j "[\"a\"]".toList) ∧
    (∃ s j, writeDocument (.vec string) (some value)
      ⟨registryOf ["upper", "provider"], Writer.ofSink {}⟩ = .ok () s ∧
      IsDocument j s.stream.text.toList) ∧
    (∃ e s, readDocument (.vec string) ⟨registryOf ["upper", "provider"], cut⟩ = .error e s ∧
      e.Regular schema ∧ e.Blameless) := by
  intro text cut value
  have hr : (registryOf ["upper", "provider"]).Lawful := registryOf_lawful _
  have hobtained : Registry.adapter (.vec string) (registryOf ["upper", "provider"]) =
      .ok 0 stringsObtained := by rfl
  have hanswer := (hr.valid.adapter_ends (.vec string)).ok hobtained
  have hlawful : stringsObtained.Lawful := hr.of_grows hanswer.valid hanswer.grows
  have htype : ∀ x, some value = some x → x.HasType schema (.vec string) := by
    rintro _ ⟨⟩
    exact ⟨trivial, trivial⟩
  obtain ⟨hread, hwrite, -, -, -⟩ := Registry.Lawful.disciplined hlawful (.vec string)
  obtain ⟨-, -, hreadDocument, hwriteDocument, -⟩ := Registry.Lawful.disciplined hr (.vec string)
  -- that the runs succeed is computed; what they leave is the theorem
  obtain ⟨v, s, hs⟩ := exists_ok_of_succeeds
    (x := readWith 0 (.vec string)) (s := ⟨stringsObtained, text⟩) (by decide +kernel)
  obtain ⟨u, s₁, hs₁⟩ := exists_ok_of_succeeds (x := writeOption (.vec string) (some value) 0)
    (s := ⟨stringsObtained, Writer.ofSink {}⟩) (by decide +kernel)
  obtain ⟨w, s₂, hs₂⟩ := exists_ok_of_succeeds (x := readDocument (.vec string))
    (s := ⟨registryOf ["upper", "provider"], text⟩) (by decide +kernel)
  obtain ⟨u', s₃, hs₃⟩ := exists_ok_of_succeeds (x := writeDocument (.vec string) (some value))
    (s := ⟨registryOf ["upper", "provider"], Writer.ofSink {}⟩) (by decide +kernel)
  obtain ⟨e, s₄, hs₄⟩ := exists_error_of_succeeds (x := readDocument (.vec string))
    (s := ⟨registryOf ["upper", "provider"], cut⟩) (by decide +kernel)
  obtain ⟨-, j, hj⟩ := (hread 0 text hanswer.serves (Reader.ofSource_atValue _)).ok hs
  obtain ⟨-, j₁, hj₁⟩ :=
    (hwrite 0 _ (some value) hanswer.serves (Writer.ofSink_atValue {}) htype).ok hs₁
  obtain ⟨-, j₂, hj₂⟩ := (hreadDocument (.ofText "[\"a\"]")).ok hs₂
  obtain ⟨-, j₃, hj₃⟩ := (hwriteDocument {} (some value) htype).ok hs₃
  obtain ⟨-, hregular, hblameless⟩ := (hreadDocument (.ofText "[\"a\",3")).error hs₄
  exact ⟨hobtained, ⟨v, s, j, hs, hj⟩, ⟨s₁, j₁, hs₁, hj₁⟩, ⟨w, s₂, j₂, hs₂, hj₂⟩,
    ⟨s₃, j₃, hs₃, hj₃⟩, ⟨e, s₄, hs₄, hregular, hblameless⟩⟩

def loopId : RecordId := ⟨"sample", "Loop"⟩

/-- A record that extends itself. -/
def loop : Record := { id := loopId, fields := [], parent := some loopId }

/-- A registry over a dispatch table with nothing but a record that extends itself. -/
def loopRegistry : Registry :=
  { schema := ⟨[loop]⟩, factories := [(FactoryTable.of ⟨[loop]⟩ [loop]).factory] }

/-- No depth of calls is enough for the token of a record that extends itself. Neither the record
nor anything else is read or written by a registry over its dispatch table, which is lawful. -/
theorem not_disciplined_loop :
    loopRegistry.Lawful ∧ (∀ n, loopRegistry.schema.tokenWithin n loopId = none) ∧
      (loopRegistry.decode (.record loopId) (.ofText "\x7b\x7d")).1 = .error .endless ∧
      (loopRegistry.encode (.record loopId) none).1 = .error .endless ∧
      (loopRegistry.decode string (.ofText "\"a\"")).1 = .error .endless ∧
      (loopRegistry.encode string (some (.string "a"))).1 = .error .endless := by
  have hself : loopRegistry.schema.Extends loopId loopId := .single (by rfl)
  have htoken : loopRegistry.schema.token loopId = none :=
    Schema.token_eq_none_iff.2 fun hfree => hfree loopId .refl hself
  refine ⟨⟨Registry.valid_of_new fun f hf token c hc => ?_, fun hS => absurd hself (hS loopId)⟩,
    Schema.tokenWithin_eq_none htoken, ?_⟩
  · obtain rfl := List.mem_singleton.1 hf
    exact FactoryTable.fits (by simp [FactoryTable.of, TableEntry.of, Schema.find?]) hc
  · exact ⟨by rfl, by rfl, by rfl, by rfl⟩

end Samples

end JsonAdapters
