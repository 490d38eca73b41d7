import JsonAdapters.Proofs.Adapter.Documents
import JsonAdapters.Proofs.Adapter.Exchanging
import JsonAdapters.Proofs.Adapter.Holding
import JsonAdapters.Proofs.Adapter.Omissions
import JsonAdapters.Proofs.Adapter.Stocking

/-!
# Adapters that reading and writing need

What a registry has written, it can read without another adapter. The reverse does not hold: writing
asks for the adapter of a part before it looks whether there is one, and reading asks when there is
one. A value that was read is written with the adapters that reading asked for, except at places
where it holds nothing that was read.

## Main statements

* `Registry.Orderly.after`: what is done with a registry keeps it orderly.
* `Registry.Orderly.encode_after_decode`, `Registry.Orderly.decode_after_encode`: the two
  directions.
* `Registry.read_write_adapters`: both of them, for every registry.
-/

namespace JsonAdapters

open Json (IsDocument Reader Sink Source Tree Writer)
open Outcome
open Registry (Later Orderly)
open Samples (bool string)

variable {P : Schema → CustomCodec → Prop} {p : Ty → Prop} {r r' r₁ r₂ : Registry} {id : AdapterId}
  {t T : Ty}

/-! ## Documents -/

/-- A whole document is read like its value. -/
theorem Seeks.readWhole {s : Session Reader} (post : Option Value → Registry → Prop)
    (h : Seeks P p (read (readFuel s.registry.schema t s.stream) id) s
      fun o s' => post o s'.registry) :
    Seeks P p (readWhole id t) s fun o s' => post o s'.registry := by
  have hwith : Seeks P p (readWith id t) s fun o s' => post o s'.registry :=
    Ends.congr (get_bind_run _) h
  refine hwith.bind fun o s₁ hlater ho => ?_
  exact .step (.reader _) hlater.orderly fun _ _ _ => .pure hlater.orderly ho

/-- What is read of a document is stocked. -/
theorem seeks_readWhole {s : Session Reader} (hs : s.registry.Orderly P)
    (hserves : s.registry.serves id t = true) :
    Seeks P (fun _ => True) (readWhole id t) s fun o s' =>
      ∀ v, o = some v → Stocked P s'.registry t v := by
  exact Seeks.readWhole (fun o r => ∀ v, o = some v → Stocked P r t v)
    ((stocksAt _).value hs hserves)

theorem seeks_writeWhole {s : Session Writer} {v : Option Value} (hs : s.registry.Orderly P)
    (hserves : s.registry.serves id t = true) :
    Seeks P (fun _ => True) (writeWhole id t v) s fun _ _ => True := by
  have hwrite := wants_asks P s.registry t v s id hs.later hserves
  refine (hwrite.mono (fun _ _ => trivial) fun _ _ _ h => h).bind fun _ s₁ hlater _ => ?_
  exact .of_onStream (.writer _) hlater.orderly fun _ _ _ => trivial

/-- What is read of a document is stocked, and the adapter for it is there. -/
theorem seeks_readDocument (hr : r.Orderly P) (source : Source) :
    Seeks P (fun _ => True) (readDocument T) ⟨r, Reader.ofSource source⟩ fun o s' =>
      s'.registry.Has T ∧ ∀ v, o = some v → Stocked P s'.registry T v := by
  refine .adapter hr (.inl trivial) fun id r₁ hlater hserves => ?_
  refine (seeks_readWhole (s := ⟨r₁, Reader.ofSource source⟩) hlater.orderly hserves).mono
    (fun _ h => h) fun o s' hlater' ho => ⟨⟨id, hlater'.keeps.serves hserves⟩, ho⟩

/-- A value that is stocked is written, or an adapter is wanted that is idle. -/
theorem Stocked.writeDocument {v : Value} (h : Stocked P r T v) (hhas : r.Has T)
    (hr : Later P r r') (sink : Sink) :
    Seeks P (fun u => Value.Idle r.schema u T (some v)) (writeDocument T (some v))
      ⟨r', Writer.ofSink sink⟩ fun _ _ => True := by
  refine .adapter hr.orderly (.inr (hr.keeps.has hhas)) fun id r₁ hlater hserves => ?_
  refine (h ⟨r₁, Writer.ofSink sink⟩ id (hr.trans hlater) hserves).bind fun _ s₁ hlater' _ => ?_
  exact .of_onStream (.writer _) hlater'.orderly fun _ _ _ => trivial

/-- A value that is written is written whole, in a text that can be read. -/
theorem Exchanges.writeDocument {v : Option Value} (h : Exchanges P r T v) (hr : Later P r r')
    (sink : Sink) :
    Seeks P (fun _ => True) (writeDocument T v) ⟨r', Writer.ofSink sink⟩ fun _ s' =>
      s'.registry.Has T ∧ s'.stream.delivered = s'.stream.text.utf8ByteSize ∧
        ∃ j, IsDocument j s'.stream.text.toList ∧ Readable P s'.registry T j := by
  refine .adapter hr.orderly (.inl trivial) fun id r₁ hlater hserves => ?_
  have hwrite := h ⟨r₁, Writer.ofSink sink⟩ id (hr.trans hlater) hserves
    (Writer.ofSink_atValue sink)
  refine hwrite.bind fun _ s₁ hlater' ⟨z, hz, hj⟩ => ?_
  refine .of_onStream (.writer _) hlater'.orderly fun _ stream hfinish => ?_
  obtain ⟨htext, hall⟩ := (Writer.finish_ends (hz.wrote.due_of_top rfl)).ok (ok_of_onWriter hfinish)
  refine ⟨⟨id, hlater'.keeps.serves hserves⟩, ?_, z.1, ?_, hj⟩
  · rw [hall, htext]
  · rw [htext]
    exact hz.wrote.isDocument

/-- No adapter is wanted to read a document of a tree that can be read. -/
theorem Readable.readDocument {j : Tree} {source : Source} (h : Readable P r T j)
    (hhas : r.Has T) (hr : Later P r r') (hj : IsDocument j source.chars)
    (hfinished : source.ending = .finished) :
    Seeks P (fun _ => False) (readDocument T) ⟨r', Reader.ofSource source⟩ fun _ _ => True := by
  obtain ⟨rest, hfaces⟩ := Reader.faces_ofSource hj hfinished
  refine .adapter hr.orderly (.inr (hr.keeps.has hhas)) fun id r₁ hlater hserves => ?_
  have hread := h ⟨r₁, Reader.ofSource source⟩ id (readFuel r₁.schema T (Reader.ofSource source))
    rest (hr.trans hlater) hserves (Reader.ofSource_atValue source) hfaces
  exact Seeks.readWhole (fun _ _ => True) (hread.mono (fun _ h => h) fun _ _ _ _ => trivial)

namespace Registry

/-! ## What is done with registries -/

/-- A run leaves a later registry behind, however it ends. -/
theorem later_report {σ α : Type} {x : AdapterM σ α} {stream : σ} {post : α → Session σ → Prop}
    (h : Seeks P p x ⟨r, stream⟩ post) : Later P r (x.report stream r).2 := by
  unfold AdapterM.report
  cases hx : x ⟨r, stream⟩ with
  | ok a s => exact (h.ok hx).1
  | error e s => exact (h.error hx).1

/-- A deed keeps adapters and makes none twice, unless it is the end of the registry. -/
theorem Orderly.act (h : r.Orderly P) {deed : Deed} (hdeed : deed ≠ .drop) :
    Later P r (r.act deed) := by
  cases deed with
  | drop => exact absurd rfl hdeed
  | ask q =>
    simp only [Registry.act]
    split
    · have hends := h.adapterOf_ends (t := q.type) q.token
      unfold Registry.ask
      cases hx : adapterOf q.type q.token r with
      | ok id r' => exact (hends.ok hx).1
      | error e r' => exact .of_eq h (hends.error hx).1
    · exact h.later
  | use id t job =>
    simp only [Registry.act]
    split
    · next hserves =>
      cases job with
      | read stream => exact later_report (seeks_readWhole (s := ⟨r, stream⟩) h hserves)
      | write v stream =>
        -- a job gives back a value, so that writing gives back none
        have hwrite : Seeks P (fun _ => True)
            (do writeWhole id t v; return (none : Option Value)) ⟨r, stream⟩ fun _ _ => True :=
          (seeks_writeWhole (s := ⟨r, stream⟩) h hserves).bind fun _ _ hlater _ =>
            .pure hlater.orderly trivial
        exact later_report hwrite
    · exact h.later

/-- Whatever is done with a registry and its adapters, short of dropping it, keeps the adapters. -/
theorem Orderly.after (h : r.Orderly P) {deeds : List Deed} (hdeeds : .drop ∉ deeds) :
    Later P r (r.after deeds) := by
  induction deeds generalizing r with
  | nil => exact h.later
  | cons deed deeds ih =>
    have hfirst : Later P r (r.act deed) :=
      h.act fun hdrop => hdeeds (hdrop ▸ List.mem_cons_self)
    exact hfirst.trans (ih hfirst.orderly fun hrest => hdeeds (.tail _ hrest))

/-! ## Both directions -/

/-- A text that is written is what its run leaves behind. -/
theorem writeDocument_of_encode {v : Option Value} {text : String}
    (h : r.encode T v = (.ok text, r')) :
    ∃ stream, writeDocument T v ⟨r, Writer.ofSink {}⟩ = .ok () ⟨r', stream⟩ ∧
      documentText (.ok ((), stream)) = .ok text := by
  rw [Registry.encode, Registry.run] at h
  cases hrun : writeDocument T v ⟨r, Writer.ofSink {}⟩ with
  | ok a s =>
    rw [hrun] at h
    obtain ⟨htext, hr⟩ := Prod.ext_iff.1 h
    cases hr
    exact ⟨s.stream, rfl, htext⟩
  | error e s =>
    rw [hrun] at h
    cases h

/-- A document that is not written for want of an adapter fails its run. -/
theorem writeDocument_of_encode_error {v : Option Value} {e : AdapterError}
    (h : (r.encode T v).1 = .error (.error e)) (he : e.Unserved) :
    ∃ s, writeDocument T v ⟨r, Writer.ofSink {}⟩ = .error (.error e) s := by
  rw [Registry.encode, Registry.run] at h
  cases hrun : writeDocument T v ⟨r, Writer.ofSink {}⟩ with
  | ok a s =>
    rw [hrun] at h
    dsimp only [documentText] at h
    split at h
    · cases h
    · cases h
      obtain hkind | hkind := he <;> cases hkind
  | error e' s =>
    rw [hrun] at h
    cases h
    exact ⟨s, rfl⟩

/-- A value that was read is written later without another adapter, but for those that are idle:
such an adapter reading has not asked for, and it cannot be had. -/
theorem Orderly.encode_after_decode (h : r.Orderly P) {source : Source} {v : Value}
    (hread : r.decode T source = (.ok (some v), r₁)) (hr : Later P r₁ r₂) {e : AdapterError}
    (hwrite : (r₂.encode T (some v)).1 = .error (.error e)) (he : e.Unserved) :
    ∃ u, Value.Idle r.schema u T (some v) ∧ ¬r₂.Has u ∧ r₂.Refuses u (.error e) := by
  obtain ⟨hok, rfl⟩ := Prod.ext_iff.1 hread
  obtain ⟨stream, hread⟩ := readDocument_of_decode hok
  obtain ⟨s, hwrite⟩ := writeDocument_of_encode_error hwrite he
  obtain ⟨hlater, hhas, hstocked⟩ := (seeks_readDocument h source).ok hread
  have hwants := (hstocked v rfl).writeDocument hhas hr {}
  rw [hlater.keeps.schema] at hwants
  exact (hwants.error hwrite).2 he

/-- A text that was written is read later without another adapter. -/
theorem Orderly.decode_after_encode (h : r.Orderly P) (hkeys : r.schema.KeysDistinct)
    (hlawful : r.schema.Lawful P T) {v : Option Value}
    (htype : ∀ x, v = some x → x.HasType r.schema T) {text : String}
    (hwrite : r.encode T v = (.ok text, r₁)) (hr : Later P r₁ r₂) {e : AdapterError}
    (hread : (r₂.decode T (.ofText text)).1 = .error (.error e)) : ¬e.Unserved := by
  intro he
  obtain ⟨stream, hwrite, htext⟩ := writeDocument_of_encode hwrite
  obtain ⟨s, hread⟩ := readDocument_of_decode_error hread
  obtain ⟨-, hhas, hall, j, hj, hreadable⟩ :=
    ((exchanges hkeys hlawful htype).writeDocument h.later {}).ok hwrite
  have hdecode : Utf8.decode stream.output = (stream.text.toList, none) :=
    Writer.decode_output hall
  simp only [documentText, hdecode, String.ofList_toList, Except.ok.injEq] at htext
  subst htext
  have hwants : Seeks P (fun _ => False) (readDocument T)
      ⟨r₂, Reader.ofSource (.ofText stream.text)⟩ fun _ _ => True :=
    hreadable.readDocument hhas hr hj rfl
  obtain ⟨u, hnone, -⟩ := (hwants.error hread).2 he
  exact hnone

/-- Let a registry have any factories, whose answers fit the schema, and let anything be done with
it and with its adapters.

When it reads a document as a value, it can write the value later on without wanting an adapter,
whatever is done in between, but for adapters that reading has not asked for: of a type that writing
asks for where the value holds nothing that was read, and for which there is none.

When it writes a value as a document, it can read the document later on without wanting an adapter.
For that, adapters that are not generated have to move one value at a time. -/
theorem read_write_adapters (S : Schema) (fs : List Factory) (P : Schema → CustomCodec → Prop)
    (hfs : ∀ f ∈ fs, ∀ token c, f.create token = some (some c) → c.Fits S P)
    {deeds : List Deed} (hdeeds : .drop ∉ deeds) (T : Ty) :
    let r := ({ schema := S, factories := fs } : Registry).after deeds
    (∀ (source : Source) (v : Value) (r₁ : Registry), r.decode T source = (.ok (some v), r₁) →
      ∀ later, .drop ∉ later → ∀ e : AdapterError,
        ((r₁.after later).encode T (some v)).1 = .error (.error e) → e.Unserved →
        ∃ u, Value.Idle S u T (some v) ∧ ¬(r₁.after later).Has u ∧
          (r₁.after later).Refuses u (.error e)) ∧
    (S.KeysDistinct → S.Lawful P T → ∀ (v : Option Value) (text : String) (r₁ : Registry),
      (∀ x, v = some x → x.HasType S T) → r.encode T v = (.ok text, r₁) →
      ∀ later, .drop ∉ later → ∀ e : AdapterError,
        ((r₁.after later).decode T (.ofText text)).1 = .error (.error e) → ¬e.Unserved) := by
  intro r
  have hnew : Orderly P { schema := S, factories := fs } := orderly_of_new hfs
  have hr : Later P { schema := S, factories := fs } r := hnew.after hdeeds
  have hS : r.schema = S := hr.keeps.schema
  constructor
  -- reading first: only an idle type can be unserved later
  · intro source v r₁ hread later hlater e hwrite he
    obtain ⟨stream, hrun⟩ := readDocument_of_decode (congrArg Prod.fst hread)
    rw [hread] at hrun
    have hr₁ : Later P r r₁ := ((seeks_readDocument hr.orderly source).ok hrun).1
    rw [← hS]
    exact hr.orderly.encode_after_decode hread (hr₁.orderly.after hlater) hwrite he
  -- writing first: all that is read then was asked for
  · intro hkeys hlawful v text r₁ htype hwrite later hlater e hread
    rw [← hS] at hkeys hlawful htype
    obtain ⟨stream, hrun, -⟩ := writeDocument_of_encode hwrite
    have hr₁ : Later P r r₁ :=
      (((exchanges hkeys hlawful htype).writeDocument hr.orderly.later {}).ok hrun).1
    exact hr.orderly.decode_after_encode hkeys hlawful htype hwrite (hr₁.orderly.after hlater) hread

/-- How writing fails what was read of a text, with the same registry. -/
def unwritten? (r : Registry) (T : Ty) (text : String) : Option AdapterFailure :=
  match r.decode T (.ofText text) with
  | (.ok (some v), r') =>
    match (r'.encode T (some v)).1 with
    | .error e => some e
    | .ok _ => none
  | _ => none

theorem unwritten?_eq_some {text : String} {e : AdapterFailure}
    (h : r.unwritten? T text = some e) :
    ∃ v r', r.decode T (.ofText text) = (.ok (some v), r') ∧
      (r'.encode T (some v)).1 = .error e := by
  unfold unwritten? at h
  split at h
  · next v r' hdecode =>
    split at h
    · next e' hencode =>
      cases h
      exact ⟨v, r', hdecode, hencode⟩
    · cases h
  · cases h

end Registry

namespace Samples

/-- A registry that serves one sample record only. -/
def alone (q : Record) : Registry :=
  { schema, factories := [(FactoryTable.of schema [q]).factory] }

/-- Three texts that are read without an adapter that it takes to write what was read: of an empty
list, of a record with an empty box, and of a record with a default instance. -/
theorem unwritten_idle :
    (∃ v r, (registryOf []).decode (.vec (.record unlistedId)) (.ofText "[]") = (.ok (some v), r) ∧
      (r.encode (.vec (.record unlistedId)) (some v)).1 =
        .error (.error (.noAdapter "Unlisted"))) ∧
    (∃ v r, (alone leaf).decode (.record leafId) (.ofText "\x7b\"tag\":\"x\"\x7d") =
        (.ok (some v), r) ∧
      (r.encode (.record leafId) (some v)).1 = .error (.error (.noAdapter "Empty"))) ∧
    ∃ v r, (alone defaulted).decode (.record defaulted.id) (.ofText "\x7b\x7d") =
        (.ok (some v), r) ∧
      (r.encode (.record defaulted.id) (some v)).1 = .error (.error (.noAdapter "Leaf")) := by
  have hlist : (registryOf []).unwritten? (.vec (.record unlistedId)) "[]" =
      some (.error (.noAdapter "Unlisted")) := by decide +kernel
  have hleaf : (alone leaf).unwritten? (.record leafId) "\x7b\"tag\":\"x\"\x7d" =
      some (.error (.noAdapter "Empty")) := by decide +kernel
  have hdefaulted : (alone defaulted).unwritten? (.record defaulted.id) "\x7b\x7d" =
      some (.error (.noAdapter "Leaf")) := by decide +kernel
  exact ⟨Registry.unwritten?_eq_some hlist, Registry.unwritten?_eq_some hleaf,
    Registry.unwritten?_eq_some hdefaulted⟩

/-- The sample adapters for strings move one value at a time. -/
theorem strings_lawful (T : Ty) : schema.Lawful (fun _ c => c = upper ∨ c = absent) T := by
  rintro c hc -
  obtain rfl | rfl := hc
  · exact ⟨upper_readsLawfully, fun v hv w hw => writeShouted_ends hv hw⟩
  · exact ⟨absent_readsLawfully, fun v hv w hw => writeShouted_ends hv hw⟩

/-- A nest with a string in it, and nothing else. -/
def whisper : Value :=
  .record [.vec [], .map [], .just (.just (.string "a")), .box .nothing, .nothing, .nothing,
    .nothing] []

def whisperText : String :=
  "\x7b\"a\":[],\"b\":\x7b\x7d,\"c\":\"A\",\"d\":null,\"e\":null,\"f\":null,\"g\":null\x7d"

theorem whisper_hasType : whisper.HasType schema (.record nestId) :=
  ⟨nest, rfl, trivial, ⟨trivial, .nil⟩, trivial, trivial, trivial, trivial, trivial, trivial⟩

/-- With an adapter for strings among the factories: what is missing for a list that was read, and
a text that was written and is not read, though all its adapters are there. -/
theorem read_write_strings :
    (∃ v r, (registryOf ["upper", "oracle"]).decode (.vec (.record unlistedId)) (.ofText "[]") =
        (.ok (some v), r) ∧
      ∃ e u, (r.encode (.vec (.record unlistedId)) (some v)).1 = .error (.error e) ∧ e.Unserved ∧
        Value.Idle schema u (.vec (.record unlistedId)) (some v) ∧ ¬r.Has u ∧
          r.Refuses u (.error e)) ∧
    ∃ r, (registryOf ["upper", "oracle"]).encode (.record nestId) (some whisper) =
        (.ok whisperText, r) ∧
      ∃ e, (r.decode (.record nestId) (.ofText whisperText)).1 = .error (.error e) ∧
        ¬e.Unserved := by
  have hvalid : (registryOf ["upper", "oracle"]).Valid fun _ c => c = upper ∨ c = absent :=
    registryOf_valid (.inl rfl) (.inr rfl)
  -- both runs are computed once, and each is then given to the theorem
  have hlist : (registryOf ["upper", "oracle"]).unwritten? (.vec (.record unlistedId)) "[]" =
      some (.error (.noAdapter "Unlisted")) := by decide +kernel
  have hnest : (registryOf ["upper", "oracle"]).refused? (.record nestId) whisper =
      some (whisperText, .error (.missingField "Nest" "d")) := by decide +kernel
  constructor
  · obtain ⟨v, r, hread, hwrite⟩ := Registry.unwritten?_eq_some hlist
    obtain ⟨hidle, -⟩ := Registry.read_write_adapters schema _ _ hvalid.factories List.not_mem_nil
      (.vec (.record unlistedId))
    have hkind : (AdapterError.noAdapter "Unlisted").Unserved := .inl rfl
    obtain ⟨u, hu⟩ := hidle _ v r hread [] List.not_mem_nil _ hwrite hkind
    exact ⟨v, r, hread, _, u, hwrite, hkind, hu⟩
  · obtain ⟨r, hwrite, hread⟩ := Registry.refused?_eq_some hnest
    obtain ⟨-, hserved⟩ := Registry.read_write_adapters schema _ _ hvalid.factories List.not_mem_nil
      (.record nestId)
    refine ⟨r, hwrite, _, hread, ?_⟩
    exact hserved schema_keysDistinct (strings_lawful _) (some whisper) _ r
      (fun x hx => Option.some.inj hx ▸ whisper_hasType) hwrite [] List.not_mem_nil _ hread

end Samples

end JsonAdapters
