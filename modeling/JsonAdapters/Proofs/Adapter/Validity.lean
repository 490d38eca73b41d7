import JsonAdapters.Adapter.Registry
import JsonAdapters.Proofs.Outcome
import JsonAdapters.Proofs.Record.Ancestry

/-!
# Valid registries

What holds of a registry from its first request on: its adapters move what the schema says, and
each of them has a slot for every type that it needs. A request keeps this, adds adapters and
changes none, and its answer serves the type that was asked for. A request that comes to a token
without end is not answered at all, and leaves the registry as it was.

## Main definitions

* `Codec.Fits`: a codec moves the record of the schema, or moves values in an admitted way.
* `Registry.Valid`: the invariant of registries.
* `Registry.Keeps`: the adapters of a registry stay.
* `Registry.Grows`: what requests do to a registry.
* `Schema.Needs`: the types whose adapters the adapter of a type may ask for.
* `Registry.Provides`, `Registry.Answers`: there is a codec for a type, or an adapter already.
* `Registry.Conclusive`: no request comes to a token without end.
* `Registry.Remembers`: slots are resolved to adapters that the registry knows.

## Main statements

* `Registry.choose_eq_ok`, `Registry.choose_eq_error`: how the choice of an adapter ends.
* `Registry.adapterOf_cases`: how a request ends.
* `Registry.Valid.adapterOf_ends`, `Registry.Valid.part_ends`.
-/

namespace JsonAdapters

open Outcome

/-! ## Codecs -/

/-- A record is moved as the schema has it, and another way to move values is admitted by `P`. -/
def Codec.Fits (s : Schema) (P : Schema → CustomCodec → Prop) : Codec → Prop
  | .record r => s.find? r.id = some r
  | .custom c => P s c
  | _ => True

/-- The types whose adapters a type's adapter needs. -/
def Ty.parts (s : Schema) : Ty → List Ty
  | .scalar _ => []
  | .vec t | .option t | .box t | .hashMap t | .treeMap t => [t]
  | .record id => ((s.find? id).map Record.slots).getD []

/-- A record has slots for the types of its fields, and no others. -/
theorem Record.mem_slots {r : Record} {t : Ty} : t ∈ r.slots ↔ ∃ f ∈ r.fields, f.type = t := by
  have hgo (fs : List Field) (ts : List Ty) :
      t ∈ fs.foldl (fun ts f => if f.type ∈ ts then ts else ts ++ [f.type]) ts ↔
        t ∈ ts ∨ ∃ f ∈ fs, f.type = t := by
    induction fs generalizing ts with
    | nil => simp
    | cons f fs ih =>
      have hstep : t ∈ (if f.type ∈ ts then ts else ts ++ [f.type]) ↔ t ∈ ts ∨ f.type = t := by
        split
        · next h => exact (or_iff_left_of_imp fun ht => ht ▸ h).symm
        · rw [List.mem_append, List.mem_singleton, eq_comm (a := t)]
      simp only [List.foldl_cons, ih, hstep, List.mem_cons, exists_eq_or_imp, or_assoc]
  exact (hgo r.fields []).trans (or_iff_right List.not_mem_nil)

/-- The types of fields are parts of a record. -/
theorem Ty.mem_parts_record {s : Schema} {id : RecordId} {r : Record} {f : Field}
    (hr : s.find? id = some r) (hf : f ∈ r.fields) : f.type ∈ (Ty.record id).parts s := by
  rw [Ty.parts, hr]
  exact Record.mem_slots.2 ⟨f, hf, rfl⟩

/-- A type, the types of its parts, their parts, and so on. -/
inductive Schema.Needs (s : Schema) (t : Ty) : Ty → Prop
  | self : s.Needs t t
  | part {u v : Ty} : s.Needs t u → v ∈ u.parts s → s.Needs t v

/-- What is needed for a needed type is needed. -/
theorem Schema.Needs.trans {S : Schema} {t u v : Ty} (h : S.Needs t u) (h' : S.Needs u v) :
    S.Needs t v := by
  induction h' with
  | self => exact h
  | part _ hv ih => exact .part ih hv

/-- Types that have no parts but each other are all that one of them needs. -/
theorem Schema.Needs.mem_of_closed {s : Schema} {t u : Ty} {L : List Ty} (h : s.Needs t u)
    (ht : t ∈ L) (hL : ∀ v ∈ L, v.parts s ⊆ L) : u ∈ L := by
  induction h with
  | self => exact ht
  | part _ hv ih => exact hL _ ih hv

/-- A codec needs what the type needs that it serves. -/
theorem Codec.Fits.parts_subset {s : Schema} {P : Schema → CustomCodec → Prop} {c : Codec} {t : Ty}
    (h : c.Fits s P) (ht : t ∈ c.parts) : t ∈ c.serves.parts s := by
  cases c with
  | record r =>
    have h : s.find? r.id = some r := h
    rw [Codec.serves, Ty.parts, h]
    exact ht
  | custom c => cases ht
  | _ => exact ht

/-- The failure is about finding an adapter, not about moving a value. -/
def AdapterFailure.OfRequest : AdapterFailure → Prop
  | .error (.noAdapter _) | .error (.incompatibleAdapter _ _) | .error (.tokenMismatch _ _)
  | .error .registryDropped | .endless => True
  | _ => False

namespace Registry

/-! ## Valid registries -/

/-- The adapter fits the schema, carries the token of its type, and has a slot for every part; a
slot asks for what it stands for, and once it is resolved it refers to an adapter of that type. -/
structure ValidAdapter (P : Schema → CustomCodec → Prop) (r : Registry) (a : Adapter) : Prop where
  fits : a.codec.Fits r.schema P
  own : a.codec.serves.token r.schema = some a.token
  slots : ∀ t ∈ a.codec.parts, ∃ slot ∈ a.slots, slot.target = t
  token : ∀ slot ∈ a.slots, slot.target.token r.schema = some slot.token
  resolved : ∀ slot ∈ a.slots, ∀ id, slot.resolved = some id → r.serves id slot.target = true

/-- Answers of factories fit the schema, and so do the adapters that were made. -/
structure Valid (P : Schema → CustomCodec → Prop) (r : Registry) : Prop where
  factories : ∀ f ∈ r.factories, ∀ token c, f.create token = some (some c) → c.Fits r.schema P
  adapters : ∀ (id : AdapterId) a, r.adapters[id]? = some a → r.ValidAdapter P a

/-- There is an adapter for the type. -/
def Provides (r : Registry) (t : Ty) : Prop :=
  ∃ token a, t.token r.schema = some token ∧ r.choose t token = .ok a

/-- All tokens have an end, and so do the searches of factories. -/
structure Conclusive (r : Registry) : Prop where
  token : ∀ t : Ty, ∃ token, t.token r.schema = some token
  answer : ∀ f ∈ r.factories, ∀ token, ∃ answer, f.create token = some answer

/-- A request for the type is answered, with an adapter that is there already or with a new one. -/
def Answers (r : Registry) (t : Ty) : Prop := (r.known? t).isSome = true ∨ r.Provides t

/-- What is handed out for a type serves the type, and slots were resolved by requests, which the
registry remembers. -/
structure Remembers (r : Registry) : Prop where
  cached : ∀ t id, r.cache.lookup t = some id → r.serves id t = true
  resolved : ∀ (id : AdapterId) a, r.adapters[id]? = some a → ∀ slot ∈ a.slots, ∀ k,
    slot.resolved = some k → (r.known? slot.target).isSome = true

/-- The second registry has the adapters of the first. -/
structure Keeps (r r' : Registry) : Prop where
  schema : r'.schema = r.schema
  factories : r'.factories = r.factories
  alive : r'.alive = r.alive
  codec : ∀ (id : AdapterId) a, r.adapters[id]? = some a →
    ∃ a', r'.adapters[id]? = some a' ∧ a'.codec = a.codec

/-- The second registry has the adapters of the first, and answers requests for the same types. -/
structure Grows (r r' : Registry) : Prop extends Keeps r r' where
  answers : ∀ t, r'.Answers t ↔ r.Answers t
  remembers : r.Remembers → r'.Remembers

instance (r : Registry) (t : Ty) : Decidable (r.Provides t) :=
  match ht : t.token r.schema with
  | none => isFalse fun ⟨_, _, htoken, _⟩ => nomatch htoken.symm.trans ht
  | some token =>
    match h : r.choose t token with
    | .ok a => isTrue ⟨token, a, ht, h⟩
    | .error _ => isFalse fun ⟨_, _, htoken, ha⟩ =>
      nomatch (Option.some.inj (htoken.symm.trans ht) ▸ ha).symm.trans h

variable {P : Schema → CustomCodec → Prop} {r r' r₁ r₂ : Registry} {t : Ty} {id owner : AdapterId}

theorem Keeps.refl (r : Registry) : Keeps r r := ⟨rfl, rfl, rfl, fun _ a h => ⟨a, h, rfl⟩⟩

/-- A registry that keeps what another one has kept keeps the first one's adapters. -/
theorem Keeps.trans (h : Keeps r r₁) (h' : Keeps r₁ r₂) : Keeps r r₂ := by
  refine ⟨h'.schema.trans h.schema, h'.factories.trans h.factories, h'.alive.trans h.alive, ?_⟩
  intro id a ha
  obtain ⟨a₁, ha₁, hc₁⟩ := h.codec id a ha
  obtain ⟨a₂, ha₂, hc₂⟩ := h'.codec id a₁ ha₁
  exact ⟨a₂, ha₂, hc₂.trans hc₁⟩

theorem Grows.refl (r : Registry) : Grows r r := ⟨.refl r, fun _ => Iff.rfl, fun h => h⟩

theorem Grows.of_eq (h : r' = r) : Grows r r' := h ▸ .refl r

/-- Growth adds up. -/
theorem Grows.trans (h : Grows r r₁) (h' : Grows r₁ r₂) : Grows r r₂ :=
  ⟨h.toKeeps.trans h'.toKeeps, fun t => (h'.answers t).trans (h.answers t),
    fun hr => h'.remembers (h.remembers hr)⟩

theorem Grows.answers_eq (h : Grows r r') : r'.Answers = r.Answers :=
  funext fun t => propext (h.answers t)

/-- An adapter serves a type when it is there and its codec does. -/
theorem serves_iff : r.serves id t = true ↔ ∃ a, r.adapters[id]? = some a ∧ a.codec.serves = t := by
  unfold serves
  split
  · next a h => simp [h]
  · next h => simp [h]

/-- An adapter serves its type in all later registries. -/
theorem Keeps.serves (h : Keeps r r') (hs : r.serves id t = true) : r'.serves id t = true := by
  obtain ⟨a, ha, ht⟩ := serves_iff.1 hs
  obtain ⟨a', ha', hc⟩ := h.codec id a ha
  exact serves_iff.2 ⟨a', ha', by rw [hc, ht]⟩

/-- What is built of a codec depends on the schema only. -/
theorem Keeps.build (h : Keeps r r') (c : Codec) : r'.build c = r.build c := by
  have hslot : r'.slot = r.slot := by
    funext t
    rw [slot, slot, h.schema]
  rw [Registry.build, Registry.build, hslot, h.schema]

/-- The same adapter is chosen in all later registries. -/
theorem Keeps.choose (h : Keeps r r') (t : Ty) (token : TypeToken Ty) :
    r'.choose t token = r.choose t token := by
  have hanswer : r'.answer token = r.answer token := by rw [answer, answer, h.factories]
  simp only [Registry.choose, hanswer, h.build]

theorem Keeps.provides_iff (h : Keeps r r') : r'.Provides t ↔ r.Provides t := by
  simp only [Provides, h.schema, h.choose]

theorem Keeps.conclusive (h : Keeps r r') (hr : r.Conclusive) : r'.Conclusive :=
  ⟨h.schema ▸ hr.token, h.factories ▸ hr.answer⟩

/-- An adapter stays valid. -/
theorem ValidAdapter.keeps {a : Adapter} (h : r.ValidAdapter P a) (hg : Keeps r r') :
    r'.ValidAdapter P a := by
  refine ⟨hg.schema ▸ h.fits, hg.schema ▸ h.own, h.slots, hg.schema ▸ h.token, ?_⟩
  exact fun slot hslot id hid => hg.serves (h.resolved slot hslot id hid)

/-! ## New adapters -/

variable {c : Codec} {a : Adapter} {f : AdapterFailure} {token : TypeToken Ty}

/-- An adapter is built from the tokens of its type and of its parts. -/
theorem build_eq_some (h : r.build c = some a) :
    a.codec = c ∧ c.serves.token r.schema = some a.token ∧ c.parts.mapM r.slot = some a.slots := by
  obtain ⟨slots, hslots, h⟩ := Option.bind_eq_some_iff.1 h
  obtain ⟨token, htoken, h⟩ := Option.bind_eq_some_iff.1 h
  cases h
  exact ⟨rfl, htoken, hslots⟩

/-- A new slot has the token of its type, and no adapter yet. -/
theorem slot_eq_some {slot : Slot} (h : r.slot t = some slot) :
    slot.target = t ∧ t.token r.schema = some slot.token ∧ slot.resolved = none := by
  obtain ⟨token, htoken, h⟩ := Option.bind_eq_some_iff.1 h
  cases h
  exact ⟨rfl, htoken, rfl⟩

/-- There is a slot for each part, and no slot is resolved. -/
theorem slots_of_build (h : r.build c = some a) :
    (∀ t ∈ c.parts, ∃ slot ∈ a.slots, slot.target = t) ∧
      ∀ slot ∈ a.slots, slot.target.token r.schema = some slot.token ∧ slot.resolved = none := by
  obtain ⟨hto, hfrom⟩ := mem_of_mapM_eq_some (build_eq_some h).2.2
  refine ⟨fun t ht => ?_, fun slot hslot => ?_⟩
  · obtain ⟨slot, hslot, hs⟩ := hto t ht
    exact ⟨slot, hslot, (slot_eq_some hs).1⟩
  · obtain ⟨t, -, hs⟩ := hfrom slot hslot
    obtain ⟨rfl, htoken, hresolved⟩ := slot_eq_some hs
    exact ⟨htoken, hresolved⟩

/-- Where all types have tokens, all codecs can be built. -/
theorem Conclusive.exists_build (h : r.Conclusive) (c : Codec) : ∃ a, r.build c = some a := by
  have hslot (t : Ty) : ∃ slot, r.slot t = some slot := by
    obtain ⟨token, htoken⟩ := h.token t
    exact ⟨_, Option.bind_eq_some_iff.2 ⟨token, htoken, rfl⟩⟩
  obtain ⟨slots, hslots⟩ := exists_mapM_of_ends fun t (_ : t ∈ c.parts) => hslot t
  obtain ⟨token, htoken⟩ := h.token c.serves
  exact ⟨⟨c, token, slots⟩,
    Option.bind_eq_some_iff.2 ⟨slots, hslots, Option.bind_eq_some_iff.2 ⟨token, htoken, rfl⟩⟩⟩

/-- The adapter of a built-in type serves this type. -/
theorem serves_of_builtin? (h : Codec.builtin? t = some c) : c.serves = t := by
  cases t <;> cases h <;> rfl

/-- Adapters of built-in types fit in every schema. -/
theorem fits_of_builtin? {S : Schema} (h : Codec.builtin? t = some c) : c.Fits S P := by
  cases t <;> cases h <;> trivial

/-! ## The choice of an adapter -/

/-- A factory that gives no end to its search leaves none to the choice. -/
theorem choose_of_unanswered (h : r.answer token = none) :
    r.choose t token = .error .endless := by
  rw [choose, h]
  rfl

/-- The answer of a factory is built, and checked afterwards. -/
theorem choose_of_answer (h : r.answer token = some (some c)) :
    r.choose t token = match r.build c with
      | none => .error .endless
      | some a =>
        if c.serves = t then .ok a
        else .error (.error (.incompatibleAdapter token.text a.token.text)) := by
  rw [choose, h]
  change (AdapterFailure.orEndless (r.build c) >>= fun a => if c.serves = t then pure a else
    throw (.error (.incompatibleAdapter token.text a.token.text))) = _
  cases r.build c with
  | none => rfl
  | some a => exact rfl

/-- Without an answer, there are the adapters of built-in types. -/
theorem choose_of_no_answer (h : r.answer token = some none) :
    r.choose t token = match Codec.builtin? t with
      | none => .error (.error (.noAdapter token.text))
      | some c => AdapterFailure.orEndless (r.build c) := by
  rw [choose, h]
  cases Codec.builtin? t <;> rfl

/-- The codec of a new adapter: it is the answer of a factory, or that of a built-in type if there
is no answer. -/
def Picks (r : Registry) (t : Ty) (token : TypeToken Ty) (c : Codec) : Prop :=
  r.answer token = some (some c) ∨ r.answer token = some none ∧ Codec.builtin? t = some c

/-- The codec is built, and must serve the type, as that of a built-in type does. -/
theorem Picks.choose_eq (h : r.Picks t token c) : r.choose t token = match r.build c with
    | none => .error .endless
    | some a =>
      if c.serves = t then .ok a
      else .error (.error (.incompatibleAdapter token.text a.token.text)) := by
  obtain hanswer | ⟨hanswer, hc⟩ := h
  · exact choose_of_answer hanswer
  · rw [choose_of_no_answer hanswer, hc]
    cases hb : r.build c with
    | none => simp [AdapterFailure.orEndless, hb]
    | some a => simp [AdapterFailure.orEndless, hb, serves_of_builtin? hc]

/-- There is no new adapter if a factory gives no end to its search, and none if nothing serves the
type. In all other cases a codec is picked. -/
theorem choose_cases (r : Registry) (t : Ty) (token : TypeToken Ty) :
    (r.answer token = none ∧ r.choose t token = .error .endless) ∨
      (r.answer token = some none ∧ Codec.builtin? t = none ∧
        r.choose t token = .error (.error (.noAdapter token.text))) ∨
      ∃ c, r.Picks t token c := by
  cases hanswer : r.answer token with
  | none => exact .inl ⟨rfl, choose_of_unanswered hanswer⟩
  | some answer =>
    cases answer with
    | some c => exact .inr (.inr ⟨c, .inl hanswer⟩)
    | none =>
      cases hc : Codec.builtin? t with
      | none => exact .inr (.inl ⟨rfl, rfl, by rw [choose_of_no_answer hanswer, hc]⟩)
      | some c => exact .inr (.inr ⟨c, .inr ⟨hanswer, hc⟩⟩)

/-- A chosen adapter has the codec with which a factory answered, or the built-in one. -/
theorem choose_eq_ok (h : r.choose t token = .ok a) : ∃ c, r.build c = some a ∧ c.serves = t ∧
    (r.answer token = some (some c) ∨ Codec.builtin? t = some c) := by
  obtain ⟨-, he⟩ | ⟨-, -, he⟩ | ⟨c, hc⟩ := r.choose_cases t token
  · cases he.symm.trans h
  · cases he.symm.trans h
  · rw [hc.choose_eq] at h
    cases hb : r.build c with
    | none =>
      rw [hb] at h
      cases h
    | some b =>
      rw [hb] at h
      dsimp only at h
      split at h
      · next hserves =>
        cases h
        exact ⟨c, hb, hserves, hc.imp (fun h => h) And.right⟩
      · cases h

/-- There is no adapter for a type if a token has no end, if the answer serves another type, or if
there is no answer for a type that is not built in. -/
theorem choose_eq_error (h : r.choose t token = .error f) :
    (f = .endless ∧ ¬r.Conclusive) ∨
      (∃ c a, r.answer token = some (some c) ∧ r.build c = some a ∧ c.serves ≠ t ∧
        f = .error (.incompatibleAdapter token.text a.token.text)) ∨
      r.answer token = some none ∧ Codec.builtin? t = none ∧
        f = .error (.noAdapter token.text) := by
  obtain ⟨hnone, he⟩ | ⟨hnone, hc, he⟩ | ⟨c, hc⟩ := r.choose_cases t token
  · cases he.symm.trans h
    refine .inl ⟨rfl, fun hr => ?_⟩
    obtain ⟨answer, ha⟩ := exists_findSomeM?_of_ends fun f hf => hr.answer f hf token
    cases ha.symm.trans hnone
  · cases he.symm.trans h
    exact .inr (.inr ⟨hnone, hc, rfl⟩)
  · rw [hc.choose_eq] at h
    cases hb : r.build c with
    | none =>
      rw [hb] at h
      cases h
      refine .inl ⟨rfl, fun hr => ?_⟩
      obtain ⟨a, ha⟩ := hr.exists_build c
      cases ha.symm.trans hb
    | some a =>
      rw [hb] at h
      dsimp only at h
      split at h
      · cases h
      · next hserves =>
        cases h
        -- built-in types are served by their own adapters, so it is an answer that does not fit
        have hanswer : r.answer token = some (some c) :=
          hc.resolve_right fun hbuiltin => hserves (serves_of_builtin? hbuiltin.2)
        exact .inr (.inl ⟨c, a, hanswer, hb, hserves, rfl⟩)

/-- A chosen adapter serves the type. -/
theorem serves_of_choose (hc : r.choose t token = .ok a) : a.codec.serves = t := by
  obtain ⟨c, hb, hserves, -⟩ := choose_eq_ok hc
  rwa [(build_eq_some hb).1]

/-- The codec of a chosen adapter fits the schema. -/
theorem Valid.choose (h : r.Valid P) (hc : r.choose t token = .ok a) : a.codec.Fits r.schema P := by
  obtain ⟨c, hb, -, hanswer | hbuiltin⟩ := choose_eq_ok hc
  · obtain ⟨f, hf, hcreate⟩ := exists_of_findSomeM?_eq_some hanswer
    rw [(build_eq_some hb).1]
    exact h.factories f hf token _ hcreate
  · rw [(build_eq_some hb).1]
    exact fits_of_builtin? hbuiltin

/-- A type without an adapter is a matter of the request. -/
theorem ofRequest_of_choose (hc : r.choose t token = .error f) : f.OfRequest := by
  obtain ⟨rfl, -⟩ | ⟨c, a, -, -, -, rfl⟩ | ⟨-, -, rfl⟩ := choose_eq_error hc
  · trivial
  · trivial
  · trivial

/-! ## Requests -/

/-- Old adapters keep their numbers. -/
theorem adapters_instantiate {b : Adapter} (a : Adapter) (hb : r.adapters[id]? = some b) :
    (r.instantiate a).2.adapters[id]? = some b := by
  obtain ⟨hlt, hb⟩ := Array.getElem?_eq_some_iff.1 hb
  simp only [Registry.instantiate]
  rw [Array.getElem?_push_lt hlt, hb]

/-- There is one new adapter. -/
theorem adapters_of_instantiate {b : Adapter} (hb : (r.instantiate a).2.adapters[id]? = some b) :
    b = a ∨ r.adapters[id]? = some b := by
  simp only [Registry.instantiate, Array.getElem?_push] at hb
  split at hb
  · exact .inl (Option.some.inj hb).symm
  · exact .inr hb

theorem keeps_instantiate (r : Registry) (a : Adapter) : Keeps r (r.instantiate a).2 :=
  ⟨rfl, rfl, rfl, fun _ b hb => ⟨b, adapters_instantiate a hb, rfl⟩⟩

/-- A new adapter serves what its codec serves. -/
theorem serves_instantiate (r : Registry) (a : Adapter) :
    (r.instantiate a).2.serves (r.instantiate a).1 a.codec.serves = true := by
  refine serves_iff.2 ⟨a, ?_, rfl⟩
  simp [Registry.instantiate]

/-- A built adapter whose codec fits is valid, and keeps the registry valid. -/
theorem Valid.instantiate (h : r.Valid P) (hb : r.build c = some a) (hc : c.Fits r.schema P) :
    (r.instantiate a).2.Valid P := by
  refine ⟨h.factories, fun id b hb' => ?_⟩
  obtain rfl | hb' := adapters_of_instantiate hb'
  · obtain ⟨rfl, hown, -⟩ := build_eq_some hb
    obtain ⟨hparts, hslots⟩ := slots_of_build hb
    refine ⟨hc, hown, hparts, fun slot hslot => (hslots slot hslot).1, fun slot hslot id hid => ?_⟩
    cases (hslots slot hslot).2.symm.trans hid
  · exact (h.adapters id b hb').keeps (keeps_instantiate r a)

theorem keeps_handOut (r : Registry) (t : Ty) (id : AdapterId) : Keeps r (r.handOut t id).2 := by
  unfold Registry.handOut
  split
  · exact .refl r
  · exact ⟨rfl, rfl, rfl, fun _ a ha => ⟨a, ha, rfl⟩⟩

/-- No adapter is added when one is handed out. -/
theorem adapters_handOut (r : Registry) (t : Ty) (id : AdapterId) :
    (r.handOut t id).2.adapters = r.adapters := by
  unfold handOut
  split <;> rfl

/-- Handing out an adapter does not change whom it serves. -/
theorem serves_handOut (r : Registry) (t u : Ty) (id k : AdapterId) :
    (r.handOut t id).2.serves k u = r.serves k u := by
  rw [serves, serves, adapters_handOut]

/-- What is handed out serves the type. -/
theorem serves_handOut_self (hs : r.serves id t = true) :
    (r.handOut t id).2.serves (r.handOut t id).1 t = true := by
  rw [serves_handOut]
  unfold Registry.handOut
  split
  · dsimp only
    split <;> assumption
  · exact hs

/-- Handing out an adapter of a type answers with an adapter of that type. -/
theorem Valid.handOut (h : r.Valid P) (hs : r.serves id t = true) :
    (r.handOut t id).2.Valid P ∧ Keeps r (r.handOut t id).2 ∧
      (r.handOut t id).2.serves (r.handOut t id).1 t = true := by
  have hg := keeps_handOut r t id
  refine ⟨⟨?_, fun k a ha => ?_⟩, hg, serves_handOut_self hs⟩
  · rw [hg.factories, hg.schema]
    exact h.factories
  · rw [adapters_handOut] at ha
    exact (h.adapters k a ha).keeps hg

/-! ## What a registry answers -/

/-- A type is known if there is an entry for it, whose adapter serves the type. -/
theorem known?_isSome_iff : (r.known? t).isSome = true ↔
    ∃ k, r.cache.lookup t = some k ∧ r.serves k t = true := by
  rw [known?, Option.isSome_iff_exists]
  simp only [Option.filter_eq_some_iff]

/-- The cache keeps what it has, and takes in at most the new adapter. -/
theorem lookup_handOut (r : Registry) (t u : Ty) (id : AdapterId) :
    (r.handOut t id).2.cache.lookup u =
      (r.cache.lookup u).or (if t = u ∧ r.cache.lookup t = none then some id else none) := by
  unfold handOut
  cases hl : r.cache.lookup t with
  | some k => simp
  | none =>
    by_cases hu : t = u
    · subst hu
      simp [List.lookup_append, hl]
    · have hne : (u == t) = false := by simpa using Ne.symm hu
      simp [List.lookup_append, List.lookup_cons, hu, hne]

/-- Of what is known after an adapter was handed out, only the type of the adapter may be new. -/
theorem known?_of_handOut {u : Ty} (h : ((r.handOut t id).2.known? u).isSome = true) :
    (r.known? u).isSome = true ∨ t = u := by
  by_cases ht : t = u
  · exact .inr ht
  · obtain ⟨k, hk, hs⟩ := known?_isSome_iff.1 h
    rw [lookup_handOut, if_neg fun h => ht h.1, Option.or_none] at hk
    rw [serves_handOut] at hs
    exact .inl (known?_isSome_iff.2 ⟨k, hk, hs⟩)

/-- What is known stays known. -/
theorem known?_handOut_of_known {u : Ty} (h : (r.known? u).isSome = true) :
    ((r.handOut t id).2.known? u).isSome = true := by
  obtain ⟨k, hk, hs⟩ := known?_isSome_iff.1 h
  refine known?_isSome_iff.2 ⟨k, ?_, (keeps_handOut r t id).serves hs⟩
  rw [lookup_handOut, hk, Option.some_or]

/-- An adapter that serves its type may be handed out. -/
theorem Remembers.handOut (h : r.Remembers) (hs : r.serves id t = true) :
    (r.handOut t id).2.Remembers := by
  refine ⟨fun u k hk => ?_, fun k a ha slot hslot n hn => ?_⟩
  · rw [serves_handOut]
    rw [lookup_handOut] at hk
    cases hl : r.cache.lookup u with
    | some k' =>
      rw [hl] at hk
      cases hk
      exact h.cached u k hl
    | none =>
      rw [hl, Option.none_or] at hk
      -- the entry is new only if the type had none
      split at hk
      · next ht =>
        cases hk
        exact ht.1 ▸ hs
      · cases hk
  · rw [adapters_handOut] at ha
    exact known?_handOut_of_known (h.resolved k a ha slot hslot n hn)

/-- A new adapter is the only one that may serve what was not served before. -/
theorem serves_of_instantiate {k : AdapterId} {u : Ty}
    (h : (r.instantiate a).2.serves k u = true) : r.serves k u = true ∨ a.codec.serves = u := by
  obtain ⟨b, hb, hu⟩ := serves_iff.1 h
  obtain rfl | hb := adapters_of_instantiate hb
  · exact .inr hu
  · exact .inl (serves_iff.2 ⟨b, hb, hu⟩)

/-- A new adapter makes no other type known. -/
theorem known?_of_instantiate {u : Ty} (h : ((r.instantiate a).2.known? u).isSome = true) :
    (r.known? u).isSome = true ∨ a.codec.serves = u := by
  obtain ⟨k, hk, hs⟩ := known?_isSome_iff.1 h
  exact (serves_of_instantiate hs).imp_left fun hs => known?_isSome_iff.2 ⟨k, hk, hs⟩

/-- What is known stays known. -/
theorem known?_instantiate_of_known {u : Ty} (h : (r.known? u).isSome = true) :
    ((r.instantiate a).2.known? u).isSome = true := by
  obtain ⟨k, hk, hs⟩ := known?_isSome_iff.1 h
  exact known?_isSome_iff.2 ⟨k, hk, (keeps_instantiate r a).serves hs⟩

/-- The slots of a new adapter are not resolved. -/
theorem Remembers.instantiate (h : r.Remembers) (ha : r.choose t token = .ok a) :
    (r.instantiate a).2.Remembers := by
  refine ⟨fun u k hk => (keeps_instantiate r a).serves (h.cached u k hk), ?_⟩
  intro k b hb slot hslot n hn
  obtain rfl | hb := adapters_of_instantiate hb
  · obtain ⟨c, hbuild, -⟩ := choose_eq_ok ha
    cases ((slots_of_build hbuild).2 slot hslot).2.symm.trans hn
  · exact known?_instantiate_of_known (h.resolved k b hb slot hslot n hn)

/-- The new adapter serves the type for which it was chosen. -/
theorem serves_instantiate_of_choose (hc : r.choose t token = .ok a) :
    (r.instantiate a).2.serves (r.instantiate a).1 t = true :=
  serves_of_choose hc ▸ serves_instantiate r a

/-- What remains of a request for a type that is not known: the chosen adapter is handed out. -/
theorem grows_request (ht : t.token r.schema = some token) (hc : r.choose t token = .ok a) :
    Grows r ((r.instantiate a).2.handOut t (r.instantiate a).1).2 := by
  have hserves := serves_instantiate_of_choose hc
  have hprovides : r.Provides t := ⟨token, a, ht, hc⟩
  have hkeeps := (keeps_instantiate r a).trans (keeps_handOut _ t (r.instantiate a).1)
  refine ⟨hkeeps, fun u => ?_, fun hr => (hr.instantiate hc).handOut hserves⟩
  rw [Answers, Answers, hkeeps.provides_iff]
  constructor
  -- what is known now was known before, or is of the type that was asked for
  · rintro (hu | hu)
    · obtain hu | rfl := known?_of_handOut hu
      · obtain hu | hu := known?_of_instantiate hu
        · exact .inl hu
        · obtain rfl : t = u := (serves_of_choose hc).symm.trans hu
          exact .inr hprovides
      · exact .inr hprovides
    · exact .inr hu
  · exact Or.imp_left fun hu => known?_handOut_of_known (known?_instantiate_of_known hu)

/-- A request for the type was answered with the adapter. -/
structure Obtained (P : Schema → CustomCodec → Prop) (r : Registry) (t : Ty) (id : AdapterId)
    (r' : Registry) : Prop where
  valid : r'.Valid P
  grows : Grows r r'
  serves : r'.serves id t = true
  known : r.Remembers → (r'.known? t).isSome = true

/-- What was obtained answers for its type. -/
theorem Obtained.answers (h : Obtained P r t id r') (hr : r.Remembers) : r.Answers t :=
  (h.grows.answers t).1 (.inl (h.known hr))

/-- What was handed out is known, unless something else was handed out before that does not serve
the type. -/
theorem known?_handOut (hr : (r.handOut t id).2.Remembers) :
    ((r.handOut t id).2.known? t).isSome = true := by
  cases hl : (r.handOut t id).2.cache.lookup t with
  | some k => exact known?_isSome_iff.2 ⟨k, hl, hr.cached t k hl⟩
  | none =>
    rw [lookup_handOut] at hl
    obtain ⟨hnone, hnew⟩ := Option.or_eq_none_iff.1 hl
    rw [if_pos ⟨rfl, hnone⟩] at hnew
    cases hnew

/-- How a request by any token ends. An adapter that is known is handed out again; otherwise the
chosen one is. -/
theorem adapterOf_cases (r : Registry) (t : Ty) (token : TypeToken Ty) :
    (token.describes t = false ∧
      adapterOf t token r = .error (.error (.tokenMismatch token.text t.path)) r) ∨
    token.describes t = true ∧
      ((∃ id, r.known? t = some id ∧ adapterOf t token r = .ok id r) ∨
      r.known? t = none ∧
        ((∃ f, r.choose t token = .error f ∧ adapterOf t token r = .error f r) ∨
        ∃ a, r.choose t token = .ok a ∧
          adapterOf t token r = .ok ((r.instantiate a).2.handOut t (r.instantiate a).1).1
            ((r.instantiate a).2.handOut t (r.instantiate a).1).2)) := by
  unfold adapterOf
  cases token.describes t with
  | false => exact .inl ⟨rfl, rfl⟩
  | true =>
    refine .inr ⟨rfl, ?_⟩
    cases r.known? t with
    | some id => exact .inl ⟨id, rfl, rfl⟩
    | none =>
      refine .inr ⟨rfl, ?_⟩
      cases r.choose t token with
      | error f => exact .inl ⟨f, rfl, rfl⟩
      | ok a => exact .inr ⟨a, rfl, rfl⟩

/-- A chosen adapter is valid. -/
theorem Valid.instantiate_of_choose (h : r.Valid P) (hc : r.choose t token = .ok a) :
    (r.instantiate a).2.Valid P := by
  obtain ⟨c, hb, -⟩ := choose_eq_ok hc
  exact h.instantiate hb ((build_eq_some hb).1 ▸ h.choose hc)

/-- What has an adapter has a token. -/
theorem Valid.exists_token (h : r.Valid P) (ht : r.Answers t) :
    ∃ token, t.token r.schema = some token := by
  obtain hknown | ⟨token, a, htoken, -⟩ := ht
  · obtain ⟨id, -, hs⟩ := known?_isSome_iff.1 hknown
    obtain ⟨a, ha, rfl⟩ := serves_iff.1 hs
    exact ⟨a.token, (h.adapters id a ha).own⟩
  · exact ⟨token, htoken⟩

/-- A request for the type was not answered with an adapter, and changed nothing. -/
structure Unanswered (r : Registry) (t : Ty) (f : AdapterFailure) (r' : Registry) : Prop where
  unchanged : r' = r
  ofRequest : f.OfRequest
  inconclusive : f = .endless → ¬r.Conclusive
  none : ¬(r.alive = true ∧ r.Answers t)

/-- A request for a type by its own token answers with an adapter of the type, or changes nothing,
when there is none. -/
theorem Valid.adapterOf_ends (h : r.Valid P) (ht : t.token r.schema = some token) :
    Ends (adapterOf t token) r (Obtained P r t) (Unanswered r t) := by
  obtain ⟨hd, -⟩ | ⟨-, ⟨id, hk, hrun⟩ | ⟨hk, ⟨f, hc, hrun⟩ | ⟨a, hc, hrun⟩⟩⟩ :=
    adapterOf_cases r t token
  · cases hd.symm.trans (Ty.describes_of_token ht)
  · exact .of_ok hrun
      ⟨h, .refl r, (Option.filter_eq_some_iff.1 hk).2, fun _ => by rw [hk]; rfl⟩
  · refine .of_error hrun ⟨rfl, ofRequest_of_choose hc, fun hf => ?_, ?_⟩
    · obtain ⟨-, hr⟩ | ⟨c, a, -, -, -, rfl⟩ | ⟨-, -, rfl⟩ := choose_eq_error hc
      · exact hr
      · cases hf
      · cases hf
    · rintro ⟨-, hknown | ⟨token', a, ht', hc'⟩⟩
      · rw [hk] at hknown
        cases hknown
      · cases ht.symm.trans ht'
        cases hc.symm.trans hc'
  · have hg := grows_request ht hc
    obtain ⟨hv, -, hs⟩ := (h.instantiate_of_choose hc).handOut (serves_instantiate_of_choose hc)
    exact .of_ok hrun ⟨hv, hg, hs, fun hr => known?_handOut (hg.remembers hr)⟩

/-- A request for a type is one by its own token, and has no end if that has none. -/
theorem adapter_eq (r : Registry) (t : Ty) : adapter t r = match t.token r.schema with
    | none => .error .endless r
    | some token => adapterOf t token r := rfl

/-- An adapter is obtained by the token of its type. -/
theorem exists_token_of_adapter {r' : Registry} (h : adapter t r = .ok id r') :
    ∃ token, t.token r.schema = some token ∧ adapterOf t token r = .ok id r' := by
  rw [adapter_eq] at h
  split at h
  · cases h
  · next token ht => exact ⟨token, ht, h⟩

/-- A request for a type whose token has no end has no end either. -/
theorem Valid.adapter_ends (h : r.Valid P) (t : Ty) :
    Ends (adapter t) r (Obtained P r t) (Unanswered r t) := by
  cases ht : t.token r.schema with
  | some token =>
    refine .congr (y := adapterOf t token) ?_ (h.adapterOf_ends ht)
    simp only [adapter, ht]
  | none =>
    have hrun : adapter t r = .error .endless r := by simp only [adapter, ht]
    refine .of_error hrun ⟨rfl, trivial, fun _ hr => ?_, fun hanswers => ?_⟩
    · obtain ⟨token, htoken⟩ := hr.token t
      cases htoken.symm.trans ht
    · obtain ⟨token, htoken⟩ := h.exists_token hanswers.2
      cases htoken.symm.trans ht

/-! ## Slots -/

@[simp] theorem settle_target (t : Ty) (id : AdapterId) (s : Slot) :
    (s.settle t id).target = s.target := by
  unfold Slot.settle
  split <;> rfl

@[simp] theorem settle_token (t : Ty) (id : AdapterId) (s : Slot) :
    (s.settle t id).token = s.token := by
  unfold Slot.settle
  split <;> rfl

/-- The registry once the slots of `owner` for a type are resolved. -/
def settled (r : Registry) (owner : AdapterId) (t : Ty) (id : AdapterId) : Registry :=
  { r with
    adapters := r.adapters.modify owner fun a =>
      { a with slots := a.slots.map (Slot.settle t id) } }

/-- A settled slot refers to an adapter of its type, when it did so before and the new one does. -/
theorem serves_of_settle {slot : Slot} {k : AdapterId} (hs : r.serves id t = true)
    (hresolved : ∀ k, slot.resolved = some k → r.serves k slot.target = true)
    (hk : (slot.settle t id).resolved = some k) : r.serves k slot.target = true := by
  unfold Slot.settle at hk
  split at hk
  · next ht =>
    cases hr : slot.resolved with
    | none =>
      rw [hr] at hk
      cases hk
      rw [ht]
      exact hs
    | some k' =>
      rw [hr] at hk
      cases hk
      exact hresolved k' hr
  · exact hresolved k hk

/-- An adapter stays valid when its slots get the adapters of their types. -/
theorem ValidAdapter.settle {a : Adapter} (h : r.ValidAdapter P a) (hs : r.serves id t = true) :
    r.ValidAdapter P { a with slots := a.slots.map (Slot.settle t id) } := by
  obtain ⟨hfits, hown, hslots, htoken, hresolved⟩ := h
  refine ⟨hfits, hown, fun u hu => ?_, fun slot hslot => ?_, fun slot hslot k hk => ?_⟩
  · obtain ⟨slot, hslot, rfl⟩ := hslots u hu
    exact ⟨_, List.mem_map_of_mem hslot, settle_target ..⟩
  · obtain ⟨slot, hmem, rfl⟩ := List.mem_map.1 hslot
    rw [settle_token, settle_target]
    exact htoken slot hmem
  · obtain ⟨slot, hmem, rfl⟩ := List.mem_map.1 hslot
    rw [settle_target]
    exact serves_of_settle hs (hresolved slot hmem) hk

/-- Only the slots of the owner are settled. -/
theorem settled_getElem? (r : Registry) (owner : AdapterId) (t : Ty) (id k : AdapterId) :
    (r.settled owner t id).adapters[k]? =
      if owner = k then
        r.adapters[k]?.map fun a => { a with slots := a.slots.map (Slot.settle t id) }
      else r.adapters[k]? := Array.getElem?_modify

theorem keeps_settled (r : Registry) (owner : AdapterId) (t : Ty) (id : AdapterId) :
    Keeps r (r.settled owner t id) := by
  refine ⟨rfl, rfl, rfl, fun k a ha => ?_⟩
  rw [settled_getElem?, ha]
  split
  · exact ⟨_, rfl, rfl⟩
  · exact ⟨_, rfl, rfl⟩

/-- Settled slots do not change whom an adapter serves. -/
theorem serves_settled (r : Registry) (owner : AdapterId) (t u : Ty) (id k : AdapterId) :
    (r.settled owner t id).serves k u = r.serves k u := by
  rw [serves, serves, settled_getElem?]
  by_cases howner : owner = k
  · rw [if_pos howner]
    cases r.adapters[k]? <;> rfl
  · rw [if_neg howner]

/-- Settled slots do not change what is known. -/
theorem known?_settled (r : Registry) (owner : AdapterId) (t u : Ty) (id : AdapterId) :
    (r.settled owner t id).known? u = r.known? u := by
  simp only [known?, serves_settled]
  rfl

/-- Slots may be resolved to an adapter of a type that is known. -/
theorem Grows.settled (h : Grows r r₁) (owner : AdapterId)
    (hk : r.Remembers → (r₁.known? t).isSome = true) : Grows r (r₁.settled owner t id) := by
  have hkeeps := keeps_settled r₁ owner t id
  refine ⟨h.toKeeps.trans hkeeps, fun u => ?_, fun hr => ⟨fun u k hu => ?_, ?_⟩⟩
  · rw [← h.answers, Answers, Answers, known?_settled, hkeeps.provides_iff]
  · rw [serves_settled]
    exact (h.remembers hr).cached u k hu
  · intro k a ha slot hslot n hn
    rw [known?_settled]
    rw [settled_getElem?] at ha
    split at ha
    · obtain ⟨b, hb, rfl⟩ := Option.map_eq_some_iff.1 ha
      obtain ⟨before, hbefore, rfl⟩ := List.mem_map.1 hslot
      rw [settle_target]
      unfold Slot.settle at hn
      split at hn
      · next ht => exact ht ▸ hk hr
      · exact (h.remembers hr).resolved k b hb before hbefore n hn
    · exact (h.remembers hr).resolved k a ha slot hslot n hn

/-- Slots may be resolved to an adapter of their type. -/
theorem Valid.settled (h : r.Valid P) (owner : AdapterId) (hs : r.serves id t = true) :
    (r.settled owner t id).Valid P ∧ Keeps r (r.settled owner t id) := by
  have hg := keeps_settled r owner t id
  refine ⟨⟨h.factories, fun k a ha => ?_⟩, hg⟩
  rw [settled_getElem?] at ha
  split at ha
  · obtain ⟨b, hb, rfl⟩ := Option.map_eq_some_iff.1 ha
    exact ((h.adapters k b hb).settle hs).keeps hg
  · exact (h.adapters k a ha).keeps hg

/-- A slot that is not resolved asks the registry, if it is alive. -/
theorem resolve_of_unresolved {slot : Slot} (hk : slot.resolved = none) :
    resolve slot r = if r.alive = true then adapterOf slot.target slot.token r
      else .error (.error .registryDropped) r := by
  rw [resolve, hk]
  by_cases hlive : r.alive = true
  · have hrun : requireAlive r = .ok () r := if_pos hlive
    rw [if_pos hlive]
    exact bind_of_ok hrun
  · have hrun : requireAlive r = .error (.error .registryDropped) r := if_neg hlive
    rw [if_neg hlive]
    exact bind_of_error hrun

/-- A slot of a valid adapter is resolved to an adapter of its type. -/
theorem Valid.resolve_ends {a : Adapter} {slot : Slot} (h : r.Valid P)
    (ha : r.adapters[owner]? = some a) (hslot : slot ∈ a.slots) :
    Ends (resolve slot) r (Obtained P r slot.target) (Unanswered r slot.target) := by
  have hv := h.adapters owner a ha
  cases hr : slot.resolved with
  | some id =>
    have hrun : resolve slot r = .ok id r := by
      rw [resolve, hr]
      rfl
    exact .of_ok hrun ⟨h, .refl r, hv.resolved slot hslot id hr,
      fun hremembers => hremembers.resolved owner a ha slot hslot id hr⟩
  | none =>
    -- a slot that is not resolved yet asks the registry, as long as it is alive
    by_cases hlive : r.alive = true
    · refine .congr ?_ (h.adapterOf_ends (hv.token slot hslot))
      rw [resolve_of_unresolved hr, if_pos hlive]
    · have hrun : resolve slot r = .error (.error .registryDropped) r := by
        rw [resolve_of_unresolved hr, if_neg hlive]
      exact .of_error hrun ⟨rfl, trivial, nofun, fun hanswers => hlive hanswers.1⟩

/-- The slot of a type is found when there is one. -/
theorem exists_slot {a : Adapter} (h : ∃ slot ∈ a.slots, slot.target = t) :
    ∃ slot ∈ a.slots, slot.target = t ∧ (a.slots.find? fun s => s.target = t) = some slot := by
  obtain ⟨slot, hslot, ht⟩ := h
  obtain ⟨found, hfind⟩ : ∃ found, (a.slots.find? fun s => s.target = t) = some found :=
    Option.isSome_iff_exists.1 (List.find?_isSome.2 ⟨slot, hslot, decide_eq_true ht⟩)
  have htarget : found.target = t := by simpa using List.find?_some hfind
  exact ⟨found, List.mem_of_find?_eq_some hfind, htarget, hfind⟩

/-- The request for a part resolves its slot, and then settles the slots of its type. -/
theorem part_ends_of_resolve {a : Adapter} {post : AdapterId → Registry → Prop}
    {fail : AdapterFailure → Registry → Prop} (ha : r.adapters[owner]? = some a)
    (hslots : ∃ slot ∈ a.slots, slot.target = t)
    (h : ∀ slot ∈ a.slots, slot.target = t →
      Ends (resolve slot) r (fun id r' => post id (r'.settled owner t id)) fail) :
    Ends (part owner t) r post fail := by
  obtain ⟨slot, hslot, ht, hfind⟩ := exists_slot hslots
  have hresolve := h slot hslot ht
  cases hr : resolve slot r with
  | error e r₁ =>
    have hpart : part owner t r = .error e r₁ := by
      simp only [part, ha, Option.bind_some, hfind, hr]
    exact .of_error hpart (hresolve.error hr)
  | ok id r₁ =>
    have hpart : part owner t r = .ok id (r₁.settled owner t id) := by
      simp only [part, ha, Option.bind_some, hfind, hr]
      rfl
    exact .of_ok hpart (hresolve.ok hr)

/-- The adapter of a part serves the type of the part. There is none only when the registry is
dropped or does not answer requests for the type, and then the registry is as before. -/
theorem Valid.part_ends {a : Adapter} (h : r.Valid P) (ha : r.adapters[owner]? = some a)
    (ht : t ∈ a.codec.parts) : Ends (part owner t) r (Obtained P r t) (Unanswered r t) := by
  refine part_ends_of_resolve ha ((h.adapters owner a ha).slots t ht) ?_
  rintro slot hslot rfl
  refine (h.resolve_ends ha hslot).mono ?_ fun _ _ he => he
  rintro id r₁ - ⟨hv₁, hg₁, hs₁, hk₁⟩
  obtain ⟨hv₂, hkeeps⟩ := hv₁.settled owner hs₁
  refine ⟨hv₂, hg₁.settled owner hk₁, hkeeps.serves hs₁, fun hr => ?_⟩
  rw [known?_settled]
  exact hk₁ hr

/-- A new registry is valid when the answers of its factories fit the schema. -/
theorem valid_of_new {s : Schema} {fs : List Factory}
    (h : ∀ f ∈ fs, ∀ token c, f.create token = some (some c) → c.Fits s P) :
    Valid P { schema := s, factories := fs } := by
  refine ⟨h, fun id a ha => ?_⟩
  simp at ha

/-- A new registry has nothing to remember. -/
theorem remembers_of_new {s : Schema} {fs : List Factory} :
    Remembers { schema := s, factories := fs } :=
  ⟨nofun, fun id a ha => by simp at ha⟩

end Registry

/-- A dispatch table finds what it lists. -/
theorem FactoryTable.mem_of_find?_eq_some {t : FactoryTable} {token : TypeToken Ty} {e : TableEntry}
    (h : t.find? token = some (some e)) : e ∈ t.entries := by
  obtain ⟨exact, hexact, h⟩ := Option.bind_eq_some_iff.1 h
  cases exact with
  | some e' =>
    cases h
    exact (mem_of_findM?_eq_some hexact).1
  | none => exact (mem_of_findM?_eq_some h).1

/-- A dispatch table answers with the record of the entry that it finds. -/
theorem FactoryTable.create_eq_some {t : FactoryTable} {token : TypeToken Ty} {c : Codec}
    (h : t.factory.create token = some (some c)) :
    ∃ e, t.find? token = some (some e) ∧ c = .record e.record := by
  obtain ⟨found, hfound, h⟩ := Option.bind_eq_some_iff.1 h
  obtain ⟨e, rfl, rfl⟩ := Option.map_eq_some_iff.1 (Option.some.inj h)
  exact ⟨e, hfound, rfl⟩

/-- The answers of a dispatch table fit the schema that has its records. -/
theorem FactoryTable.fits {s : Schema} {P : Schema → CustomCodec → Prop} {t : FactoryTable}
    (h : ∀ e ∈ t.entries, s.find? e.record.id = some e.record) {token : TypeToken Ty} {c : Codec}
    (hc : t.factory.create token = some (some c)) : c.Fits s P := by
  obtain ⟨e, he, rfl⟩ := create_eq_some hc
  exact h e (mem_of_find?_eq_some he)

end JsonAdapters
