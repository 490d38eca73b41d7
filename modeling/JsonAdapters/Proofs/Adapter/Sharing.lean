import JsonAdapters.Proofs.Adapter.Validity

/-!
# One adapter for each type

A registry makes an adapter of a type only when it has none, and hands out this one from then on. So
there is one adapter of a type at most, whoever asks for it and by which token, and once there is
one, no request for the type is refused while the registry lives. A request is refused for the
reason why no adapter is chosen.

## Main definitions

* `AdapterFailure.Unserved`: the failures for want of an adapter.
* `Registry.Has`, `Registry.Refuses`: there is an adapter of a type, or there cannot be one.
* `Registry.Orderly`: a valid registry with one adapter for each type at most.
* `Registry.Later`: what requests make of a registry, which stays orderly.

## Main statements

* `Registry.Single.request`: a request keeps it that each type has one adapter.
* `Registry.Orderly.adapterOf_ends`, `Registry.Orderly.part_ends`: how requests end.
-/

namespace JsonAdapters

open Outcome

/-- The error is that a type has no adapter. -/
def AdapterError.Unserved (e : AdapterError) : Prop :=
  e.kind = .noAdapter ∨ e.kind = .incompatibleAdapter

/-- The failure is that a type has no adapter. -/
def AdapterFailure.Unserved : AdapterFailure → Prop
  | .error e => e.Unserved
  | .misuse | .stalled | .endless => False

namespace Registry

/-- There is an adapter of the type. -/
def Has (r : Registry) (t : Ty) : Prop := ∃ id, r.serves id t = true

/-- No adapter is chosen for the type, for this reason. -/
def Refuses (r : Registry) (t : Ty) (f : AdapterFailure) : Prop :=
  ∃ token, t.token r.schema = some token ∧ r.choose t token = .error f

/-- The adapter that was handed out for a type is the only one that serves it. -/
def Single (r : Registry) : Prop :=
  ∀ t id, r.cache.lookup t = some id ↔ r.serves id t = true

/-- The registry is valid, and each type has one adapter at most. -/
structure Orderly (P : Schema → CustomCodec → Prop) (r : Registry) : Prop where
  valid : r.Valid P
  single : r.Single

/-- The second registry has the adapters of the first, and is orderly. -/
structure Later (P : Schema → CustomCodec → Prop) (r r' : Registry) : Prop where
  orderly : r'.Orderly P
  keeps : Keeps r r'

variable {P : Schema → CustomCodec → Prop} {r r' r₁ r₂ : Registry} {t u : Ty}
  {id k owner : AdapterId} {a : Adapter} {f : AdapterFailure} {token : TypeToken Ty}

/-! ## Orderly registries -/

theorem Single.unique (h : r.Single) (hid : r.serves id t = true) (hk : r.serves k t = true) :
    id = k :=
  Option.some.inj (((h t id).2 hid).symm.trans ((h t k).2 hk))

/-- What a registry has an adapter of is known to it. -/
theorem Single.known? (h : r.Single) (hhas : r.Has t) : (r.known? t).isSome = true := by
  obtain ⟨id, hid⟩ := hhas
  exact known?_isSome_iff.2 ⟨id, (h t id).2 hid, hid⟩

theorem Single.lookup_of_unknown (h : r.Single) (hk : r.known? t = none) :
    r.cache.lookup t = none := by
  cases hl : r.cache.lookup t with
  | none => rfl
  | some id =>
    have hknown := h.known? ⟨id, (h t id).1 hl⟩
    rw [hk] at hknown
    cases hknown

theorem Keeps.has (h : Keeps r r') (hhas : r.Has t) : r'.Has t := by
  obtain ⟨id, hid⟩ := hhas
  exact ⟨id, h.serves hid⟩

theorem Keeps.refuses_iff (h : Keeps r r') : r'.Refuses t f ↔ r.Refuses t f := by
  simp only [Refuses, h.schema, h.choose]

theorem Orderly.later (h : r.Orderly P) : Later P r r := ⟨h, .refl r⟩

theorem Later.trans (h : Later P r r₁) (h' : Later P r₁ r₂) : Later P r r₂ :=
  ⟨h'.orderly, h.keeps.trans h'.keeps⟩

theorem Later.of_eq (h : r.Orderly P) (he : r' = r) : Later P r r' := by
  subst he
  exact h.later

/-- A new registry has no adapter, and is orderly when the answers of its factories fit. -/
theorem orderly_of_new {S : Schema} {fs : List Factory}
    (h : ∀ f ∈ fs, ∀ token c, f.create token = some (some c) → c.Fits S P) :
    Orderly P { schema := S, factories := fs } := by
  refine ⟨valid_of_new h, fun t id => iff_of_false nofun fun hserves => ?_⟩
  obtain ⟨a, ha, -⟩ := serves_iff.1 hserves
  simp at ha

/-! ## Requests -/

/-- What is served after an adapter was made: what was served before, and the new adapter's type. -/
theorem serves_instantiate_iff : (r.instantiate a).2.serves k u = true ↔
    r.serves k u = true ∨ k = (r.instantiate a).1 ∧ a.codec.serves = u := by
  constructor
  · intro h
    obtain ⟨b, hb, hu⟩ := serves_iff.1 h
    simp only [instantiate, Array.getElem?_push] at hb
    split at hb
    · next hk =>
      cases hb
      exact .inr ⟨hk, hu⟩
    · exact .inl (serves_iff.2 ⟨b, hb, hu⟩)
  · rintro (h | ⟨rfl, rfl⟩)
    · exact (keeps_instantiate r a).serves h
    · exact serves_instantiate r a

/-- The adapter that is made for a type without one becomes its only one. -/
theorem Single.request (h : r.Single) (hk : r.known? t = none) (ha : a.codec.serves = t) :
    ((r.instantiate a).2.handOut t (r.instantiate a).1).2.Single := by
  intro u id
  -- a type without an adapter is not in the cache
  have hnone : (r.instantiate a).2.cache.lookup t = none := h.lookup_of_unknown hk
  rw [lookup_handOut, serves_handOut, serves_instantiate_iff, ha]
  by_cases hu : t = u
  · subst hu
    have hnot : ¬r.serves id t = true := fun hs => by
      cases hnone.symm.trans ((h t id).2 hs)
    rw [if_pos ⟨rfl, hnone⟩, hnone, Option.none_or, Option.some.injEq]
    constructor
    · intro hid
      exact .inr ⟨hid.symm, rfl⟩
    · rintro (hs | ⟨hid, -⟩)
      · exact absurd hs hnot
      · exact hid.symm
  · rw [if_neg fun hu' => hu hu'.1, Option.or_none]
    constructor
    · intro hl
      exact .inl ((h u id).1 hl)
    · rintro (hs | ⟨-, hu'⟩)
      · exact (h u id).2 hs
      · exact absurd hu' hu

theorem Single.settled (h : r.Single) (owner : AdapterId) (t : Ty) (id : AdapterId) :
    (r.settled owner t id).Single := by
  intro u k
  rw [serves_settled]
  exact h u k

/-- A request by any token answers with the adapter of the type, or changes nothing; it may then be
that no adapter is chosen. -/
theorem Orderly.adapterOf_ends (h : r.Orderly P) (token : TypeToken Ty) :
    Ends (adapterOf t token) r (fun id r' => Later P r r' ∧ r'.serves id t = true)
      (fun f r' => r' = r ∧ (f.Unserved → ¬r.Has t ∧ r.choose t token = .error f)) := by
  obtain ⟨-, hrun⟩ | ⟨-, ⟨id, hk, hrun⟩ | ⟨hk, ⟨f, hc, hrun⟩ | ⟨a, hc, hrun⟩⟩⟩ :=
    adapterOf_cases r t token
  · refine .of_error hrun ⟨rfl, ?_⟩
    rintro (hkind | hkind) <;> cases hkind
  · exact .of_ok hrun ⟨h.later, (Option.filter_eq_some_iff.1 hk).2⟩
  · refine .of_error hrun ⟨rfl, fun _ => ⟨fun hhas => ?_, hc⟩⟩
    have hknown := h.single.known? hhas
    rw [hk] at hknown
    cases hknown
  · have hsingle := h.single.request hk (serves_of_choose hc)
    obtain ⟨hv, hkeeps, hs⟩ :=
      (h.valid.instantiate_of_choose hc).handOut (serves_instantiate_of_choose hc)
    exact .of_ok hrun ⟨⟨⟨hv, hsingle⟩, (keeps_instantiate r a).trans hkeeps⟩, hs⟩

theorem Orderly.adapter_ends (h : r.Orderly P) (t : Ty) :
    Ends (adapter t) r (fun id r' => Later P r r' ∧ r'.serves id t = true)
      (fun f r' => r' = r ∧ (f.Unserved → ¬r.Has t ∧ r.Refuses t f)) := by
  cases ht : t.token r.schema with
  | none =>
    have hrun : adapter t r = .error .endless r := by simp only [adapter, ht]
    exact .of_error hrun ⟨rfl, False.elim⟩
  | some token =>
    have hrun : adapter t r = adapterOf t token r := by simp only [adapter, ht]
    exact .congr hrun ((h.adapterOf_ends token).mono (fun _ _ _ h => h)
      fun f _ hf => ⟨hf.1, fun hu => ⟨(hf.2 hu).1, token, ht, (hf.2 hu).2⟩⟩)

/-- A slot is resolved to the adapter of its type. There may be none when there was none, and then
no adapter is chosen. -/
theorem Orderly.resolve_ends {slot : Slot} (h : r.Orderly P)
    (ha : r.adapters[owner]? = some a) (hslot : slot ∈ a.slots) : Ends (resolve slot) r
      (fun id r' => Later P r r' ∧ r'.serves id slot.target = true)
      (fun f r' => r' = r ∧ (f.Unserved → ¬r.Has slot.target ∧ r.Refuses slot.target f)) := by
  have hvalid := h.valid.adapters owner a ha
  cases hr : slot.resolved with
  | some id =>
    have hrun : resolve slot r = .ok id r := by
      rw [resolve, hr]
      rfl
    exact .of_ok hrun ⟨h.later, hvalid.resolved slot hslot id hr⟩
  | none =>
    by_cases hlive : r.alive = true
    · refine .congr ?_ ((h.adapterOf_ends slot.token).mono (fun _ _ _ h => h) fun f _ hf =>
        ⟨hf.1, fun hu => ⟨(hf.2 hu).1, slot.token, hvalid.token slot hslot, (hf.2 hu).2⟩⟩)
      rw [resolve_of_unresolved hr, if_pos hlive]
    · have hrun : resolve slot r = .error (.error .registryDropped) r := by
        rw [resolve_of_unresolved hr, if_neg hlive]
      refine .of_error hrun ⟨rfl, ?_⟩
      -- a dropped registry is no refusal of the type
      rintro (hkind | hkind) <;> cases hkind

theorem Later.settled (h : Later P r r') (owner : AdapterId) (hs : r'.serves id t = true) :
    Later P r (r'.settled owner t id) ∧ (r'.settled owner t id).serves id t = true := by
  obtain ⟨hv, hkeeps⟩ := h.orderly.valid.settled owner hs
  exact ⟨⟨⟨hv, h.orderly.single.settled owner t id⟩, h.keeps.trans hkeeps⟩, hkeeps.serves hs⟩

/-- The adapter of a part is the one of its type. There may be none when there was none, and then no
adapter is chosen. -/
theorem Orderly.part_ends (h : r.Orderly P) (ha : r.adapters[owner]? = some a)
    (ht : t ∈ a.codec.parts) :
    Ends (part owner t) r (fun id r' => Later P r r' ∧ r'.serves id t = true)
      (fun f r' => r' = r ∧ (f.Unserved → ¬r.Has t ∧ r.Refuses t f)) := by
  refine part_ends_of_resolve ha ((h.valid.adapters owner a ha).slots t ht) ?_
  rintro slot hslot rfl
  exact (h.resolve_ends ha hslot).mono (fun id r₁ _ hlater => hlater.1.settled owner hlater.2)
    fun _ _ he => he

end Registry

end JsonAdapters
