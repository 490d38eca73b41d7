import JsonAdapters.Proofs.Adapter.Reading
import Mathlib.Data.List.Forall2

/-!
# What a registry retains

Adapters are never taken back, and a slot that was resolved refers to the same adapter for good. A
later registry therefore answers a resolved slot as before, whether or not it is still alive. A slot
that is not resolved needs a living registry, and stays as it is when it is not answered.

## Main definitions

* `Slot.Later`, `Registry.Retains`: what a slot, and a registry, becomes over time.
* `Registry.Fitted`: adapters have slots for their parts, resolved to adapters of these.
* `Registry.Refers`: the slots of an adapter for a type are resolved to an adapter.
* `AdapterFailure.OfSearch`: failures of requests for adapters.

## Main statements

* `Registry.Fitted.part_ends`: what the request of an adapter for one of its parts does.
* `Registry.Refers.part_eq`: resolved slots are answered without the registry.
-/

namespace JsonAdapters

open Outcome

/-- The failure is about finding an adapter. -/
def AdapterFailure.OfSearch : AdapterFailure → Prop
  | .error (.noAdapter _) | .error (.incompatibleAdapter _ _) | .error (.tokenMismatch _ _)
  | .error .registryDropped | .endless => True
  | _ => False

/-- A slot at a later time: it stands for the same type, and stays resolved. -/
structure Slot.Later (s s' : Slot) : Prop where
  target : s'.target = s.target
  resolved : ∀ k, s.resolved = some k → s'.resolved = some k

theorem Slot.Later.refl (s : Slot) : s.Later s := ⟨rfl, fun _ h => h⟩

theorem Slot.Later.trans {s s₁ s₂ : Slot} (h : s.Later s₁) (h' : s₁.Later s₂) : s.Later s₂ :=
  ⟨h'.target.trans h.target, fun k hk => h'.resolved k (h.resolved k hk)⟩

theorem Slot.later_all_trans {ss ss₁ ss₂ : List Slot} (h : List.Forall₂ Slot.Later ss ss₁)
    (h' : List.Forall₂ Slot.Later ss₁ ss₂) : List.Forall₂ Slot.Later ss ss₂ := by
  induction h generalizing ss₂ with
  | nil => exact h'
  | cons hs _ ih =>
    obtain ⟨s₂, ss₂, hs', hss', rfl⟩ := List.forall₂_cons_left_iff.1 h'
    exact .cons (hs.trans hs') (ih hss')

theorem Slot.later_settle (t : Ty) (id : AdapterId) (s : Slot) : s.Later (s.settle t id) := by
  refine ⟨Registry.settle_target t id s, fun k hk => ?_⟩
  unfold Slot.settle
  split
  · simp [hk]
  · exact hk

/-- A resolved slot is settled already. -/
theorem Slot.settle_eq {t : Ty} {id : AdapterId} {s : Slot}
    (h : s.target = t → s.resolved.isSome = true) : s.settle t id = s := by
  unfold Slot.settle
  split
  · next ht =>
    obtain ⟨k, hk⟩ := Option.isSome_iff_exists.1 (h ht)
    cases s
    cases hk
    rfl
  · rfl

namespace Registry

/-- The first registry has become the second one: its adapters are still there, with later
slots. -/
structure Retains (r r' : Registry) : Prop where
  schema : r'.schema = r.schema
  adapter : ∀ (id : AdapterId) a, r.adapters[id]? = some a → ∃ a', r'.adapters[id]? = some a' ∧
    a'.codec = a.codec ∧ List.Forall₂ Slot.Later a.slots a'.slots

/-- The adapter has a slot for every part. Resolved slots refer to adapters of their types, and
slots for one type are resolved together. -/
structure FittedAdapter (r : Registry) (a : Adapter) : Prop where
  slots : ∀ t ∈ a.codec.parts, ∃ slot ∈ a.slots, slot.target = t
  resolved : ∀ slot ∈ a.slots, ∀ k, slot.resolved = some k → r.serves k slot.target = true
  together : ∀ slot ∈ a.slots, ∀ slot' ∈ a.slots, slot.target = slot'.target →
    slot.resolved = slot'.resolved

def Fitted (r : Registry) : Prop :=
  ∀ (id : AdapterId) a, r.adapters[id]? = some a → r.FittedAdapter a

/-- The slot of an adapter for a type. -/
def slot? (r : Registry) (owner : AdapterId) (t : Ty) : Option Slot :=
  (r.adapters[owner]?).bind fun a => a.slots.find? fun s => s.target = t

/-- What the slot of an adapter for a type is resolved to. -/
def resolved? (r : Registry) (owner : AdapterId) (t : Ty) : Option AdapterId :=
  (r.slot? owner t).bind (·.resolved)

/-- The slots of an adapter for a type are resolved, the first of them to the adapter `k`. -/
structure Refers (r : Registry) (owner : AdapterId) (t : Ty) (k : AdapterId) : Prop where
  first : r.resolved? owner t = some k
  all : ∀ a, r.adapters[owner]? = some a → ∀ slot ∈ a.slots, slot.target = t →
    slot.resolved.isSome = true

variable {r r' r₁ r₂ : Registry} {t u : Ty} {id k owner : AdapterId} {c : Codec}

/-! ## Later registries -/

/-- Adapters may be added. -/
theorem Retains.of_adapters (hs : r'.schema = r.schema)
    (ha : ∀ (id : AdapterId) a, r.adapters[id]? = some a → r'.adapters[id]? = some a) :
    Retains r r' :=
  ⟨hs, fun id a h => ⟨a, ha id a h, rfl, List.forall₂_same.2 fun s _ => .refl s⟩⟩

theorem Retains.refl (r : Registry) : Retains r r := .of_adapters rfl fun _ _ h => h

theorem Retains.trans (h : Retains r r₁) (h' : Retains r₁ r₂) : Retains r r₂ := by
  refine ⟨h'.schema.trans h.schema, fun id a ha => ?_⟩
  obtain ⟨a₁, ha₁, hc₁, hslots₁⟩ := h.adapter id a ha
  obtain ⟨a₂, ha₂, hc₂, hslots₂⟩ := h'.adapter id a₁ ha₁
  exact ⟨a₂, ha₂, hc₂.trans hc₁, Slot.later_all_trans hslots₁ hslots₂⟩

theorem Retains.moves (h : Retains r r') (hm : r.Moves id c) : r'.Moves id c := by
  obtain ⟨a, ha, rfl⟩ := hm
  obtain ⟨a', ha', hc, -⟩ := h.adapter id a ha
  exact ⟨a', ha', hc⟩

theorem Retains.serves (h : Retains r r') (hs : r.serves id t = true) : r'.serves id t = true := by
  obtain ⟨a, ha, rfl⟩ := serves_iff.1 hs
  obtain ⟨a', ha', hc, -⟩ := h.adapter id a ha
  exact serves_iff.2 ⟨a', ha', by rw [hc]⟩

/-- The first slot for a type is at the same place later. -/
theorem find?_later {ss ss' : List Slot} (h : List.Forall₂ Slot.Later ss ss') {s : Slot}
    (hs : (ss.find? fun s => s.target = t) = some s) :
    ∃ s', (ss'.find? fun s => s.target = t) = some s' ∧ s.Later s' := by
  induction h with
  | nil => cases hs
  | @cons x x' xs xs' hx hxs ih =>
    by_cases ht : x.target = t
    · rw [List.find?_cons_of_pos (by simpa using ht)] at hs
      cases hs
      refine ⟨x', List.find?_cons_of_pos ?_, hx⟩
      rw [decide_eq_true_eq, hx.target, ht]
    · rw [List.find?_cons_of_neg (by simpa using ht)] at hs
      obtain ⟨s', hs', hlater⟩ := ih hs
      refine ⟨s', ?_, hlater⟩
      rw [List.find?_cons_of_neg, hs']
      rw [decide_eq_true_eq, hx.target]
      exact ht

theorem Retains.slot? (h : Retains r r') {s : Slot} (hs : r.slot? owner t = some s) :
    ∃ s', r'.slot? owner t = some s' ∧ s.Later s' := by
  obtain ⟨a, ha, hs⟩ := Option.bind_eq_some_iff.1 hs
  obtain ⟨a', ha', -, hslots⟩ := h.adapter owner a ha
  obtain ⟨s', hs', hlater⟩ := find?_later hslots hs
  exact ⟨s', Option.bind_eq_some_iff.2 ⟨a', ha', hs'⟩, hlater⟩

/-- What a slot is resolved to, it is resolved to for good. -/
theorem Retains.resolved? (h : Retains r r') (hs : r.resolved? owner t = some k) :
    r'.resolved? owner t = some k := by
  obtain ⟨s, hs, hk⟩ := Option.bind_eq_some_iff.1 hs
  obtain ⟨s', hs', hlater⟩ := h.slot? hs
  exact Option.bind_eq_some_iff.2 ⟨s', hs', hlater.resolved k hk⟩

/-- What an adapter refers to, it refers to for good. -/
theorem Refers.retains (h : r.Refers owner t k) (hr : Retains r r') : r'.Refers owner t k := by
  refine ⟨hr.resolved? h.first, fun a' ha' slot' hslot' ht => ?_⟩
  obtain ⟨s, hs, -⟩ := Option.bind_eq_some_iff.1 h.first
  obtain ⟨a, ha, -⟩ := Option.bind_eq_some_iff.1 hs
  obtain ⟨a'', ha'', -, hslots⟩ := hr.adapter owner a ha
  obtain rfl : a' = a'' := Option.some.inj (ha'.symm.trans ha'')
  obtain ⟨i, hi, rfl⟩ := List.getElem_of_mem hslot'
  have hbefore : i < a.slots.length := hslots.length_eq ▸ hi
  have hlater : a.slots[i].Later a'.slots[i] := hslots.get hbefore hi
  obtain ⟨k', hk'⟩ := Option.isSome_iff_exists.1
    (h.all a ha _ (List.getElem_mem hbefore) (hlater.target.symm.trans ht))
  rw [hlater.resolved k' hk']
  rfl

/-! ## Steps of requests -/

theorem retains_settled (r : Registry) (owner : AdapterId) (t : Ty) (id : AdapterId) :
    Retains r (r.settled owner t id) := by
  refine ⟨rfl, fun k a ha => ?_⟩
  rw [settled_getElem?, ha]
  split
  · refine ⟨_, rfl, rfl, ?_⟩
    rw [List.forall₂_map_right_iff]
    exact List.forall₂_same.2 fun s _ => Slot.later_settle t id s
  · exact ⟨a, rfl, rfl, List.forall₂_same.2 fun s _ => .refl s⟩

theorem FittedAdapter.retains {a : Adapter} (h : r.FittedAdapter a) (hr : Retains r r') :
    r'.FittedAdapter a :=
  ⟨h.slots, fun slot hslot k hk => hr.serves (h.resolved slot hslot k hk), h.together⟩

/-- A new adapter has slots, and none of them is resolved. -/
theorem Fitted.instantiate {a : Adapter} {token : TypeToken Ty} (h : r.Fitted)
    (ha : r.choose t token = .ok a) : (r.instantiate a).2.Fitted := by
  intro id b hb
  obtain rfl | hb := adapters_of_instantiate hb
  · obtain ⟨c, hbuild, -⟩ := choose_eq_ok ha
    obtain ⟨hparts, hslots⟩ := slots_of_build hbuild
    have hnone (slot : Slot) (hslot : slot ∈ b.slots) : slot.resolved = none :=
      (hslots slot hslot).2
    refine ⟨(build_eq_some hbuild).1 ▸ hparts, fun slot hslot k hk => ?_,
      fun slot hslot slot' hslot' _ => (hnone slot hslot).trans (hnone slot' hslot').symm⟩
    cases (hnone slot hslot).symm.trans hk
  · exact (h id b hb).retains (.of_adapters rfl fun _ _ => adapters_instantiate a)

/-- Whether adapters fit depends on the adapters alone. -/
theorem Fitted.of_adapters (h : r.Fitted) (hs : r'.schema = r.schema)
    (ha : r'.adapters = r.adapters) : r'.Fitted :=
  fun id a hid => (h id a (ha ▸ hid)).retains (.of_adapters hs fun _ _ h => ha ▸ h)

theorem Fitted.handOut (h : r.Fitted) (t : Ty) (id : AdapterId) : (r.handOut t id).2.Fitted :=
  h.of_adapters (keeps_handOut r t id).schema (adapters_handOut r t id)

theorem Fitted.settled (h : r.Fitted) (owner : AdapterId) (hs : r.serves id t = true) :
    (r.settled owner t id).Fitted := by
  intro k a ha
  rw [settled_getElem?] at ha
  split at ha
  · obtain ⟨b, hb, rfl⟩ := Option.map_eq_some_iff.1 ha
    obtain ⟨hslots, hresolved, htogether⟩ := h k b hb
    refine .retains ⟨fun u hu => ?_, fun slot hslot n hn => ?_, ?_⟩ (retains_settled r owner t id)
    · obtain ⟨slot, hslot, rfl⟩ := hslots u hu
      exact ⟨_, List.mem_map_of_mem hslot, settle_target ..⟩
    · obtain ⟨slot, hmem, rfl⟩ := List.mem_map.1 hslot
      rw [settle_target]
      exact serves_of_settle hs (hresolved slot hmem) hn
    · intro slot hslot slot' hslot' hsame
      obtain ⟨x, hx, rfl⟩ := List.mem_map.1 hslot
      obtain ⟨y, hy, rfl⟩ := List.mem_map.1 hslot'
      rw [settle_target, settle_target] at hsame
      simp only [Slot.settle, hsame, apply_ite Slot.resolved, htogether x hx y hy hsame]
  · exact (h k a ha).retains (retains_settled r owner t id)

/-- A request by any token answers with an adapter of the type, or changes nothing. Other adapters
are left as they are. -/
theorem Fitted.adapterOf_ends (h : r.Fitted) (token : TypeToken Ty) : Ends (adapterOf t token) r
    (fun id r' => r'.Fitted ∧ r'.serves id t = true ∧ r'.schema = r.schema ∧
      ∀ (k : AdapterId) a, r.adapters[k]? = some a → r'.adapters[k]? = some a)
    (fun e r' => r' = r ∧ e.OfSearch) := by
  obtain ⟨-, hrun⟩ | ⟨-, ⟨id, hk, hrun⟩ | ⟨-, ⟨e, hc, hrun⟩ | ⟨a, hc, hrun⟩⟩⟩ :=
    adapterOf_cases r t token
  · exact .of_error hrun ⟨rfl, trivial⟩
  · exact .of_ok hrun ⟨h, (Option.filter_eq_some_iff.1 hk).2, rfl, fun _ _ ha => ha⟩
  · refine .of_error hrun ⟨rfl, ?_⟩
    obtain ⟨rfl, -⟩ | ⟨c, a, -, -, -, rfl⟩ | ⟨-, -, rfl⟩ := choose_eq_error hc <;> trivial
  · refine .of_ok hrun ⟨(h.instantiate hc).handOut t _,
      serves_handOut_self (serves_instantiate_of_choose hc),
      (keeps_handOut (r.instantiate a).2 t _).schema, fun k b hb => ?_⟩
    rw [adapters_handOut]
    exact adapters_instantiate a hb

/-! ## Parts -/

variable {slot : Slot} {e : AdapterFailure}

theorem part_of_answered (hs : r.slot? owner t = some slot) (hx : resolve slot r = .ok k r') :
    part owner t r = .ok k (r'.settled owner t k) := by
  unfold Registry.slot? at hs
  simp only [part, hs, hx]
  rfl

theorem part_of_refused (hs : r.slot? owner t = some slot) (hx : resolve slot r = .error e r') :
    part owner t r = .error e r' := by
  unfold Registry.slot? at hs
  simp only [part, hs, hx]

theorem part_of_no_slot (hs : r.slot? owner t = none) :
    part owner t r = .error .misuse r := by
  unfold Registry.slot? at hs
  simp only [part, hs]

/-- Resolved slots are answered without the registry, and nothing changes. -/
theorem Refers.part_eq (h : r.Refers owner t k) : part owner t r = .ok k r := by
  obtain ⟨slot, hslot, hk⟩ := Option.bind_eq_some_iff.1 h.first
  -- a slot that refers to the adapter is settled as it was
  have hsettled : r.settled owner t k = r := by
    have hadapters : (r.settled owner t k).adapters = r.adapters := by
      refine Array.ext_getElem? fun i => ?_
      rw [settled_getElem?]
      split
      · next hi =>
        subst hi
        cases ha : r.adapters[owner]? with
        | none => rfl
        | some a =>
          have hslots : a.slots.map (Slot.settle t k) = a.slots :=
            (List.map_congr_left fun s hs => Slot.settle_eq (h.all a ha s hs)).trans
              (List.map_id _)
          rw [Option.map_some, hslots]
      · rfl
    cases r
    simpa [Registry.settled] using hadapters
  have hresolve : resolve slot r = .ok k r := by
    unfold resolve
    rw [hk]
    rfl
  rw [part_of_answered hslot hresolve, hsettled]

/-- A slot that was not resolved refers to the adapter that it is settled with. -/
theorem refers_settled (hslot : r.slot? owner t = some slot)
    (hnone : slot.resolved = none) : (r.settled owner t k).Refers owner t k := by
  obtain ⟨a, ha, hfind⟩ := Option.bind_eq_some_iff.1 hslot
  have htarget : slot.target = t := by simpa using List.find?_some hfind
  -- settling changes the slots of the owner, and nothing else
  have ha' : (r.settled owner t k).adapters[owner]? =
      some { a with slots := a.slots.map (Slot.settle t k) } := by
    rw [settled_getElem?, if_pos rfl, ha, Option.map_some]
  constructor
  · have hfind' : ((a.slots.map (Slot.settle t k)).find? fun s => s.target = t) =
        some (slot.settle t k) := by
      simp only [List.find?_map, Function.comp_def, settle_target, hfind, Option.map_some]
    rw [resolved?, Registry.slot?, ha', Option.bind_some, hfind', Option.bind_some, Slot.settle,
      if_pos htarget, hnone]
    rfl
  · intro b hb s hs hst
    cases ha'.symm.trans hb
    obtain ⟨x, -, rfl⟩ := List.mem_map.1 hs
    rw [settle_target] at hst
    rw [Slot.settle, if_pos hst]
    rfl

/-- An adapter that needs a type asks the registry until the slot is resolved. It is refused only
while the slot is not resolved, which it stays then; a dropped registry always refuses it. -/
theorem Fitted.part_ends (h : r.Fitted) (hm : r.Moves owner c) (ht : t ∈ c.parts) :
    Ends (part owner t) r
      (fun k r' => r'.Fitted ∧ Retains r r' ∧ r'.serves k t = true ∧ r'.Refers owner t k ∧
        (r.alive = false → r' = r))
      (fun e r' => r' = r ∧ e.OfSearch ∧ (r.alive = false → e = .error .registryDropped) ∧
        r.resolved? owner t = none) := by
  obtain ⟨a, ha, rfl⟩ := hm
  have hfits := h owner a ha
  obtain ⟨slot, hslot, htarget, hfind⟩ := exists_slot (hfits.slots t ht)
  have hslot? : r.slot? owner t = some slot := Option.bind_eq_some_iff.2 ⟨a, ha, hfind⟩
  cases hk : slot.resolved with
  | some k =>
    -- slots of one type are resolved together
    have hrefers : r.Refers owner t k := by
      refine ⟨by rw [resolved?, hslot?, Option.bind_some, hk], fun a' ha' s hs hst => ?_⟩
      obtain rfl : a = a' := Option.some.inj (ha.symm.trans ha')
      rw [hfits.together s hs slot hslot (hst.trans htarget.symm), hk]
      rfl
    exact .of_ok hrefers.part_eq
      ⟨h, .refl r, htarget ▸ hfits.resolved slot hslot k hk, hrefers, fun _ => rfl⟩
  | none =>
    have hunresolved : r.resolved? owner t = none := by
      rw [resolved?, hslot?, Option.bind_some, hk]
    cases hlive : r.alive with
    | false =>
      have hresolve : resolve slot r = .error (.error .registryDropped) r := by
        rw [resolve_of_unresolved hk, hlive]
        rfl
      exact .of_error (part_of_refused hslot? hresolve) ⟨rfl, trivial, fun _ => rfl, hunresolved⟩
    | true =>
      have hresolve : resolve slot r = adapterOf slot.target slot.token r := by
        rw [resolve_of_unresolved hk, hlive]
        rfl
      have hends := h.adapterOf_ends (t := slot.target) slot.token
      cases hx : adapterOf slot.target slot.token r with
      | error e r' =>
        obtain ⟨rfl, he⟩ := hends.error hx
        exact .of_error (part_of_refused hslot? (hresolve.trans hx)) ⟨rfl, he, nofun, hunresolved⟩
      | ok k r' =>
        obtain ⟨hfitted, hserves, hschema, hsame⟩ := hends.ok hx
        rw [htarget] at hserves
        have hsettled := retains_settled r' owner t k
        have hslot' : r'.slot? owner t = some slot :=
          Option.bind_eq_some_iff.2 ⟨a, hsame owner a ha, hfind⟩
        exact .of_ok (part_of_answered hslot? (hresolve.trans hx)) ⟨hfitted.settled owner hserves,
          (Retains.of_adapters hschema hsame).trans hsettled, hsettled.serves hserves,
          refers_settled hslot' hk, nofun⟩

/-- A request for a part that is refused leaves the slot as it was, which is not resolved. -/
theorem Fitted.part_refused (h : r.Fitted) (hp : part owner t r = .error e r') :
    r' = r ∧ r.resolved? owner t = none := by
  unfold resolved?
  cases hs : r.slot? owner t with
  | none =>
    cases (part_of_no_slot hs).symm.trans hp
    exact ⟨rfl, rfl⟩
  | some slot =>
    -- only a slot that is not resolved can be refused
    cases hx : resolve slot r with
    | ok k r₁ => cases (part_of_answered hs hx).symm.trans hp
    | error e₁ r₁ =>
      cases (part_of_refused hs hx).symm.trans hp
      cases hk : slot.resolved with
      | some k =>
        rw [resolve, hk] at hx
        cases hx
      | none =>
        refine ⟨?_, hk⟩
        rw [resolve_of_unresolved hk] at hx
        split at hx
        · exact ((h.adapterOf_ends slot.token).error hx).1
        · cases hx
          rfl

/-- A new registry has no adapters. -/
theorem fitted_of_new {S : Schema} {fs : List Factory} :
    Fitted { schema := S, factories := fs } :=
  fun id a ha => by simp at ha

end Registry

end JsonAdapters
