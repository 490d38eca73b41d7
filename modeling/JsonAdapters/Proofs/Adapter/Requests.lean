import Mathlib.Data.List.Nodup
import JsonAdapters.Proofs.Adapter.Validity

/-!
# Overlapping requests

A registry and its clones share one cache, and their requests may overlap. A request looks its type
up, makes an adapter when there is none and stores what it made, and other requests take steps in
between. Two requests may both find nothing and make an adapter each: the one that is stored first
is what both of them answer.

## Main definitions

* `Request`, `Stage`, `Request.next`: a request, how far it has come, and its next step.
* `System`, `Event`, `System.step`, `System.run`: requests that take their steps in any order,
  while slots remember answers and factories change their minds.
* `System.Coherent`: the invariant of the cache and the requests in flight.

## Main statements

* `System.run_alone`, `System.run_part`: without others, the steps of a request are
  `Registry.adapterOf`, and those of a slot are `Registry.part`.
* `System.requests_agree`: what holds after every run.
-/

namespace JsonAdapters

/-- A request for the adapter of a type, by a token. -/
structure Request where
  type : Ty
  token : TypeToken Ty

/-- How far a request has come. -/
inductive Stage
  | asked
  /-- The type was not in the cache. -/
  | missed
  /-- An adapter was made, and is not stored yet. -/
  | made (id : AdapterId)
  | answered (answer : Except AdapterError AdapterId)

namespace Request

/-- Look the type up, by a token that describes it. -/
def look (q : Request) (r : Registry) : Stage :=
  if !q.token.describes q.type then
    .answered (.error (.tokenMismatch q.token.text q.type.path))
  else match r.known? q.type with
    | some id => .answered (.ok id)
    | none => .missed

/-- Make the chosen adapter. A request that comes to a token without end never gets beyond this
step. -/
def make (q : Request) (r : Registry) : Stage × Registry :=
  match r.choose q.type q.token with
  | .ok a => (.made (r.instantiate a).1, (r.instantiate a).2)
  | .error (.error e) => (.answered (.error e), r)
  | .error _ => (.missed, r)

/-- Store what was made, and answer with what is stored. -/
def store (q : Request) (id : AdapterId) (r : Registry) : Stage × Registry :=
  (.answered (.ok (r.handOut q.type id).1), (r.handOut q.type id).2)

/-- The next step of a request. One that is answered has none. -/
def next (q : Request) (r : Registry) : Stage → Stage × Registry
  | .asked => (q.look r, r)
  | .missed => q.make r
  | .made id => q.store id r
  | .answered answer => (.answered answer, r)

end Request

/-- A registry and the requests that were made to it or to one of its clones. -/
structure System where
  registry : Registry
  requests : List (Request × Stage) := []

inductive Event
  /-- A request begins. -/
  | ask (q : Request)
  /-- A read or a write needs the adapter of a part. -/
  | need (owner : AdapterId) (t : Ty)
  /-- A request takes its next step. -/
  | advance (i : Nat)
  /-- A slot remembers the answer to a request. -/
  | keep (owner : AdapterId) (i : Nat)
  /-- From now on the factories answer in another way. -/
  | turn (factories : List Factory)

/-- The event begins a request for the type. -/
def Event.Seeks (t : Ty) : Event → Prop
  | .ask q => q.type = t
  | .need _ u => u = t
  | _ => False

namespace System

variable {s : System} {e : Event} {i j : Nat} {t : Ty} {id : AdapterId} {q : Request}
  {stage : Stage} {r r' : Registry}

def ask (s : System) (q : Request) : System :=
  { s with requests := s.requests ++ [(q, .asked)] }

/-- A slot that is not resolved asks for what it stands for, as long as the registry is alive. -/
def need (s : System) (owner : AdapterId) (t : Ty) : System :=
  match (s.registry.adapters[owner]?).bind fun a => a.slots.find? fun slot => slot.target = t with
  | some slot =>
    if slot.resolved.isNone && s.registry.alive then s.ask ⟨slot.target, slot.token⟩ else s
  | none => s

def advance (s : System) (i : Nat) : System :=
  match s.requests[i]? with
  | some (q, stage) =>
    let (stage, r) := q.next s.registry stage
    { registry := r, requests := s.requests.set i (q, stage) }
  | none => s

def keep (s : System) (owner : AdapterId) (i : Nat) : System :=
  match s.requests[i]? with
  | some (q, .answered (.ok id)) => { s with registry := s.registry.settled owner q.type id }
  | _ => s

def turn (s : System) (factories : List Factory) : System :=
  { s with registry := { s.registry with factories } }

def step (s : System) : Event → System
  | .ask q => s.ask q
  | .need owner t => s.need owner t
  | .advance i => s.advance i
  | .keep owner i => s.keep owner i
  | .turn factories => s.turn factories

def run (s : System) (events : List Event) : System := events.foldl step s

/-- The request of number `i` was one for the type, and this is its answer. -/
def Answers (s : System) (i : Nat) (t : Ty) (answer : Except AdapterError AdapterId) : Prop :=
  ∃ q, s.requests[i]? = some (q, .answered answer) ∧ q.type = t

/-- The cache has one adapter for a type, and it serves the type. What a request has made serves its
type too, and what it has answered is the adapter of the cache. -/
structure Coherent (s : System) : Prop where
  distinct : (s.registry.cache.map Prod.fst).Nodup
  cached : ∀ t id, (t, id) ∈ s.registry.cache → s.registry.serves id t = true
  made : ∀ q id, (q, .made id) ∈ s.requests → s.registry.serves id q.type = true
  answered : ∀ q id, (q, .answered (.ok id)) ∈ s.requests → (q.type, id) ∈ s.registry.cache

@[simp] theorem run_nil (s : System) : s.run [] = s := rfl

@[simp] theorem run_cons (s : System) (e : Event) (es : List Event) :
    s.run (e :: es) = (s.step e).run es := rfl

/-- Events happen in their order. -/
theorem run_append (s : System) (es es' : List Event) :
    s.run (es ++ es') = (s.run es).run es' := List.foldl_append

/-! ## One step of a request -/

/-- What is found in the cache is in it. -/
theorem mem_of_lookup {cache : List (Ty × AdapterId)} (h : cache.lookup t = some id) :
    (t, id) ∈ cache := by
  obtain ⟨l₁, l₂, rfl, -⟩ := List.lookup_eq_some_iff.1 h
  simp

/-- What a step of a request does to the registry: adapters stay, and the cache changes only when
the request stores what it made, for a type that is not in the cache. -/
structure Advances (q : Request) (r r' : Registry) (stage' : Stage) : Prop where
  keeps : r.Keeps r'
  cache : r'.cache = r.cache ∨ ∃ id, stage' = .answered (.ok id) ∧ r.cache.lookup q.type = none ∧
    r'.cache = r.cache ++ [(q.type, id)] ∧ r.serves id q.type = true
  made : ∀ id, stage' = .made id → r'.serves id q.type = true
  answered : ∀ id, stage' = .answered (.ok id) → (q.type, id) ∈ r'.cache

namespace Advances

variable {r' : Registry} {stage' : Stage}

/-- Everything in the cache stays there. -/
theorem mem_cache (h : Advances q r r' stage') {p : Ty × AdapterId} (hp : p ∈ r.cache) :
    p ∈ r'.cache := by
  obtain hc | ⟨k, -, -, hc, -⟩ := h.cache
  · rwa [hc]
  · rw [hc]
    exact List.mem_append_left _ hp

/-- A step of a request leaves one entry for each type in the cache. -/
theorem nodup_cache (h : Advances q r r' stage') (hr : (r.cache.map Prod.fst).Nodup) :
    (r'.cache.map Prod.fst).Nodup := by
  obtain hc | ⟨k, -, hnone, hc, -⟩ := h.cache
  · rwa [hc]
  · rw [hc, List.map_append, List.nodup_append]
    refine ⟨hr, by simp, ?_⟩
    rintro t ht u hu rfl
    obtain rfl : t = q.type := by simpa using hu
    obtain ⟨p, hp, hpt⟩ := List.mem_map.1 ht
    have hne := List.lookup_eq_none_iff.1 hnone p hp
    simp [hpt] at hne

/-- A step of a request leaves adapters in the cache that serve their types. -/
theorem serves_cache (h : Advances q r r' stage')
    (hr : ∀ t id, (t, id) ∈ r.cache → r.serves id t = true) (hmem : (t, id) ∈ r'.cache) :
    r'.serves id t = true := by
  obtain hc | ⟨k, -, -, hc, hk⟩ := h.cache
  · rw [hc] at hmem
    exact h.keeps.serves (hr t id hmem)
  · rw [hc] at hmem
    obtain hmem | hmem := List.mem_append.1 hmem
    · exact h.keeps.serves (hr t id hmem)
    · cases List.mem_singleton.1 hmem
      exact h.keeps.serves hk

end Advances

/-- A lookup changes nothing, and answers with the adapter of the cache. -/
theorem look_advances (q : Request) (r : Registry) : Advances q r r (q.look r) := by
  unfold Request.look
  split
  · exact ⟨.refl r, .inl rfl, by simp, by simp⟩
  · split
    · next id hk =>
      refine ⟨.refl r, .inl rfl, by simp, fun id' hid => ?_⟩
      cases hid
      exact mem_of_lookup (Option.filter_eq_some_iff.1 hk).1
    · exact ⟨.refl r, .inl rfl, by simp, by simp⟩

/-- What is made serves the type, and is not in the cache yet. -/
theorem make_advances (q : Request) (r : Registry) : Advances q r (q.make r).2 (q.make r).1 := by
  unfold Request.make
  cases hc : r.choose q.type q.token with
  | error f => cases f <;> exact ⟨.refl r, .inl rfl, nofun, nofun⟩
  | ok a =>
    refine ⟨r.keeps_instantiate a, .inl rfl, fun id hid => ?_, nofun⟩
    cases hid
    exact Registry.serves_instantiate_of_choose hc

/-- An adapter that the cache has for a type is what a request for the type answers that would store
another one. -/
theorem handOut_of_lookup (h : ∀ t id, (t, id) ∈ r.cache → r.serves id t = true) {known : AdapterId}
    (hl : r.cache.lookup t = some known) : r.handOut t id = (known, r) := by
  simp only [Registry.handOut, hl, h t known (mem_of_lookup hl), if_true]

/-- To store an adapter is a step of a request. -/
theorem store_advances (h : ∀ t id, (t, id) ∈ r.cache → r.serves id t = true)
    (hs : r.serves id q.type = true) : Advances q r (q.store id r).2 (q.store id r).1 := by
  have hg := r.keeps_handOut q.type id
  unfold Request.store
  cases hl : r.cache.lookup q.type with
  | some known =>
    rw [handOut_of_lookup h hl]
    refine ⟨.refl r, .inl rfl, nofun, fun id' hid => ?_⟩
    cases hid
    exact mem_of_lookup hl
  | none =>
    have hstored : r.handOut q.type id = (id, { r with cache := r.cache ++ [(q.type, id)] }) := by
      simp only [Registry.handOut, hl]
    rw [hstored] at hg ⊢
    refine ⟨hg, .inr ⟨id, rfl, hl, rfl, hs⟩, nofun, fun id' hid => ?_⟩
    cases hid
    exact List.mem_append_right _ (List.mem_singleton.2 rfl)

/-- What a request does next is a step of it. -/
theorem next_advances (h : ∀ t id, (t, id) ∈ r.cache → r.serves id t = true)
    (hmade : ∀ id, stage = .made id → r.serves id q.type = true)
    (hanswered : ∀ id, stage = .answered (.ok id) → (q.type, id) ∈ r.cache) :
    Advances q r (q.next r stage).2 (q.next r stage).1 := by
  cases stage with
  | asked => exact look_advances q r
  | missed => exact make_advances q r
  | made id => exact store_advances h (hmade id rfl)
  | answered a => exact ⟨.refl r, .inl rfl, nofun, hanswered⟩

/-! ## One event -/

/-- Only one request advances at a time. -/
theorem advance_eq (hi : s.requests[i]? = some (q, stage)) :
    s.advance i = ⟨(q.next s.registry stage).2,
      s.requests.set i (q, (q.next s.registry stage).1)⟩ := by
  simp only [advance, hi]

/-- A slot that needs an adapter asks for it, or there is nothing to do. -/
theorem need_cases (s : System) (owner : AdapterId) (t : Ty) :
    s.need owner t = s ∨ ∃ q, t = q.type ∧ s.need owner t = s.ask q := by
  unfold need
  split
  · next slot hslot =>
    split
    · obtain ⟨a, -, hfind⟩ := Option.bind_eq_some_iff.1 hslot
      have htarget : slot.target = t := by simpa using List.find?_some hfind
      exact .inr ⟨_, htarget.symm, rfl⟩
    · exact .inl rfl
  · exact .inl rfl

/-- To keep an adapter is to settle the slots of its owner, where it was answered. -/
theorem keep_cases (s : System) (owner : AdapterId) (i : Nat) :
    s.keep owner i = s ∨
      ∃ t id, s.keep owner i = { s with registry := s.registry.settled owner t id } := by
  unfold keep
  split
  · exact .inr ⟨_, _, rfl⟩
  · exact .inl rfl

/-- What an event can do: nothing, begin a request, take a step of one, or change the registry in
ways that the cache does not see. -/
theorem step_cases (s : System) (e : Event) :
    s.step e = s ∨ (∃ q, e.Seeks q.type ∧ s.step e = s.ask q) ∨
      (∃ i q stage, e = .advance i ∧ s.requests[i]? = some (q, stage) ∧ s.step e =
        ⟨(q.next s.registry stage).2, s.requests.set i (q, (q.next s.registry stage).1)⟩) ∨
      ∃ r, s.step e = { s with registry := r } ∧ r.cache = s.registry.cache ∧
        ∀ id t, s.registry.serves id t = true → r.serves id t = true := by
  cases e with
  | ask q => exact .inr (.inl ⟨q, rfl, rfl⟩)
  | need owner t => exact (need_cases s owner t).imp id .inl
  | advance i =>
    cases hi : s.requests[i]? with
    | none =>
      refine .inl ?_
      simp only [step, advance, hi]
    | some p => exact .inr (.inr (.inl ⟨i, p.1, p.2, rfl, hi, advance_eq hi⟩))
  -- to keep an adapter changes slots, not the cache
  | keep owner i =>
    obtain heq | ⟨t, id, heq⟩ := keep_cases s owner i
    · exact .inl heq
    · exact .inr (.inr (.inr ⟨_, heq, rfl, fun _ _ => (s.registry.keeps_settled ..).serves⟩))
  | turn factories => exact .inr (.inr (.inr ⟨_, rfl, rfl, fun _ _ h => h⟩))

/-- A new request leaves the cache as it is. -/
theorem Coherent.ask (h : s.Coherent) (q : Request) : (s.ask q).Coherent := by
  refine ⟨h.distinct, h.cached, fun q' id hmem => ?_, fun q' id hmem => ?_⟩
  · have hmem := List.mem_append.1 hmem
    simp only [List.mem_singleton, Prod.mk.injEq, reduceCtorEq, and_false, or_false] at hmem
    exact h.made q' id hmem
  · have hmem := List.mem_append.1 hmem
    simp only [List.mem_singleton, Prod.mk.injEq, reduceCtorEq, and_false, or_false] at hmem
    exact h.answered q' id hmem

/-- In a coherent system, a request advances by its steps. -/
theorem Coherent.advances (h : s.Coherent) (hi : s.requests[i]? = some (q, stage)) :
    Advances q s.registry (q.next s.registry stage).2 (q.next s.registry stage).1 := by
  have hmem := List.mem_of_getElem? hi
  refine next_advances h.cached ?_ ?_
  · rintro id rfl
    exact h.made q id hmem
  · rintro id rfl
    exact h.answered q id hmem

/-- A registry may gain adapters while its cache stays. -/
theorem Coherent.grow (h : s.Coherent) (hserves : ∀ id t, s.registry.serves id t = true →
    r.serves id t = true) (hcache : r.cache = s.registry.cache) :
    Coherent { s with registry := r } := by
  refine ⟨?_, fun t id hmem => ?_, fun q id hmem => ?_, fun q id hmem => ?_⟩
  · rw [hcache]
    exact h.distinct
  · rw [hcache] at hmem
    exact hserves id t (h.cached t id hmem)
  · exact hserves id q.type (h.made q id hmem)
  · rw [hcache]
    exact h.answered q id hmem

/-- A system stays coherent when a request advances. -/
theorem Coherent.advance (h : s.Coherent) (hi : s.requests[i]? = some (q, stage)) :
    Coherent ⟨(q.next s.registry stage).2,
      s.requests.set i (q, (q.next s.registry stage).1)⟩ := by
  have ha := h.advances hi
  refine ⟨ha.nodup_cache h.distinct, fun t id hmem => ha.serves_cache h.cached hmem,
    fun q' id hmem => ?_, fun q' id hmem => ?_⟩
  · rcases List.mem_or_eq_of_mem_set hmem with hmem | heq
    · exact ha.keeps.serves (h.made q' id hmem)
    · obtain ⟨rfl, heq⟩ := Prod.mk.inj heq
      exact ha.made id heq.symm
  · rcases List.mem_or_eq_of_mem_set hmem with hmem | heq
    · exact ha.mem_cache (h.answered q' id hmem)
    · obtain ⟨rfl, heq⟩ := Prod.mk.inj heq
      exact ha.answered id heq.symm

/-- One event keeps the cache and the requests coherent. -/
theorem Coherent.step (h : s.Coherent) (e : Event) : (s.step e).Coherent := by
  obtain heq | ⟨q, -, heq⟩ | ⟨i, q, stage, -, hi, heq⟩ | ⟨r, heq, hcache, hserves⟩ := step_cases s e
  · rw [heq]
    exact h
  · rw [heq]
    exact h.ask q
  · rw [heq]
    exact h.advance hi
  · rw [heq]
    exact h.grow hserves hcache

/-- The cache changes only when a request stores what it made: then it gains the entry of the type
that was asked for, and the request is answered. -/
theorem Coherent.step_cache (h : s.Coherent) (e : Event) :
    (s.step e).registry.cache = s.registry.cache ∨
      ∃ i t id, e = .advance i ∧ (s.step e).Answers i t (.ok id) ∧
        (s.step e).registry.cache = s.registry.cache ++ [(t, id)] := by
  obtain heq | ⟨q, -, heq⟩ | ⟨i, q, stage, he, hi, heq⟩ | ⟨r, heq, hcache, -⟩ := step_cases s e
  · exact .inl (by rw [heq])
  · exact .inl (by rw [heq]; rfl)
  · rcases (h.advances hi).cache with hc | ⟨id, hid, -, hc, -⟩
    · exact .inl (by rw [heq, hc])
    · refine .inr ⟨i, q.type, id, he, ⟨q, ?_, rfl⟩, by rw [heq, hc]⟩
      rw [heq, hid]
      exact List.getElem?_set_self (List.getElem?_eq_some_iff.1 hi).1
  · exact .inl (by rw [heq, hcache])

/-- A request that is answered stays so. -/
theorem Answers.step {a : Except AdapterError AdapterId} (h : s.Answers i t a) (e : Event) :
    (s.step e).Answers i t a := by
  obtain ⟨q, hi, rfl⟩ := h
  have hlt := (List.getElem?_eq_some_iff.1 hi).1
  refine ⟨q, ?_, rfl⟩
  obtain heq | ⟨q', -, heq⟩ | ⟨j, q', stage, -, hj, heq⟩ | ⟨r, heq, -, -⟩ := step_cases s e
  · rw [heq, hi]
  · rw [heq, ask, List.getElem?_append_left hlt, hi]
  · rw [heq]
    by_cases hij : j = i
    · obtain rfl := hij
      cases hi.symm.trans hj
      exact List.getElem?_set_self hlt
    · rw [List.getElem?_set_ne hij, hi]
  · rw [heq, hi]

/-- A request has one type and one answer. -/
theorem Answers.unique {a a' : Except AdapterError AdapterId} {t' : Ty} (h : s.Answers i t a)
    (h' : s.Answers i t' a') : t = t' ∧ a = a' := by
  obtain ⟨q, hq, rfl⟩ := h
  obtain ⟨q', hq', rfl⟩ := h'
  cases hq.symm.trans hq'
  exact ⟨rfl, rfl⟩

/-- The types of requests and of what is in the cache are among these. -/
structure Within (S : Ty → Prop) (s : System) : Prop where
  requests : ∀ p ∈ s.requests, S p.1.type
  cache : ∀ p ∈ s.registry.cache, S p.1

/-- Events about some types concern no other ones. -/
theorem Within.step {S : Ty → Prop} (h : s.Within S) (hs : s.Coherent)
    (he : ∀ t, e.Seeks t → S t) : (s.step e).Within S := by
  -- only `ask` and `need` add a request, and an event names the type
  have hrequests : ∀ p ∈ (s.step e).requests, S p.1.type := by
    intro p hp
    obtain heq | ⟨q, hq, heq⟩ | ⟨i, q, stage, -, hi, heq⟩ | ⟨r, heq, -, -⟩ := step_cases s e
    · rw [heq] at hp
      exact h.requests p hp
    · rw [heq] at hp
      rcases List.mem_append.1 hp with hp | hp
      · exact h.requests p hp
      · cases List.mem_singleton.1 hp
        exact he q.type hq
    · rw [heq] at hp
      rcases List.mem_or_eq_of_mem_set hp with hp | rfl
      · exact h.requests p hp
      · exact h.requests (q, stage) (List.mem_of_getElem? hi)
    · rw [heq] at hp
      exact h.requests p hp
  refine ⟨hrequests, fun p hp => ?_⟩
  -- an entry of the cache comes from a request that is stored
  rcases hs.step_cache e with hc | ⟨i, t, id, -, ⟨q, hq, rfl⟩, hc⟩
  · rw [hc] at hp
    exact h.cache p hp
  · rw [hc] at hp
    rcases List.mem_append.1 hp with hp | hp
    · exact h.cache p hp
    · cases List.mem_singleton.1 hp
      exact hrequests _ (List.mem_of_getElem? hq)

/-! ## Runs -/

/-- A system stays coherent. -/
theorem Coherent.run (h : s.Coherent) (events : List Event) : (s.run events).Coherent := by
  induction events generalizing s with
  | nil => exact h
  | cons e es ih => exact ih (h.step e)

/-- An answer stays what it is. -/
theorem Answers.run {a : Except AdapterError AdapterId} (h : s.Answers i t a)
    (events : List Event) : (s.run events).Answers i t a := by
  induction events generalizing s with
  | nil => exact h
  | cons e es ih => exact ih (h.step e)

/-- Events about some types concern no other ones, however many there are. -/
theorem Within.run {S : Ty → Prop} (h : s.Within S) (hs : s.Coherent) (events : List Event)
    (he : ∀ e ∈ events, ∀ t, e.Seeks t → S t) : (s.run events).Within S := by
  induction events generalizing s with
  | nil => exact h
  | cons e es ih =>
    refine ih (h.step hs (he e List.mem_cons_self)) (hs.step e) fun e' he' => ?_
    exact he e' (List.mem_cons_of_mem e he')

/-- A registry to which nothing was asked yet. -/
def new (schema : Schema) (factories : List Factory) : System := ⟨{ schema, factories }, []⟩

/-- A system is coherent at the start. -/
theorem coherent_new (schema : Schema) (factories : List Factory) :
    (new schema factories).Coherent := ⟨List.nodup_nil, nofun, nofun, nofun⟩

/-- Without others, the steps of a request are what the registry does at once. What never ends has
no answer. -/
theorem run_alone (s : System) (q : Request) :
    s.run (.ask q :: List.replicate 3 (.advance s.requests.length)) =
      match Registry.adapterOf q.type q.token s.registry with
      | .ok id r => ⟨r, s.requests ++ [(q, .answered (.ok id))]⟩
      | .error (.error e) r => ⟨r, s.requests ++ [(q, .answered (.error e))]⟩
      | .error _ r => ⟨r, s.requests ++ [(q, .missed)]⟩ := by
  have hadvance (r : Registry) (stage : Stage) :
      advance ⟨r, s.requests ++ [(q, stage)]⟩ s.requests.length =
        ⟨(q.next r stage).2, s.requests ++ [(q, (q.next r stage).1)]⟩ := by
    have hlast : (s.requests ++ [(q, stage)])[s.requests.length]? = some (q, stage) := by simp
    rw [advance_eq (s := ⟨r, s.requests ++ [(q, stage)]⟩) hlast]
    simp
  simp only [run_cons, run_nil, List.replicate, step, ask, hadvance]
  -- the request ends as soon as it is answered, and its last steps then do nothing
  cases hd : q.token.describes q.type with
  | false => simp only [Request.next, Request.look, Registry.adapterOf, hd, Bool.not_false, if_true]
  | true =>
    cases hk : s.registry.known? q.type with
    | some id =>
      simp only [Request.next, Request.look, Registry.adapterOf, hd, hk, Bool.not_true,
        Bool.false_eq_true, if_false]
    | none =>
      cases hc : s.registry.choose q.type q.token with
      | error f =>
        cases f <;>
        · simp only [Request.next, Request.look, Request.make, Registry.adapterOf, hd, hk, hc,
            Bool.not_true, Bool.false_eq_true, if_false]
      | ok a =>
        simp only [Request.next, Request.look, Request.make, Request.store, Registry.adapterOf, hd,
          hk, hc, Bool.not_true, Bool.false_eq_true, if_false]

/-- Without others, a slot that needs an adapter gets it from the registry at once. -/
theorem run_part (s : System) {owner : AdapterId} {t : Ty} {slot : Slot}
    (hslot : ((s.registry.adapters[owner]?).bind fun a =>
      a.slots.find? fun slot => slot.target = t) = some slot)
    (hunresolved : slot.resolved = none) (halive : s.registry.alive = true) :
    (s.run (.need owner t :: (List.replicate 3 (.advance s.requests.length) ++
        [.keep owner s.requests.length]))).registry =
      match Registry.part owner t s.registry with
      | .ok _ r => r
      | .error _ r => r := by
  obtain ⟨a, -, hfind⟩ := Option.bind_eq_some_iff.1 hslot
  obtain rfl : slot.target = t := by simpa using List.find?_some hfind
  have hneed : s.step (.need owner slot.target) = s.step (.ask ⟨slot.target, slot.token⟩) := by
    simp only [step, need, hslot, hunresolved, halive, Option.isNone_none, Bool.and_self, if_true]
  rw [run_cons, hneed, ← run_cons, ← List.cons_append, run_append, run_alone, Registry.part, hslot]
  simp only [Registry.resolve_of_unresolved hunresolved, halive, if_true]
  cases Registry.adapterOf slot.target slot.token s.registry with
  | ok id r => simp [step, keep, Registry.settled]
  | error f r => cases f <;> simp [step, keep]

/-- After every run of requests, however their steps interleave: requests for one type have one
answer, if any; the cache has one entry for a type, of an adapter that serves it, so that a request
that would store another adapter answers the one of the cache; a request that fails leaves the cache
as it is, and any other adds the entry of its own type at most; and the cache has only types that
were asked for, or that a read or write needed. -/
theorem requests_agree (schema : Schema) (factories : List Factory) (events : List Event) :
    (∀ i j t id id', ((new schema factories).run events).Answers i t (.ok id) →
      ((new schema factories).run events).Answers j t (.ok id') → id = id') ∧
    (∀ t id, (t, id) ∈ ((new schema factories).run events).registry.cache →
      ((new schema factories).run events).registry.serves id t = true) ∧
    (((new schema factories).run events).registry.cache.map Prod.fst).Nodup ∧
    (∀ t known, ((new schema factories).run events).registry.cache.lookup t = some known →
      ∀ id, (((new schema factories).run events).registry.handOut t id).1 = known) ∧
    (∀ before i after, events = before ++ .advance i :: after → ∀ t e,
      ((new schema factories).run events).Answers i t (.error e) →
      ((new schema factories).run (before ++ [.advance i])).registry.cache =
        ((new schema factories).run before).registry.cache) ∧
    (∀ before event after, events = before ++ event :: after →
      ((new schema factories).run (before ++ [event])).registry.cache =
          ((new schema factories).run before).registry.cache ∨
        ∃ i t id, event = .advance i ∧ ((new schema factories).run events).Answers i t (.ok id) ∧
          ((new schema factories).run (before ++ [event])).registry.cache =
            ((new schema factories).run before).registry.cache ++ [(t, id)]) ∧
    ∀ t id, (t, id) ∈ ((new schema factories).run events).registry.cache →
      ∃ event ∈ events, event.Seeks t := by
  have hnew := coherent_new schema factories
  have hrun := hnew.run events
  -- what one event of the run does to the cache
  have hcache (before : List Event) (event : Event) (after : List Event)
      (heq : events = before ++ event :: after) :
      ((new schema factories).run (before ++ [event])).registry.cache =
          ((new schema factories).run before).registry.cache ∨
        ∃ i t id, event = .advance i ∧ ((new schema factories).run events).Answers i t (.ok id) ∧
          ((new schema factories).run (before ++ [event])).registry.cache =
            ((new schema factories).run before).registry.cache ++ [(t, id)] := by
    rw [heq, run_append, run_append, run_cons, run_cons, run_nil]
    rcases (hnew.run before).step_cache event with hc | ⟨i, t, id, he, ha, hc⟩
    · exact .inl hc
    · exact .inr ⟨i, t, id, he, ha.run after, hc⟩
  refine ⟨?_, hrun.cached, hrun.distinct, ?_, ?_, hcache, ?_⟩
  · rintro i j t id id' ⟨q, hq, rfl⟩ ⟨q', hq', htype⟩
    have hmem := hrun.answered q id (List.mem_of_getElem? hq)
    have hmem' := hrun.answered q' id' (List.mem_of_getElem? hq')
    rw [htype] at hmem'
    exact (Prod.mk.inj (List.inj_on_of_nodup_map hrun.distinct hmem hmem' rfl)).2
  · intro t known hl id
    rw [handOut_of_lookup hrun.cached hl]
  · intro before i after heq t e ha
    rcases hcache before _ after heq with hc | ⟨j, t', id, hj, ha', -⟩
    · exact hc
    · cases hj
      exact nomatch (ha.unique ha').2
  · intro t id hmem
    have hwithin : (new schema factories).Within fun t => ∃ event ∈ events, event.Seeks t :=
      ⟨nofun, nofun⟩
    exact (hwithin.run hnew events fun e he t ht => ⟨e, he, ht⟩).cache (t, id) hmem

/-- Two requests that find nothing and make an adapter each, of which the second one is stored
first. -/
def race (q : Request) : List Event :=
  [.ask q, .ask q, .advance 0, .advance 1, .advance 0, .advance 1, .advance 1, .advance 0]

def strings : Request := ⟨.string, Scalar.string.token⟩

/-- The loser of a race answers what the winner made. -/
theorem race_agrees :
    ((new ⟨[]⟩ []).run (race strings)).registry.adapters.size = 2 ∧
      ((new ⟨[]⟩ []).run (race strings)).Answers 1 (.scalar .string) (.ok 1) ∧
      (∃ id, ((new ⟨[]⟩ []).run (race strings)).Answers 0 (.scalar .string) (.ok id)) ∧
      ∀ id, ((new ⟨[]⟩ []).run (race strings)).Answers 0 (.scalar .string) (.ok id) → id = 1 := by
  have hwinner : ((new ⟨[]⟩ []).run (race strings)).Answers 1 (.scalar .string) (.ok 1) :=
    ⟨strings, rfl, rfl⟩
  refine ⟨rfl, hwinner, ⟨1, strings, rfl, rfl⟩, fun id hid => ?_⟩
  exact (requests_agree ⟨[]⟩ [] (race strings)).1 0 1 _ id 1 hid hwinner

end System

end JsonAdapters
