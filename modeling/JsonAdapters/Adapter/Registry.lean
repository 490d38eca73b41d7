import JsonAdapters.Adapter.Factory

/-!
# The registry of adapters

A registry makes adapters on request and keeps one for each type. An adapter refers to the adapters
of its parts through slots, which are resolved when they are first needed. Adapters know their
registry only while it lives: a slot that is resolved keeps its adapter for good, one that is not
fails once the registry is dropped.

## Main definitions

* `AdapterId`, `Slot`, `Adapter`, `Registry`.
* `Registry.build`: an adapter with its slots.
* `Registry.known?`, `Registry.answer`, `Registry.choose`, `Registry.instantiate`,
  `Registry.handOut`: the steps of a request.
* `Registry.adapterOf`: a whole request.
* `Registry.resolve`, `Registry.part`: a slot on its own, and the slot of an adapter.

## Design notes

Adapters are numbered in the order in which they are made, and slots refer to them by number. The
identity of adapters is then plain equality, and dropping the registry is one flag: what was made
before stays in place.
-/

namespace JsonAdapters

abbrev AdapterId := Nat

/-- A reference to the adapter of a type, resolved on first use. -/
structure Slot where
  target : Ty
  token : TypeToken Ty
  resolved : Option AdapterId := none

def Slot.logText (s : Slot) : String :=
  s!"LazyAdapter \x7b type: \"{s.target.path}\", resolved: {s.resolved.isSome}, .. \x7d"

/-- Remember the adapter of a slot for the type `t`; a resolved slot stays as it is. -/
def Slot.settle (t : Ty) (id : AdapterId) (s : Slot) : Slot :=
  if s.target = t then { s with resolved := some (s.resolved.getD id) } else s

/-- An adapter with the token of its type and its slots, one for each part. -/
structure Adapter where
  codec : Codec
  token : TypeToken Ty
  slots : List Slot

/-- All adapters that were made, and where to find the one of a type. -/
structure Registry where
  schema : Schema
  factories : List Factory
  adapters : Array Adapter := #[]
  /-- The adapter handed out for each type. -/
  cache : List (Ty × AdapterId) := []
  /-- Whether anyone still holds the registry. -/
  alive : Bool := true

namespace Registry

open AdapterFailure (orEndless)

abbrev Action := EStateM AdapterFailure Registry

def slot (r : Registry) (t : Ty) : Option Slot := do
  return ⟨t, ← t.token r.schema, none⟩

/-- An adapter that moves values with the codec. It carries the token of its type, and its slots
those of its parts. -/
def build (r : Registry) (codec : Codec) : Option Adapter := do
  let slots ← codec.parts.mapM r.slot
  let token ← codec.serves.token r.schema
  return { codec, token, slots }

def serves (r : Registry) (id : AdapterId) (t : Ty) : Bool :=
  match r.adapters[id]? with
  | some a => a.codec.serves = t
  | none => false

/-! ## Requests -/

def known? (r : Registry) (t : Ty) : Option AdapterId :=
  (r.cache.lookup t).filter fun id => r.serves id t

/-- The answer of the first factory that has one. -/
def answer (r : Registry) (token : TypeToken Ty) : Option (Option Codec) :=
  r.factories.findSomeM? fun f => f.create token

/-- A new adapter for a type: the answer of the factories decides, also when it is of no use;
without an answer, built-in types serve themselves. -/
def choose (r : Registry) (t : Ty) (token : TypeToken Ty) : Except AdapterFailure Adapter := do
  match ← orEndless (r.answer token) with
  | some codec =>
    let adapter ← orEndless (r.build codec)
    if codec.serves = t then return adapter
    throw (.error (.incompatibleAdapter token.text adapter.token.text))
  | none =>
    match Codec.builtin? t with
    | some codec => orEndless (r.build codec)
    | none => throw (.error (.noAdapter token.text))

/-- Number a new adapter. -/
def instantiate (adapter : Adapter) (r : Registry) : AdapterId × Registry :=
  (r.adapters.size, { r with adapters := r.adapters.push adapter })

/-- Hand out an adapter for a type. One that was handed out before stays. -/
def handOut (t : Ty) (id : AdapterId) (r : Registry) : AdapterId × Registry :=
  match r.cache.lookup t with
  | some known => (if r.serves known t then known else id, r)
  | none => (id, { r with cache := r.cache ++ [(t, id)] })

def adapterOf (t : Ty) (token : TypeToken Ty) : Action AdapterId := fun r =>
  if !token.describes t then .error (.error (.tokenMismatch token.text t.path)) r
  else match r.known? t with
    | some id => .ok id r
    | none =>
      match r.choose t token with
      | .error e => .error e r
      | .ok adapter =>
        let (id, r) := r.instantiate adapter
        let (id, r) := r.handOut t id
        .ok id r

def adapter (t : Ty) : Action AdapterId := fun r =>
  match t.token r.schema with
  | none => .error .endless r
  | some token => adapterOf t token r

def requireAlive : Action Unit := fun r =>
  if r.alive then .ok () r else .error (.error .registryDropped) r

/-! ## Slots -/

def resolve (s : Slot) : Action AdapterId :=
  match s.resolved with
  | some id => return id
  | none => do
    requireAlive
    adapterOf s.target s.token

/-- The adapter that `owner` uses for one of its parts. -/
def part (owner : AdapterId) (t : Ty) : Action AdapterId := fun r =>
  match (r.adapters[owner]?).bind fun a => a.slots.find? fun s => s.target = t with
  | none => .error .misuse r
  | some s =>
    match resolve s r with
    | .error e r => .error e r
    | .ok id r =>
      let adapters := r.adapters.modify owner fun a =>
        { a with slots := a.slots.map (Slot.settle t id) }
      .ok id { r with adapters }

def logText (r : Registry) : String :=
  s!"Kson \x7b factories: {r.factories.length}, .. \x7d"

end Registry

end JsonAdapters
