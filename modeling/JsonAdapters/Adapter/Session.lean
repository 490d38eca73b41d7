import JsonAdapters.Adapter.Registry

/-!
# Adapters at work

An adapter moves a value between memory and a stream, and asks the registry for the adapters of its
parts on the way. What it asked for stays resolved, also when it fails later.

## Main definitions

* `Session`: a registry and a stream.
* `AdapterM`: computations of adapters; `onRegistry`, `onReader` and `onWriter` embed the steps of
  the registry and of the stream.
* `Registry.run`: a whole computation.
-/

namespace JsonAdapters

/-- A registry and a stream. -/
structure Session (σ : Type) where
  registry : Registry
  stream : σ

abbrev AdapterM (σ : Type) := EStateM AdapterFailure (Session σ)

def AdapterM.fail {σ α : Type} (e : AdapterError) : AdapterM σ α := throw (.error e)

def onRegistry {σ α : Type} (x : Registry.Action α) : AdapterM σ α := fun s =>
  match x s.registry with
  | .ok a registry => .ok a { s with registry }
  | .error e registry => .error e { s with registry }

def onReader {α : Type} (x : Json.ReadM α) : AdapterM Json.Reader α := fun s =>
  match x s.stream with
  | .ok a stream => .ok a { s with stream }
  | .error e stream => .error (.ofRead e) { s with stream }

def onWriter {α : Type} (x : Json.WriteM α) : AdapterM Json.Writer α := fun s =>
  match x s.stream with
  | .ok a stream => .ok a { s with stream }
  | .error e stream => .error (.ofWrite e) { s with stream }

def codecOf {σ : Type} (id : AdapterId) : AdapterM σ Codec := fun s =>
  match s.registry.adapters[id]? with
  | some a => .ok a.codec s
  | none => .error .misuse s

/-- Run an adapter on a stream of its own. The registry remembers what was resolved. -/
def Registry.run {σ α : Type} (x : AdapterM σ α) (stream : σ) (r : Registry) :
    Except AdapterFailure (α × σ) × Registry :=
  match x ⟨r, stream⟩ with
  | .ok a s => (.ok (a, s.stream), s.registry)
  | .error e s => (.error e, s.registry)

end JsonAdapters
