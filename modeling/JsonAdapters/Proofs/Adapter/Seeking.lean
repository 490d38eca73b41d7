import JsonAdapters.Proofs.Adapter.Enduring
import JsonAdapters.Proofs.Adapter.Sharing

/-!
# Runs that seek adapters

A read or a write asks for adapters on the way, and fails for want of one only where it asked for a
type that is refused. Which types that may be is said of a run by a predicate. What is known of the
steps of a run is put together by structural rules.

## Main definitions

* `Seeks`: a run that wants no adapters but of certain types.

## Main statements

* `Seeks.bind`, `Seeks.step`, `Seeks.codec`, `Seeks.part`: runs of several steps.
-/

namespace JsonAdapters

open Json (Reader Writer)
open Outcome
open Registry (Later Orderly)

/-- If a type has no adapter, it is one with `p` that had none before, and which is refused. -/
def AdapterFailure.Excused (p : Ty → Prop) (r : Registry) (e : AdapterFailure) : Prop :=
  e.Unserved → ∃ u, p u ∧ ¬r.Has u ∧ r.Refuses u e

/-- Run from `s`, the computation keeps the registry orderly and ends as `post` says, or fails; and
it wants no adapters but of types with `p`. -/
def Seeks {σ α : Type} (P : Schema → CustomCodec → Prop) (p : Ty → Prop) (x : AdapterM σ α)
    (s : Session σ) (post : α → Session σ → Prop) : Prop :=
  Ends x s (fun a s' => Later P s.registry s'.registry ∧ post a s')
    (fun e s' => Later P s.registry s'.registry ∧ e.Excused p s.registry)

/-- Failures that are not about finding an adapter need no excuse. -/
theorem AdapterFailure.excused_of_not {e : AdapterFailure} {p : Ty → Prop} {r : Registry}
    (h : ¬e.OfSearch) : e.Excused p r := by
  intro hunserved
  refine absurd ?_ h
  cases e with
  | error error =>
    obtain hkind | hkind := hunserved <;> cases error <;> first | exact trivial | cases hkind
  | misuse | stalled | endless => exact hunserved.elim

/-- An adapter that is there later moves values as before. -/
theorem Registry.Moves.later {P : Schema → CustomCodec → Prop} {r r' : Registry} {id : AdapterId}
    {c : Codec} (h : r.Moves id c) (hr : Later P r r') : r'.Moves id c := by
  obtain ⟨a, ha, rfl⟩ := h
  obtain ⟨a', ha', hc⟩ := hr.keeps.codec id a ha
  exact ⟨a', ha', hc⟩

/-- A step of the reader in a session is one of the reader. -/
theorem ok_of_onReader {α : Type} {x : Json.ReadM α} {a : α} {s s' : Session Reader}
    (h : onReader x s = .ok a s') : x s.stream = .ok a s'.stream := by
  unfold onReader at h
  split at h
  · next hx =>
    cases h
    exact hx
  · cases h

/-- A step of the writer in a session is one of the writer. -/
theorem ok_of_onWriter {α : Type} {x : Json.WriteM α} {a : α} {s s' : Session Writer}
    (h : onWriter x s = .ok a s') : x s.stream = .ok a s'.stream := by
  unfold onWriter at h
  split at h
  · next hx =>
    cases h
    exact hx
  · cases h

namespace Seeks

variable {σ α β : Type} {P : Schema → CustomCodec → Prop} {p q : Ty → Prop} {x : AdapterM σ α}
  {f : α → AdapterM σ β} {s : Session σ} {post post' : α → Session σ → Prop}
  {post₂ : β → Session σ → Prop}

/-- More types may be wanted, and less may be said of how the run ends. -/
theorem mono (h : Seeks P p x s post) (hp : ∀ u, p u → q u)
    (hpost : ∀ a s', Later P s.registry s'.registry → post a s' → post' a s') :
    Seeks P q x s post' := by
  refine Ends.mono h (fun a s' _ ⟨hlater, ha⟩ => ⟨hlater, hpost a s' hlater ha⟩) ?_
  rintro e s' ⟨hlater, hexcused⟩
  refine ⟨hlater, fun hunserved => ?_⟩
  obtain ⟨u, hu, hnone⟩ := hexcused hunserved
  exact ⟨u, hp u hu, hnone⟩

/-- What the second part of a sequence wants, it wants of the registry that the first part leaves,
which refuses the same types. -/
theorem bind (hx : Seeks P p x s post)
    (hf : ∀ a s₁, Later P s.registry s₁.registry → post a s₁ → Seeks P p (f a) s₁ post₂) :
    Seeks P p (x >>= f) s post₂ := by
  refine Ends.bind hx fun a s₁ _ ⟨hlater, ha⟩ => ?_
  refine Ends.mono (hf a s₁ hlater ha) (fun b s₂ _ ⟨hlater', hb⟩ => ⟨hlater.trans hlater', hb⟩) ?_
  rintro e s₂ ⟨hlater', hexcused⟩
  refine ⟨hlater.trans hlater', fun hunserved => ?_⟩
  obtain ⟨u, hu, hnot, hrefuses⟩ := hexcused hunserved
  exact ⟨u, hu, fun hhas => hnot (hlater.keeps.has hhas), hlater.keeps.refuses_iff.1 hrefuses⟩

/-- A computation that works on the stream alone wants nothing. -/
theorem of_onStream (hx : OnStream x) (hs : s.registry.Orderly P)
    (hpost : ∀ a stream, x s = .ok a ⟨s.registry, stream⟩ → post a ⟨s.registry, stream⟩) :
    Seeks P p x s post := by
  obtain ⟨a, stream, ha⟩ | ⟨e, stream, he, hfail⟩ := hx s.stream
  · exact .of_ok (ha s.registry) ⟨hs.later, hpost a stream (ha s.registry)⟩
  · exact .of_error (hfail s.registry) ⟨hs.later, AdapterFailure.excused_of_not he⟩

theorem pure {a : α} (hs : s.registry.Orderly P) (ha : post a s) :
    Seeks P p (Pure.pure a) s post :=
  .of_ok rfl ⟨hs.later, ha⟩

/-- Nothing follows a failure. -/
theorem throw_bind {e : AdapterFailure} (he : ¬e.OfSearch) (hs : s.registry.Orderly P) :
    Seeks P p (throw e >>= f) s post₂ :=
  .of_error rfl ⟨hs.later, AdapterFailure.excused_of_not he⟩

protected theorem throw {e : AdapterFailure} (he : ¬e.OfSearch) (hs : s.registry.Orderly P) :
    Seeks P p (throw e) s post :=
  .of_error rfl ⟨hs.later, AdapterFailure.excused_of_not he⟩

/-- A step of the stream, and what follows it. -/
theorem step (hx : OnStream x) (hs : s.registry.Orderly P)
    (hf : ∀ a stream, x s = .ok a ⟨s.registry, stream⟩ →
      Seeks P p (f a) ⟨s.registry, stream⟩ post₂) : Seeks P p (x >>= f) s post₂ := by
  have hfirst : Seeks P p x s fun a s₁ => s₁.registry = s.registry ∧ x s = .ok a s₁ :=
    of_onStream hx hs fun a stream ha => ⟨rfl, ha⟩
  refine hfirst.bind ?_
  rintro a ⟨r, stream⟩ - ⟨rfl, ha⟩
  exact hf a stream ha

/-- A step of the reader, and what follows it. -/
theorem reader {x : Json.ReadM α} {f : α → AdapterM Reader β} {s : Session Reader}
    {post : β → Session Reader → Prop} (hs : s.registry.Orderly P)
    (hf : ∀ a stream, x s.stream = .ok a stream → Seeks P p (f a) ⟨s.registry, stream⟩ post) :
    Seeks P p (onReader x >>= f) s post :=
  .step (.reader x) hs fun a stream ha => hf a stream (ok_of_onReader ha)

/-- A step of the writer, and what follows it. -/
theorem writer {x : Json.WriteM α} {f : α → AdapterM Writer β} {s : Session Writer}
    {post : β → Session Writer → Prop} (hs : s.registry.Orderly P)
    (hf : ∀ a stream, x s.stream = .ok a stream → Seeks P p (f a) ⟨s.registry, stream⟩ post) :
    Seeks P p (onWriter x >>= f) s post :=
  .step (.writer x) hs fun a stream ha => hf a stream (ok_of_onWriter ha)

/-- The codec of an adapter, and what follows it. -/
theorem codec {id : AdapterId} {c : Codec} {f : Codec → AdapterM σ β}
    (hm : s.registry.Moves id c) (hf : Seeks P p (f c) s post₂) :
    Seeks P p (codecOf id >>= f) s post₂ :=
  Ends.congr (bind_of_ok (codecOf_moves hm)) hf

/-- A request for the adapter of a type, and what follows it. -/
theorem request {t : Ty} {x : Registry.Action AdapterId} {f : AdapterId → AdapterM σ β}
    (hx : Ends x s.registry (fun id r => Later P s.registry r ∧ r.serves id t = true)
      (fun e r => r = s.registry ∧ (e.Unserved → ¬s.registry.Has t ∧ s.registry.Refuses t e)))
    (hs : s.registry.Orderly P) (hp : p t ∨ s.registry.Has t)
    (hf : ∀ id r, Later P s.registry r → r.serves id t = true →
      Seeks P p (f id) ⟨r, s.stream⟩ post₂) : Seeks P p (onRegistry x >>= f) s post₂ := by
  have hrequest : Seeks P p (onRegistry x) s fun id s₁ =>
      s₁.stream = s.stream ∧ s₁.registry.serves id t = true := by
    cases hrun : x s.registry with
    | ok id r =>
      obtain ⟨hlater, hserves⟩ := hx.ok hrun
      exact .of_ok (onRegistry_ok hrun) ⟨hlater, rfl, hserves⟩
    | error e r =>
      obtain ⟨hsame, hunserved⟩ := hx.error hrun
      refine .of_error (onRegistry_error hrun) ⟨.of_eq hs hsame, fun he => ?_⟩
      obtain ⟨hnot, hrefuses⟩ := hunserved he
      exact ⟨t, hp.resolve_right hnot, hnot, hrefuses⟩
  refine hrequest.bind ?_
  rintro id ⟨r, stream⟩ hlater ⟨rfl, hserves⟩
  exact hf id r hlater hserves

/-- The adapter of a part, and what follows it. It is there, or may be wanted. -/
theorem part {id : AdapterId} {c : Codec} {t : Ty} {f : AdapterId → AdapterM σ β}
    (hs : s.registry.Orderly P) (hm : s.registry.Moves id c) (ht : t ∈ c.parts)
    (hp : p t ∨ s.registry.Has t)
    (hf : ∀ inner r, Later P s.registry r → r.serves inner t = true →
      Seeks P p (f inner) ⟨r, s.stream⟩ post₂) :
    Seeks P p (onRegistry (Registry.part id t) >>= f) s post₂ := by
  obtain ⟨a, ha, rfl⟩ := hm
  exact .request (hs.part_ends ha ht) hs hp hf

/-- The adapter of a type, and what follows it. -/
theorem adapter {t : Ty} {f : AdapterId → AdapterM σ β} (hs : s.registry.Orderly P)
    (hp : p t ∨ s.registry.Has t)
    (hf : ∀ id r, Later P s.registry r → r.serves id t = true →
      Seeks P p (f id) ⟨r, s.stream⟩ post₂) :
    Seeks P p (onRegistry (Registry.adapter t) >>= f) s post₂ :=
  .request (hs.adapter_ends t) hs hp hf

end Seeks

end JsonAdapters
