import JsonAdapters.Proofs.Adapter.Enduring
import JsonAdapters.Proofs.Adapter.Transparency

/-!
# Adapters that outlive their registry

Who holds an adapter may go on reading and writing when the registry is dropped. What succeeded once
succeeds again, because all adapters that it needed are resolved. Everything else ends as it would
if the registry were alive, or for the reason that it is not.

## Main definitions

* `AdapterM.report`: all that a run leaves behind.
* `Job`, `Job.run`: a read or a write through an adapter.
* `Deed`, `Registry.act`, `Registry.after`: what is done with a registry and its adapters.

## Main statements

* `Endures.report`, `Registry.Fitted.run`: what a run leaves behind, or a job, is enough to repeat
  it.
* `Registry.Fitted.act`, `Registry.Fitted.after`: what one deed, and any number of them, keeps.
* `Registry.Fitted.run_after_use`, `Registry.Fitted.run_after_drop`: jobs that are done again, and
  those with a dropped registry.
* `Registry.held_after_drop`: reads and writes before and after the registry is dropped.
-/

namespace JsonAdapters

open Json (Reader Writer)
open Outcome

/-- How a computation ends, what it leaves of the stream, and what of the registry. -/
def AdapterM.report {σ α : Type} (x : AdapterM σ α) (stream : σ) (r : Registry) :
    (Except AdapterFailure α × σ) × Registry :=
  match x ⟨r, stream⟩ with
  | .ok a s => ((.ok a, s.stream), s.registry)
  | .error e s => ((.error e, s.stream), s.registry)

/-- A read of a document, or a write of one. -/
inductive Job
  | read (stream : Reader)
  /-- Write a value, or the absent one. -/
  | write (v : Option Value) (stream : Writer)

/-- How a job ends, and what it leaves of its stream. A write has no value to answer with. -/
structure Job.Result where
  answer : Except AdapterFailure (Option Value)
  stream : Reader ⊕ Writer

/-- Do a job with an adapter for `t`. -/
def Job.run (id : AdapterId) (t : Ty) : Job → Registry → Job.Result × Registry
  | .read stream, r =>
    let ((answer, stream), r) := (readWhole id t).report stream r
    (⟨answer, .inl stream⟩, r)
  | .write v stream, r =>
    let ((answer, stream), r) := AdapterM.report (do writeWhole id t v; return none) stream r
    (⟨answer, .inr stream⟩, r)

/-- What a run says of the registry that it leaves behind, and of runs with later ones. -/
theorem Endures.report {σ α : Type} {x : AdapterM σ α} {stream : σ} {r : Registry}
    (h : Endures x ⟨r, stream⟩) :
    (x.report stream r).2.Fitted ∧ Registry.Retains r (x.report stream r).2 ∧
      (r.alive = false → (x.report stream r).2 = r ∧
        ∀ e, (x.report stream r).1.1 = .error e → e.OfSearch → e = .error .registryDropped) ∧
      ((∀ e, (x.report stream r).1.1 = .error e → ¬e.OfSearch) →
        ∀ r', Registry.Retains (x.report stream r).2 r' →
          x.report stream r' = ((x.report stream r).1, r')) := by
  cases hx : x ⟨r, stream⟩ with
  | ok a s =>
    have hrun : x.report stream r = ((.ok a, s.stream), s.registry) := by
      simp only [AdapterM.report, hx]
    obtain ⟨hout, hagain⟩ := h.ok hx
    rw [hrun]
    refine ⟨hout.fitted, hout.retains, fun hd => ⟨hout.dropped hd, nofun⟩, fun _ r' hr => ?_⟩
    simp only [AdapterM.report, hagain r' hr]
  | error e s =>
    have hrun : x.report stream r = ((.error e, s.stream), s.registry) := by
      simp only [AdapterM.report, hx]
    -- a failure that is no failed search is the same in a later registry
    obtain ⟨hout, hdropped, hagain⟩ := h.error hx
    rw [hrun]
    refine ⟨hout.fitted, hout.retains, fun hd => ⟨hout.dropped hd, ?_⟩, fun he r' hr => ?_⟩
    · rintro e' ⟨⟩
      exact hdropped hd
    · simp only [AdapterM.report, hagain (he e rfl) r' hr]

/-- What is done with a registry, or with one of its adapters. -/
inductive Deed
  /-- Ask for an adapter. That takes a registry that is alive. -/
  | ask (q : Request)
  /-- Use an adapter for the type that it serves. -/
  | use (id : AdapterId) (t : Ty) (job : Job)
  /-- Drop the registry. -/
  | drop

namespace Registry

def act (r : Registry) : Deed → Registry
  | .ask q => if r.alive then r.ask q else r
  | .use id t job => if r.serves id t then (job.run id t r).2 else r
  | .drop => { r with alive := false }

def after (r : Registry) (deeds : List Deed) : Registry := deeds.foldl act r

variable {r r' : Registry} {id : AdapterId} {t : Ty} {job : Job} {deed : Deed} {deeds : List Deed}

theorem after_append (r : Registry) (deeds deeds' : List Deed) :
    r.after (deeds ++ deeds') = (r.after deeds).after deeds' := List.foldl_append

/-! ## One job -/

/-- A job leaves behind what it takes to do it again. With a dropped registry it changes nothing,
and wants no adapter. -/
theorem Fitted.run (h : r.Fitted) (hs : r.serves id t = true) (job : Job) :
    (job.run id t r).2.Fitted ∧ Retains r (job.run id t r).2 ∧
      (r.alive = false → (job.run id t r).2 = r ∧
        ∀ e, (job.run id t r).1.answer = .error e → e.OfSearch → e = .error .registryDropped) ∧
      ((∀ e, (job.run id t r).1.answer = .error e → ¬e.OfSearch) →
        ∀ r', Retains (job.run id t r).2 r' → job.run id t r' = ((job.run id t r).1, r')) := by
  cases job with
  | read stream =>
    have hends : Endures (readWhole id t) ⟨r, stream⟩ := endures_readWhole h hs
    obtain ⟨hfitted, hretains, hdropped, hagain⟩ := hends.report
    refine ⟨hfitted, hretains, hdropped, fun he r' hr => ?_⟩
    simp only [Job.run, hagain he r' hr]
  | write v stream =>
    have hends : Endures (do writeWhole id t v; return (none : Option Value)) ⟨r, stream⟩ :=
      (endures_writeWhole v h hs).bind fun _ _ _ hout => .pure _ hout.fitted
    obtain ⟨hfitted, hretains, hdropped, hagain⟩ := hends.report
    refine ⟨hfitted, hretains, hdropped, fun he r' hr => ?_⟩
    simp only [Job.run, hagain he r' hr]

/-! ## Any number of deeds -/

/-- A deed keeps the adapters and what their slots are resolved to, and changes nothing once the
registry is dropped. -/
theorem Fitted.act (h : r.Fitted) (deed : Deed) : (r.act deed).Fitted ∧ Retains r (r.act deed) ∧
    (r.alive = false → r.act deed = r) := by
  cases deed with
  | drop =>
    have hsame : Retains r { r with alive := false } := .of_adapters rfl fun _ _ ha => ha
    refine ⟨h.of_adapters rfl rfl, hsame, fun hd => ?_⟩
    cases r
    cases hd
    rfl
  | use id t job =>
    simp only [Registry.act]
    split
    · next hs =>
      obtain ⟨hfitted, hretains, hdropped, -⟩ := h.run hs job
      exact ⟨hfitted, hretains, fun hd => (hdropped hd).1⟩
    · exact ⟨h, .refl r, fun _ => rfl⟩
  | ask q =>
    simp only [Registry.act]
    split
    -- a registry is asked only while it is alive
    · next hlive =>
      have hends := h.adapterOf_ends (t := q.type) q.token
      unfold Registry.ask
      cases hx : adapterOf q.type q.token r with
      | ok id r' =>
        obtain ⟨hfitted, -, hschema, hsame⟩ := hends.ok hx
        exact ⟨hfitted, .of_adapters hschema hsame, fun hd => nomatch hlive.symm.trans hd⟩
      | error e r' =>
        obtain ⟨rfl, -⟩ := hends.error hx
        exact ⟨h, .refl r', fun _ => rfl⟩
    · exact ⟨h, .refl r, fun _ => rfl⟩

theorem Fitted.after (h : r.Fitted) (deeds : List Deed) : (r.after deeds).Fitted ∧
    Retains r (r.after deeds) ∧ (r.alive = false → r.after deeds = r) := by
  induction deeds generalizing r with
  | nil => exact ⟨h, .refl r, fun _ => rfl⟩
  | cons deed deeds ih =>
    obtain ⟨hfitted, hretains, hdropped⟩ := h.act deed
    obtain ⟨hfitted', hretains', hdropped'⟩ := ih hfitted
    refine ⟨hfitted', hretains.trans hretains', fun hd => ?_⟩
    exact (hdropped' ((hdropped hd).symm ▸ hd)).trans (hdropped hd)

/-- Once the registry is dropped, it stays what it was. -/
theorem Fitted.after_drop (h : r.Fitted) (deeds : List Deed) :
    r.after (.drop :: deeds) = { r with alive := false } :=
  ((h.act .drop).1.after deeds).2.2 rfl

/-- What a job left behind is enough to do it again, whatever is done in between. -/
theorem Fitted.run_after_use (h : r.Fitted) (hs : r.serves id t = true) {v : Option Value}
    (hv : (job.run id t r).1.answer = .ok v) (later : List Deed) :
    (job.run id t (r.after (.use id t job :: later))).1 = (job.run id t r).1 := by
  obtain ⟨hfitted, -, -, hagain⟩ := h.run hs job
  have hafter : r.after (.use id t job :: later) = (job.run id t r).2.after later := by
    change (r.act _).after later = _
    rw [Registry.act, if_pos hs]
  have hnone (e : AdapterFailure) (he : (job.run id t r).1.answer = .error e) : ¬e.OfSearch := by
    cases hv.symm.trans he
  rw [hafter, hagain hnone _ (hfitted.after later).2.1]

/-- A job with a dropped registry ends because the registry is dropped, or as it ends with any
registry that the one before became otherwise. -/
theorem Fitted.run_after_drop (h : r.Fitted) (hs : r.serves id t = true) (job : Job)
    (later others : List Deed) :
    let dropped := (job.run id t (r.after (.drop :: later))).1
    (dropped.answer = .error (.error .registryDropped) ∨
      dropped = (job.run id t (r.after others)).1) ∧
    ∀ e, dropped.answer = .error (.error e) →
      e.kind ≠ .noAdapter ∧ e.kind ≠ .incompatibleAdapter := by
  intro dropped
  obtain ⟨hfitted, hretains, -⟩ := h.after (.drop :: later)
  obtain ⟨-, -, hdropped, hagain⟩ := hfitted.run (hretains.serves hs) job
  obtain ⟨hsame, hsearch⟩ := hdropped (by rw [h.after_drop])
  by_cases hwants : ∃ e, dropped.answer = .error e ∧ e.OfSearch
  · obtain ⟨e, he, hof⟩ := hwants
    obtain rfl := hsearch e he hof
    refine ⟨.inl he, fun e' he' => ?_⟩
    cases he.symm.trans he'
    exact ⟨nofun, nofun⟩
  · have hnone (e : AdapterFailure) (he : dropped.answer = .error e) : ¬e.OfSearch :=
      fun hof => hwants ⟨e, he, hof⟩
    refine ⟨.inr ?_, fun e he => ?_⟩
    -- the registry that was not dropped has the same adapters, or later ones
    · have hbefore : Retains (r.after (.drop :: later)) r := by
        rw [h.after_drop]
        exact .of_adapters rfl fun _ _ ha => ha
      have hlater : Retains (job.run id t (r.after (.drop :: later))).2 (r.after others) := by
        rw [hsame]
        exact hbefore.trans (h.after others).2.1
      rw [hagain hnone _ hlater]
    · have hof := hnone _ he
      constructor <;>
      · intro hkind
        cases e <;> first | exact hof trivial | cases hkind

/-- Let an adapter for `t` be obtained from a registry with any factories, and then anything be done
with the registry and its adapters. A read or a write through the adapter that succeeded succeeds
again in the same way, whatever is done in between. After the registry was dropped, it ends as it
would if anything else had been done instead, or because the registry is dropped; it never wants an
adapter. A request for a part that is refused leaves the slot unresolved, and a resolved slot refers
to the same adapter for good. -/
theorem held_after_drop (S : Schema) (fs : List Factory) (first : List Deed) {t : Ty}
    {id : AdapterId} {r : Registry}
    (h : adapter t (({ schema := S, factories := fs } : Registry).after first) = .ok id r) :
    (∀ (job : Job) (earlier later : List Deed) v,
      (job.run id t (r.after earlier)).1.answer = .ok v →
      (job.run id t (r.after (earlier ++ .use id t job :: later))).1 =
        (job.run id t (r.after earlier)).1) ∧
    (∀ (job : Job) (earlier later others : List Deed),
      let dropped := (job.run id t (r.after (earlier ++ .drop :: later))).1
      (dropped.answer = .error (.error .registryDropped) ∨
        dropped = (job.run id t (r.after (earlier ++ others))).1) ∧
      ∀ e, dropped.answer = .error (.error e) →
        e.kind ≠ .noAdapter ∧ e.kind ≠ .incompatibleAdapter) ∧
    ∀ (earlier : List Deed) (owner : AdapterId) (u : Ty),
      (∀ e r', part owner u (r.after earlier) = .error e r' →
        r' = r.after earlier ∧ r'.resolved? owner u = none) ∧
      ∀ (k : AdapterId) (later : List Deed), (r.after earlier).resolved? owner u = some k →
        (r.after (earlier ++ later)).resolved? owner u = some k := by
  have hnew : ({ schema := S, factories := fs } : Registry).Fitted := fitted_of_new
  obtain ⟨token, -, h⟩ := exists_token_of_adapter h
  obtain ⟨hr, hs, -, -⟩ := ((hnew.after first).1.adapterOf_ends token).ok h
  have hstate (earlier : List Deed) : (r.after earlier).Fitted ∧
      (r.after earlier).serves id t = true := by
    obtain ⟨hfitted, hretains, -⟩ := hr.after earlier
    exact ⟨hfitted, hretains.serves hs⟩
  refine ⟨fun job earlier later v hv => ?_, fun job earlier later others => ?_,
    fun earlier owner u => ⟨fun e r' hp => ?_, fun k later hk => ?_⟩⟩
  · obtain ⟨hfitted, hserves⟩ := hstate earlier
    rw [after_append]
    exact hfitted.run_after_use hserves hv later
  · obtain ⟨hfitted, hserves⟩ := hstate earlier
    rw [after_append, after_append]
    exact hfitted.run_after_drop hserves job later others
  · obtain ⟨rfl, hnone⟩ := (hstate earlier).1.part_refused hp
    exact ⟨rfl, hnone⟩
  · rw [after_append]
    exact ((hstate earlier).1.after later).2.1.resolved? hk

end Registry

namespace Samples

/-- A registry without factories, once an adapter for lists of truth values was obtained. -/
def listsObtained : Registry :=
  { schema
    factories := []
    adapters := #[⟨.vec bool, .applied (.vec bool) "Vec" [Scalar.bool.token],
      [⟨bool, Scalar.bool.token, none⟩]⟩]
    cache := [(.vec bool, 0)] }

/-- Read a list with one item. -/
def readOne : Job := .read (Reader.ofSource (.ofText "[true]"))

/-- A list that was read before the registry is dropped is read again. When no list was read before,
there is no adapter for its item. -/
theorem held_after_drop_lists :
    Registry.adapter (.vec bool) { schema, factories := [] } = .ok 0 listsObtained ∧
    (∃ v, (readOne.run 0 (.vec bool) listsObtained).1.answer = .ok (some v)) ∧
    (readOne.run 0 (.vec bool) (listsObtained.after [.use 0 (.vec bool) readOne, .drop])).1 =
      (readOne.run 0 (.vec bool) listsObtained).1 ∧
    (readOne.run 0 (.vec bool) (listsObtained.after [.drop])).1.answer.map (·.isSome) =
      .error (.error .registryDropped) := by
  have hobtained : Registry.adapter (.vec bool) { schema, factories := [] } =
      .ok 0 listsObtained := by rfl
  have hread : (readOne.run 0 (.vec bool) listsObtained).1.answer.map (·.isSome) = .ok true := by
    decide +kernel
  obtain ⟨answer, hanswer, hsome⟩ := map_eq_ok.1 hread
  obtain ⟨v, rfl⟩ := Option.isSome_iff_exists.1 hsome
  obtain ⟨hagain, -, -⟩ := Registry.held_after_drop schema [] [] hobtained
  exact ⟨hobtained, ⟨v, hanswer⟩, hagain readOne [] [.drop] _ hanswer, by decide +kernel⟩

end Samples

end JsonAdapters
