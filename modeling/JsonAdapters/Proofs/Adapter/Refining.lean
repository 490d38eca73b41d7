import JsonAdapters.Adapter.Read
import JsonAdapters.Proofs.Adapter.Asking
import JsonAdapters.Proofs.Json.Document

/-!
# Reading against decoding

Adapters read a stream in one pass, and resolve each other on the way. What they read is compared
with what decoding says of the values that the stream holds: a run that ends well has passed one of
these values and answers with what it stands for, and a run that fails blames the document, or has
nothing to stand for.

## Main definitions

* `AdapterFailure.Innocent`: failures for which no adapter is to blame.
* `Plain`: when the answers of adapters are compared with decoding.
* `Served`: every adapter that is needed can be had.
* `Refines`: a computation of adapters against what is passed and what that stands for.

## Design notes

Whether the stream holds a value is not known while it is read. A failure is therefore compared with
every value that might be passed from where the run started, of which there is one at most.
-/

namespace JsonAdapters

open Json (Reader Tree ReadM)
open Json.Reader (AtValue BeforeItem BeforeName Passes PassesItems PassesMembers)
open Outcome
open Registry (Grows Valid)

/-- No adapter is to blame: no step was taken that the stream does not allow, none was asked for
ever, no container was taken for longer or shorter than it is, and if a request did not end, then
because not all requests to the registry do. -/
def AdapterFailure.Innocent (f : AdapterFailure) (r : Registry) : Prop :=
  match f with
  | .error (.read e) => e.cause.Blameless
  | .error _ => True
  | .misuse | .stalled => False
  | .endless => ¬r.Conclusive

theorem AdapterFailure.ofRead_innocent {e : Json.ReadFailure} {r : Registry}
    (h : Json.Innocent e) : (AdapterFailure.ofRead e).Innocent r := by
  cases e with
  | misuse => exact h
  | error e => exact h

theorem Registry.Unanswered.innocent {f : AdapterFailure} {r r' : Registry} {t : Ty}
    (h : r.Unanswered t f r') : f.Innocent r := by
  obtain ⟨-, hrequest, hinconclusive, -⟩ := h
  cases f with
  | error e =>
    cases e with
    | read => exact hrequest.elim
    | _ => trivial
  | endless => exact hinconclusive rfl
  | misuse | stalled => exact hrequest

/-- Values of the type are moved by built-in and generated adapters only. -/
def Plain (P : Schema → CustomCodec → Prop) (s : Schema) (T : Ty) : Prop :=
  s.Sound ∧ ∀ c, P s c → ¬s.Needs T c.serves

/-- Every adapter that values of the type need can be had. -/
def Served (r : Registry) (T : Ty) : Prop :=
  r.alive = true ∧ ∀ t, r.schema.Needs T t → r.Provides t

theorem Served.grows {r r' : Registry} {T : Ty} (h : Served r T) (hg : Grows r r') :
    Served r' T := by
  refine ⟨hg.alive.trans h.1, fun t ht => hg.provides_iff.2 (h.2 t ?_)⟩
  rwa [hg.schema] at ht

/-- It is enough to have the adapters of a list of types that are each other's parts. -/
theorem Served.of_closed {r : Registry} {T : Ty} {L : List Ty} (halive : r.alive = true)
    (hT : T ∈ L) (hL : ∀ t ∈ L, t.parts r.schema ⊆ L) (h : ∀ t ∈ L, r.Provides t) : Served r T :=
  ⟨halive, fun t ht => h t (ht.mem_of_closed hT hL)⟩

section

variable {κ α β : Type} {P : Schema → CustomCodec → Prop} {T : Ty}

/-- What a computation passes, within which limits, what that stands for, and whether it takes only
adapters of certain types. -/
structure Passage (κ β : Type) where
  passes : κ → Reader → Reader → Prop
  supported : κ → Prop
  means : Schema → κ → Option β
  asksOnly : (Ty → Prop) → Schema → κ → Prop

/-- The registry answers all requests that are made on the way. -/
def Passage.Open (R : Passage κ β) (r : Registry) (x : κ) : Prop := R.asksOnly r.Answers r.schema x

theorem Passage.open_of_grows {R : Passage κ β} {r r' : Registry} {x : κ} (hg : Grows r r') :
    R.Open r' x ↔ R.Open r x := by
  rw [Open, Open, hg.answers_eq, hg.schema]

/-- A run from `s` passed something, and answers with what it stands for. All requests on the way
were answered, which a registry that remembers its answers would do again. -/
structure Answered (P : Schema → CustomCodec → Prop) (T : Ty) (R : Passage κ β)
    (s : Session Reader) (v : β) (s' : Session Reader) : Prop where
  valid : s'.registry.Valid P
  grows : Grows s.registry s'.registry
  passed : ∃ x, R.passes x s.stream s'.stream ∧ (Plain P s.registry.schema T →
    R.means s.registry.schema x = some v ∧ (s.registry.Remembers → R.Open s.registry x))

/-- A run from `s` failed, and of all that could have been passed, what the registry has the
adapters for stands for nothing. -/
structure Failed (P : Schema → CustomCodec → Prop) (T : Ty) (R : Passage κ β) (s : Session Reader)
    (e : AdapterFailure) (s' : Session Reader) : Prop where
  valid : s'.registry.Valid P
  grows : Grows s.registry s'.registry
  innocent : e.Innocent s'.registry
  none : Plain P s.registry.schema T → s.registry.alive = true → ∀ x r, R.passes x s.stream r →
    R.supported x → R.Open s.registry x → R.means s.registry.schema x = none

/-- Run from `s₁`, the computation reads or fails like this, seen from `s`. -/
def Refines (P : Schema → CustomCodec → Prop) (T : Ty) (R : Passage κ β) (s : Session Reader)
    (x : AdapterM Reader β) (s₁ : Session Reader) : Prop :=
  Ends x s₁ (Answered P T R s) (Failed P T R s)

/-- The session with its reader elsewhere. -/
def Session.at (s : Session Reader) (r : Reader) : Session Reader := { s with stream := r }

@[simp] theorem Session.at_registry (s : Session Reader) (r : Reader) :
    (s.at r).registry = s.registry := rfl

@[simp] theorem Session.at_stream (s : Session Reader) (r : Reader) : (s.at r).stream = r := rfl

/-! ## Steps -/

variable {post : β → Session Reader → Prop} {fault : AdapterFailure → Session Reader → Prop}
  {s : Session Reader}

/-- A request is made where the session has its registry, and leaves the stream alone. -/
theorem onRegistry_ok {σ : Type} {x : Registry.Action α} {s : Session σ} {a : α} {r : Registry}
    (h : x s.registry = .ok a r) : onRegistry x s = .ok a { s with registry := r } := by
  simp only [onRegistry, h]

theorem onRegistry_error {σ : Type} {x : Registry.Action α} {s : Session σ} {e : AdapterFailure}
    {r : Registry} (h : x s.registry = .error e r) :
    (onRegistry x : AdapterM σ α) s = .error e { s with registry := r } := by
  simp only [onRegistry, h]

/-- A step of the reader, and what follows it. -/
theorem ends_onReader {x : ReadM α} {f : α → AdapterM Reader β}
    (hok : ∀ a r, x s.stream = .ok a r → Ends (f a) (s.at r) post fault)
    (herror : ∀ e r, x s.stream = .error e r → fault (.ofRead e) (s.at r)) :
    Ends (onReader x >>= f) s post fault := by
  cases hx : x s.stream with
  | ok a r =>
    refine .congr (bind_of_ok ?_) (hok a r hx)
    simp only [onReader, hx]
    rfl
  | error e r =>
    refine .of_error (bind_of_error ?_) (herror e r hx)
    simp only [onReader, hx]
    rfl

/-- The codec of an adapter that is there. -/
theorem codecOf_eq {σ : Type} {s : Session σ} {id : AdapterId} {a : Adapter}
    (h : s.registry.adapters[id]? = some a) : codecOf id s = .ok a.codec s := by
  simp only [codecOf, h]

theorem Plain.of_grows {r r' : Registry} (h : Plain P r.schema T) (hg : Grows r r') :
    Plain P r'.schema T := by
  rwa [hg.schema]

variable {R : Passage κ β} {s₁ s₂ : Session Reader}

/-- A step of the reader, and what follows it. -/
theorem Refines.step {x : ReadM α} {f : α → AdapterM Reader β}
    (hok : ∀ a r, x s₁.stream = .ok a r → Refines P T R s (f a) (s₁.at r))
    (herror : ∀ e r, x s₁.stream = .error e r → Failed P T R s (.ofRead e) (s₁.at r)) :
    Refines P T R s (onReader x >>= f) s₁ :=
  ends_onReader hok herror

/-- Reading one value and going on behind it is reading both together. What the second stands for
may depend on the first. -/
theorem Refines.seq {κ' : Type} (mk : Tree → κ' → κ) (passes : κ' → Reader → Reader → Prop)
    (supported : κ' → Prop) (means : α → Schema → κ' → Option β)
    (asksOnly : (Ty → Prop) → Schema → κ' → Prop) {R₁ : Passage Tree α}
    {x : AdapterM Reader α} {f : α → AdapterM Reader β} (hx : Refines P T R₁ s₁ x s₁)
    (hg : Grows s.registry s₁.registry)
    (hf : ∀ v s₂, Answered P T R₁ s₁ v s₂ →
      Refines P T ⟨passes, supported, means v, asksOnly⟩ s₂ (f v) s₂)
    (hunique : ∀ j k a b, R₁.passes j s₁.stream a → R₁.passes k s₁.stream b → j = k ∧ a = b)
    (hsplit : ∀ z r, R.passes z s.stream r ↔ ∃ j y r₁, z = mk j y ∧
      R₁.passes j s₁.stream r₁ ∧ passes y r₁ r)
    (hsupported : ∀ j y, R.supported (mk j y) → R₁.supported j ∧ supported y)
    (hmeans : ∀ schema j y, R.means schema (mk j y) =
      (R₁.means schema j).bind fun v => means v schema y)
    (hasks : ∀ p schema j y, R.asksOnly p schema (mk j y) ↔
      R₁.asksOnly p schema j ∧ asksOnly p schema y) :
    Refines P T R s (x >>= f) s₁ := by
  refine Ends.bind (hx.mono (fun _ _ _ ha => ha) fun e s' hf => ?_) fun v s₂ _ ha => ?_
  -- whatever could be passed starts with a value that stands for nothing
  · refine ⟨hf.valid, hg.trans hf.grows, hf.innocent, fun hp hs z r hz hz' ho => ?_⟩
    obtain ⟨j, y, r₁, rfl, hj, -⟩ := (hsplit z r).1 hz
    have hmj := hf.none (hp.of_grows hg) (hg.alive.trans hs) j r₁ hj (hsupported j y hz').1
      ((Passage.open_of_grows hg).2 ((hasks ..).1 ho).1)
    rw [hg.schema] at hmj
    rw [hmeans, hmj, Option.bind_none]
  · have hg₂ := hg.trans ha.grows
    obtain ⟨j, hj, hmj⟩ := ha.passed
    refine (hf v s₂ ha).mono (fun w s₃ _ hw => ?_) fun e s₃ he => ?_
    · obtain ⟨y, hy, hmy⟩ := hw.passed
      refine ⟨hw.valid, hg₂.trans hw.grows, mk j y, (hsplit _ _).2 ⟨j, y, _, rfl, hj, hy⟩,
        fun hp => ?_⟩
      obtain ⟨hmj, hoj⟩ := hmj (hp.of_grows hg)
      obtain ⟨hmy, hoy⟩ := hmy (hp.of_grows hg₂)
      rw [hg.schema] at hmj
      rw [hg₂.schema] at hmy
      refine ⟨by rw [hmeans, hmj, Option.bind_some]; exact hmy, fun hr => (hasks ..).2 ⟨?_, ?_⟩⟩
      · exact (Passage.open_of_grows hg).1 (hoj (hg.remembers hr))
      · exact (Passage.open_of_grows hg₂).1 (hoy (hg₂.remembers hr))
    · refine ⟨he.valid, hg₂.trans he.grows, he.innocent, fun hp hs z r hz hz' ho => ?_⟩
      obtain ⟨k, y, r₁, rfl, hk, hy⟩ := (hsplit z r).1 hz
      -- whatever could be passed starts with the value that was read
      obtain ⟨rfl, rfl⟩ := hunique j k _ _ hj hk
      obtain ⟨hmj, -⟩ := hmj (hp.of_grows hg)
      have hmy := he.none (hp.of_grows hg₂) (hg₂.alive.trans hs) y r hy (hsupported j y hz').2
        ((Passage.open_of_grows hg₂).2 ((hasks ..).1 ho).2)
      rw [hg.schema] at hmj
      rw [hg₂.schema] at hmy
      rw [hmeans, hmj, Option.bind_some]
      exact hmy

/-- What was read is put in another form, or turns out to stand for nothing. -/
theorem Refines.andThen {R' : Passage κ α} {x : AdapterM Reader α} {f : α → AdapterM Reader β}
    (g : α → Option β) (h : Refines P T R' s₁ x s₂) (hg : Grows s.registry s₁.registry)
    (hpasses : ∀ z r, R.passes z s.stream r ↔ R'.passes z s₁.stream r)
    (hunique : ∀ y z a b, R'.passes y s₁.stream a → R'.passes z s₁.stream b → y = z)
    (hsupported : ∀ z r, R'.passes z s₁.stream r → R.supported z → R'.supported z)
    (hmeans : ∀ z r, R'.passes z s₁.stream r → R.means s.registry.schema z =
      (R'.means s.registry.schema z).bind g)
    (hopen : ∀ z r, R'.passes z s₁.stream r → R.Open s.registry z → R'.Open s.registry z)
    (hopened : s.registry.Remembers → ∀ z r, R'.passes z s₁.stream r → R'.Open s.registry z →
      R.Open s.registry z)
    (hf : ∀ a s', Ends (f a) s' (fun b s'' => s'' = s' ∧ g a = some b)
      (fun e s'' => s'' = s' ∧ e.Innocent s''.registry ∧ g a = none)) :
    Refines P T R s (x >>= f) s₂ := by
  refine Ends.bind (h.mono (fun _ _ _ ha => ha) fun e s' he => ?_) fun a s' _ ha => ?_
  · refine ⟨he.valid, hg.trans he.grows, he.innocent, fun hp hs z r hz hz' ho => ?_⟩
    have hz := (hpasses z r).1 hz
    have hm := he.none (hp.of_grows hg) (hg.alive.trans hs) z r hz (hsupported z r hz hz')
      ((Passage.open_of_grows hg).2 (hopen z r hz ho))
    rw [hg.schema] at hm
    rw [hmeans z r hz, hm, Option.bind_none]
  · obtain ⟨z, hz, hmz⟩ := ha.passed
    have hm (hp : Plain P s.registry.schema T) : R.means s.registry.schema z = g a := by
      have hm := (hmz (hp.of_grows hg)).1
      rw [hg.schema] at hm
      rw [hmeans z _ hz, hm, Option.bind_some]
    refine (hf a s').mono (fun b s'' _ hb => ?_) fun e s'' he => ?_
    · obtain ⟨rfl, hb⟩ := hb
      refine ⟨ha.valid, hg.trans ha.grows, z, (hpasses z _).2 hz, fun hp => ⟨(hm hp).trans hb,
        fun hr => hopened hr z _ hz ?_⟩⟩
      exact (Passage.open_of_grows hg).1 ((hmz (hp.of_grows hg)).2 (hg.remembers hr))
    · obtain ⟨rfl, hi, hnone⟩ := he
      refine ⟨ha.valid, hg.trans ha.grows, hi, fun hp _ y r hy _ _ => ?_⟩
      -- nothing could be passed but what was
      rw [hunique y z _ _ ((hpasses y r).1 hy) hz]
      exact (hm hp).trans hnone

/-- The adapter of a part is there, or the value does not come to it. -/
theorem Refines.part {id : AdapterId} {t : Ty} {a : Adapter} {f : AdapterId → AdapterM Reader β}
    (hv : s₁.registry.Valid P) (hg : Grows s.registry s₁.registry)
    (ha : s₁.registry.adapters[id]? = some a) (ht : t ∈ a.codec.parts)
    (hopen : ∀ z r, R.passes z s.stream r → R.Open s.registry z → s.registry.Answers t)
    (hf : ∀ inner s₂, s₂.stream = s₁.stream → s₂.registry.Valid P →
      Grows s₁.registry s₂.registry → s₂.registry.serves inner t = true →
      (s.registry.Remembers → s.registry.Answers t) → Refines P T R s (f inner) s₂) :
    Refines P T R s (onRegistry (Registry.part id t) >>= f) s₁ := by
  have hpart := hv.part_ends ha ht
  cases hx : Registry.part id t s₁.registry with
  | ok inner r =>
    have hobtained := hpart.ok hx
    exact .congr (bind_of_ok (onRegistry_ok hx)) (hf inner { s₁ with registry := r } rfl
      hobtained.valid hobtained.grows hobtained.serves fun hr =>
        (hg.answers t).1 (hobtained.answers (hg.remembers hr)))
  | error e r =>
    -- one of the adapters that are needed cannot be had
    have hunanswered := hpart.error hx
    obtain rfl := hunanswered.unchanged
    refine .of_error (bind_of_error (onRegistry_error hx))
      ⟨hv, hg, hunanswered.innocent, fun _ hs z r hz _ ho => ?_⟩
    exact absurd ⟨hg.alive.trans hs, (hg.answers t).2 (hopen z r hz ho)⟩ hunanswered.none

/-- A failure of the reader, where nothing can be passed. -/
theorem failed_of_read {e : Json.ReadFailure} {r : Reader} (hv : s₁.registry.Valid P)
    (hg : Grows s.registry s₁.registry) (he : Json.Innocent e)
    (hnone : ∀ z r, R.passes z s.stream r → R.supported z →
      R.means s.registry.schema z = none) :
    Failed P T R s (.ofRead e) (s₁.at r) :=
  ⟨hv, hg, AdapterFailure.ofRead_innocent he, fun _ _ z r hz hz' _ => hnone z r hz hz'⟩

/-! ## Values -/

/-- Reading a value of a type. -/
def Passage.value (t : Ty) : Passage Tree (Option Value) :=
  ⟨Passes, Tree.Supported, fun schema j => j.decode schema t,
    fun p schema => Tree.AsksOnly p schema t⟩

/-- The second session has looked at the value that is next in the first one, and it is no
`null`. -/
structure NotNull (s s₁ : Session Reader) : Prop where
  registry : s₁.registry = s.registry
  atValue : AtValue s₁.stream
  passes (j : Tree) (r : Reader) : Passes j s.stream r ↔ Passes j s₁.stream r
  kind (j : Tree) (r : Reader) : Passes j s.stream r → j.kind ≠ .null
  rest : s₁.stream.rest.length ≤ s.stream.rest.length
  frames : s₁.stream.frames = s.stream.frames

theorem NotNull.grows (h : NotNull s s₁) : Grows s.registry s₁.registry := .of_eq h.registry

/-- What is read when `null` is a case of its own. -/
theorem Refines.unlessNull {R : Passage Tree β} {v₀ : β} {x : AdapterM Reader β}
    (hR : ∀ j r r', R.passes j r r' ↔ Passes j r r') (hv : s.registry.Valid P)
    (h : AtValue s.stream) (hnull : R.means s.registry.schema .null = some v₀)
    (hopen : R.Open s.registry .null)
    (hx : ∀ s₁, NotNull s s₁ → Refines P T R s x s₁) :
    Refines P T R s (passNull >>= fun b => if b = true then pure v₀ else x) s := by
  simp only [passNull, bind_assoc]
  refine ends_onReader (fun k r hp => ?_) fun e r he => ?_
  · have hframes : r.frames = s.stream.frames ∧ r.rest.length ≤ s.stream.rest.length := by
      obtain ⟨m, hl, -⟩ := h.peek_eq_ok_iff.1 hp
      obtain ⟨lead, rest, p, hrest, -, rfl, -⟩ := h.look_sound hl
      exact ⟨rfl, by simp [hrest, Reader.seen]⟩
    -- the peek shows the kind of whatever can be passed
    have hkind (j : Tree) (r' : Reader) (hj : Passes j s.stream r') : j.kind = k := by
      obtain ⟨r₁, hp'⟩ := hj.peek
      cases hp.symm.trans hp'
      rfl
    by_cases hk : k = .null
    · simp only [hk, if_true, bind_assoc]
      subst hk
      refine ends_onReader (fun _ r' hn => .pure ?_) fun e r' he => ?_
      · exact ⟨hv, .refl _, .null, (hR ..).2 ((h.passes_peek hp).1 hn),
          fun _ => ⟨hnull, fun _ => hopen⟩⟩
      · refine failed_of_read hv (.refl _) ((h.peek_atValue hp).null_innocent he) fun j r₁ hj => ?_
        have hj := (hR ..).1 hj
        cases Tree.kind_eq_iff.1 (hkind j r₁ hj)
        cases ((h.passes_peek hp).2 hj).symm.trans he
    · simp only [hk, if_false, pure_bind, Bool.false_eq_true]
      exact hx (s.at r) ⟨rfl, h.peek_atValue hp, fun j r' => (h.passes_peek hp).symm,
        fun j r' hj => (hkind j r' hj).symm ▸ hk, hframes.2, hframes.1⟩
  · refine failed_of_read hv (.refl _) (h.peek_innocent he) fun j r' hj => ?_
    obtain ⟨r₁, hp⟩ := ((hR ..).1 hj).peek
    cases hp.symm.trans he

/-- Values of one kind, read in two steps: what the value holds, and what that stands for. -/
theorem Refines.ofKind {R : Passage κ α} {mk : κ → Tree} {t : Ty} {x : AdapterM Reader α}
    {f : α → AdapterM Reader (Option Value)} {g : α → Option Value} (hn : NotNull s s₁)
    (hx : Refines P T R s₁ x s₁)
    (hpasses : ∀ z r r', R.passes z r r' ↔ Passes (mk z) r r')
    (hinj : ∀ y z, mk y = mk z → y = z) (hsupported : ∀ z, (mk z).Supported → R.supported z)
    (hdecode : Plain P s.registry.schema T → ∀ z, (mk z).decode s.registry.schema t =
      ((R.means s.registry.schema z).bind g).map some)
    (hopen : ∀ z, (Passage.value t).Open s.registry (mk z) ↔ R.Open s.registry z)
    {k : Json.Kind} (hk : t.kind? = some k) (hmk : ∀ j : Tree, j.kind = k → ∃ z, j = mk z)
    (hf : ∀ a s', Ends (f a) s' (fun v s'' => s'' = s' ∧ ∃ w, v = some w ∧ g a = some w)
      (fun e s'' => s'' = s' ∧ e.Innocent s''.registry ∧ g a = none)) :
    Refines P T (.value t) s (x >>= f) s₁ := by
  have hg := hn.grows
  -- of all that could be passed, only values of the kind matter
  have hnone (hp : Plain P s.registry.schema T) (hz : ∀ z r, R.passes z s₁.stream r →
      R.supported z → R.Open s.registry z → (R.means s.registry.schema z).bind g = none) (j : Tree)
      (r : Reader) (hj : Passes j s.stream r) (hj' : j.Supported)
      (ho : (Passage.value t).Open s.registry j) : j.decode s.registry.schema t = none := by
    by_cases hj₁ : j.kind = k
    · obtain ⟨z, rfl⟩ := hmk j hj₁
      rw [hdecode hp, hz z r ((hpasses ..).2 ((hn.passes ..).1 hj)) (hsupported z hj')
        ((hopen z).1 ho)]
      rfl
    · exact Tree.decode_of_kind hk hj₁ (hn.kind j r hj)
  refine Ends.bind (hx.mono (fun _ _ _ ha => ha) fun e s' he => ?_) fun a s' _ ha => ?_
  · refine ⟨he.valid, hg.trans he.grows, he.innocent,
      fun hp hs => hnone hp fun z r hz hz' ho => ?_⟩
    have hm := he.none (hp.of_grows hg) (hg.alive.trans hs) z r hz hz'
      ((Passage.open_of_grows hg).2 ho)
    rw [hn.registry] at hm
    rw [hm, Option.bind_none]
  · obtain ⟨z, hz, hmz⟩ := ha.passed
    have hmz (hp : Plain P s.registry.schema T) : R.means s.registry.schema z = some a ∧
        (s.registry.Remembers → R.Open s.registry z) := by
      have hm := hmz (hp.of_grows hg)
      rwa [hn.registry] at hm
    have hgrows := hg.trans ha.grows
    refine (hf a s').mono (fun v s'' _ hv => ?_) fun e s'' he => ?_
    · obtain ⟨rfl, w, rfl, hw⟩ := hv
      refine ⟨ha.valid, hgrows, mk z, (hn.passes ..).2 ((hpasses ..).1 hz), fun hp => ?_⟩
      refine ⟨?_, fun hr => (hopen z).2 ((hmz hp).2 hr)⟩
      change (mk z).decode _ t = _
      rw [hdecode hp, (hmz hp).1, Option.bind_some, hw]
      rfl
    · obtain ⟨rfl, hi, hw⟩ := he
      refine ⟨ha.valid, hgrows, hi, fun hp _ => hnone hp fun y r hy hy' _ => ?_⟩
      obtain rfl := hinj z y (((hpasses ..).1 hz).unique ((hpasses ..).1 hy)).1
      rw [(hmz hp).1, Option.bind_some, hw]

/-- A value that is skipped counts for nothing. -/
theorem Refines.skip {R : Passage Tree β} {v : β} (hR : ∀ j r r', R.passes j r r' ↔ Passes j r r')
    (hv : s₁.registry.Valid P) (hg : Grows s.registry s₁.registry) (h : AtValue s₁.stream)
    (hpasses : ∀ j r, Passes j s.stream r ↔ Passes j s₁.stream r)
    (hmeans : ∀ j r, Passes j s.stream r → R.means s.registry.schema j = some v)
    (hopen : ∀ j r, Passes j s.stream r → R.Open s.registry j) :
    Refines P T R s (do
      onReader Reader.skip
      return v) s₁ := by
  refine ends_onReader (fun _ r hs => .pure ?_) fun e r he => ?_
  · obtain ⟨j, hj⟩ := h.skip_ends.ok hs
    have hj := (hpasses ..).2 hj
    exact ⟨hv, hg, j, (hR ..).2 hj, fun _ => ⟨hmeans j r hj, fun _ => hopen j r hj⟩⟩
  · obtain ⟨hi, hno⟩ := h.skip_ends.error he
    exact failed_of_read hv hg hi fun j r hj => absurd ((hpasses ..).1 ((hR ..).1 hj)) (hno j r)

/-- A container is entered, its parts are read, and it is left. -/
theorem Refines.container (mk : κ → Tree) (enter leave : ReadM Unit) {R : Passage κ α}
    {x : AdapterM Reader α} (hv : s.registry.Valid P)
    (hmk : ∀ z r r', Passes (mk z) r r' ↔
      ∃ r₁ r₂, enter r = .ok () r₁ ∧ R.passes z r₁ r₂ ∧ leave r₂ = .ok () r')
    (hx : ∀ r, enter s.stream = .ok () r → Refines P T R (s.at r) x (s.at r))
    (henter : ∀ e r, enter s.stream = .error e r → Json.Innocent e)
    (hleave : ∀ z r r', enter s.stream = .ok () r → R.passes z r r' →
      ∃ r'', leave r' = .ok () r'') :
    Refines P T ⟨fun z => Passes (mk z), R.supported, R.means, R.asksOnly⟩ s (do
      onReader enter
      let a ← x
      onReader leave
      return a) s := by
  refine ends_onReader (fun _ r hr => ?_) fun e r he => ?_
  · refine Ends.bind ((hx r hr).mono (fun _ _ _ ha => ha) fun e s' he => ?_) fun a s' _ ha => ?_
    · refine ⟨he.valid, he.grows, he.innocent, fun hp hs z r' hz hz' ho => ?_⟩
      obtain ⟨r₁, r₂, hr₁, hz, -⟩ := (hmk ..).1 hz
      cases hr.symm.trans hr₁
      exact he.none hp hs z r₂ hz hz' ho
    · obtain ⟨z, hz, hmz⟩ := ha.passed
      -- a container whose parts were passed can be left
      obtain ⟨r'', hl⟩ := hleave z r s'.stream hr hz
      refine ends_onReader (fun _ r₃ hl' => .pure ?_) fun e r₃ hl' => ?_
      · exact ⟨ha.valid, ha.grows, z, (hmk ..).2 ⟨r, s'.stream, hr, hz, hl'⟩, hmz⟩
      · cases hl.symm.trans hl'
  · refine failed_of_read hv (.refl _) (henter e r he) fun z r' hz => ?_
    obtain ⟨r₁, r₂, hr₁, -⟩ := (hmk ..).1 hz
    cases he.symm.trans hr₁

/-- Arrays: the items are read, and what they stand for is put together. -/
theorem Refines.ofArray {R : Passage (List Tree) α} {x : AdapterM Reader α} {t : Ty}
    {f : α → AdapterM Reader (Option Value)} {g : α → Option Value} (hn : NotNull s s₁)
    (hv : s₁.registry.Valid P) (ht : t.kind? = some .array)
    (hpasses : ∀ js r r', R.passes js r r' ↔ PassesItems js r r')
    (hsupported : ∀ js, Tree.SupportedItems js → R.supported js)
    (hx : ∀ r, BeforeItem r → r.rest.length < s₁.stream.rest.length →
      Refines P T R (s₁.at r) x (s₁.at r))
    (hdecode : Plain P s.registry.schema T → ∀ js, (Tree.array js).decode s.registry.schema t =
      ((R.means s.registry.schema js).bind g).map some)
    (hopen : ∀ js, (Passage.value t).Open s.registry (.array js) ↔ R.Open s.registry js)
    (hf : ∀ a s', Ends (f a) s' (fun v s'' => s'' = s' ∧ ∃ w, v = some w ∧ g a = some w)
      (fun e s'' => s'' = s' ∧ e.Innocent s''.registry ∧ g a = none)) :
    Refines P T (.value t) s (do
      onReader Reader.enterArray
      let a ← x
      onReader Reader.leaveArray
      f a) s₁ := by
  have hr := hn.atValue
  -- after the bracket, less of the text is left
  have hopened (r : Reader) (henter : Reader.enterArray s₁.stream = .ok () r) :
      BeforeItem r ∧ r.rest.length < s₁.stream.rest.length := by
    obtain ⟨lead, rest, p, hrest, -, -, rfl⟩ := hr.enterArray_sound henter
    refine ⟨Reader.opened_beforeItem _ _ _, ?_⟩
    simp only [hrest, Reader.opened, List.length_append, List.length_cons]
    omega
  have hcontainer := Refines.container .array Reader.enterArray Reader.leaveArray hv
    (fun js r r' => by simp only [hpasses, Passes])
    (fun r henter => hx r (hopened r henter).1 (hopened r henter).2)
    (fun e r => hr.enterArray_innocent) fun js r r' henter hjs =>
      PassesItems.leaveArray ((hpasses ..).1 hjs) (hopened r henter).1
  have hkind := Refines.ofKind hn hcontainer (fun _ _ _ => Iff.rfl) (fun _ _ h => Tree.array.inj h)
    hsupported hdecode hopen ht (fun _ hj => Tree.kind_eq_iff.1 hj) hf
  simpa only [bind_assoc, pure_bind] using hkind

/-- Objects: the members are read, and what they stand for is put together. -/
theorem Refines.ofObject {R : Passage (List (String × Tree)) α} {x : AdapterM Reader α} {t : Ty}
    {f : α → AdapterM Reader (Option Value)} {g : α → Option Value} (hn : NotNull s s₁)
    (hv : s₁.registry.Valid P) (ht : t.kind? = some .object)
    (hpasses : ∀ ms r r', R.passes ms r r' ↔ PassesMembers ms r r')
    (hsupported : ∀ ms, Tree.SupportedMembers ms → R.supported ms)
    (hx : ∀ r, BeforeName r → r.rest.length < s₁.stream.rest.length →
      Refines P T R (s₁.at r) x (s₁.at r))
    (hdecode : Plain P s.registry.schema T → ∀ ms, (Tree.object ms).decode s.registry.schema t =
      ((R.means s.registry.schema ms).bind g).map some)
    (hopen : ∀ ms, (Passage.value t).Open s.registry (.object ms) ↔ R.Open s.registry ms)
    (hf : ∀ a s', Ends (f a) s' (fun v s'' => s'' = s' ∧ ∃ w, v = some w ∧ g a = some w)
      (fun e s'' => s'' = s' ∧ e.Innocent s''.registry ∧ g a = none)) :
    Refines P T (.value t) s (do
      onReader Reader.enterObject
      let a ← x
      onReader Reader.leaveObject
      f a) s₁ := by
  have hr := hn.atValue
  -- after the brace, less of the text is left
  have hopened (r : Reader) (henter : Reader.enterObject s₁.stream = .ok () r) :
      BeforeName r ∧ r.rest.length < s₁.stream.rest.length := by
    obtain ⟨lead, rest, p, hrest, -, -, rfl⟩ := hr.enterObject_sound henter
    refine ⟨Reader.opened_beforeName _ _ _, ?_⟩
    simp only [hrest, Reader.opened, List.length_append, List.length_cons]
    omega
  have hcontainer := Refines.container .object Reader.enterObject Reader.leaveObject hv
    (fun ms r r' => by simp only [hpasses, Passes])
    (fun r henter => hx r (hopened r henter).1 (hopened r henter).2)
    (fun e r => hr.enterObject_innocent) fun ms r r' henter hms =>
      PassesMembers.leaveObject ((hpasses ..).1 hms) (hopened r henter).1
  have hkind := Refines.ofKind hn hcontainer (fun _ _ _ => Iff.rfl) (fun _ _ h => Tree.object.inj h)
    hsupported hdecode hopen ht (fun _ hj => Tree.kind_eq_iff.1 hj) hf
  simpa only [bind_assoc, pure_bind] using hkind

/-- One more member of an object, from its name on, or the end of the object. -/
theorem Refines.nextMember {R : Passage (List (String × Tree)) β}
    {f : String → AdapterM Reader β} {y : AdapterM Reader β}
    (hR : ∀ ms r r', R.passes ms r r' ↔ PassesMembers ms r r') (hv : s.registry.Valid P)
    (hb : BeforeName s.stream)
    (hmember : ∀ key r, AtValue r → (∃ n fs, r.frames = .object n :: fs) →
      r.rest.length ≤ s.stream.rest.length →
      (∀ ms r', R.passes ms s.stream r' ↔
        ∃ k ns a, ms = (key, k) :: ns ∧ Passes k r a ∧ PassesMembers ns a r') →
      Refines P T R s (f key) (s.at r))
    (hend : ∀ r, R.passes [] s.stream r → Refines P T R s y (s.at r)) :
    Refines P T R s (onReader Reader.more >>= fun b =>
      if b = true then onReader Reader.name >>= f else y) s := by
  refine .step (fun b r hmore => ?_) fun e r hmore => ?_
  · cases b with
    | false => exact hend r ((hR ..).2 hmore)
    | true =>
      have hends := hb.name_ends hmore
      refine .step (fun key r₂ hname => ?_) fun e r₂ hname => ?_
      · obtain ⟨hr, hframes, hle⟩ := hends.ok hname
        exact hmember key r₂ hr hframes hle fun ms r' =>
          (hR ..).trans (Reader.passesMembers_iff_of_name hmore hname)
      -- where the name fails, no member was spelled
      · refine failed_of_read hv (.refl _) (hends.error hname) fun ms r' hms => ?_
        cases ms with
        | nil => cases hmore.symm.trans ((hR ..).1 hms)
        | cons m ms =>
          obtain ⟨r₃, r₄, r₅, hmore', hname', -⟩ := (hR ..).1 hms
          cases hmore.symm.trans hmore'
          cases hname.symm.trans hname'
  · refine failed_of_read hv (.refl _) (hb.more_innocent hmore) fun ms r' hms => ?_
    obtain ⟨r₁, hmore'⟩ := PassesMembers.more ((hR ..).1 hms)
    cases hmore.symm.trans hmore'

end

end JsonAdapters
