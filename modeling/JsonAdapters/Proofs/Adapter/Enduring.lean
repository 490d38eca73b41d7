import JsonAdapters.Proofs.Adapter.Retaining
import JsonAdapters.Proofs.Adapter.Writing

/-!
# Runs that can be repeated

What a read or a write needs of the registry, it leaves behind in resolved slots. With any later
registry, alive or dropped, it therefore runs in the same way again, down to the stream it leaves,
and changes nothing. The same holds of a run that fails, unless it fails for want of an adapter; and
with a dropped registry, that can only be because the registry is dropped.

## Main definitions

* `OnStream`: computations that leave the registry alone.
* `Outlasts`: what a run does to a registry.
* `Endures`: a run that can be repeated with every later registry.

## Main statements

* `Endures.bind`, `Endures.part`: runs of several steps.
* `endures_readWhole`, `endures_writeWhole`.
-/

namespace JsonAdapters

open Json (Reader Writer)
open Outcome
open Registry (Fitted Moves Retains)

/-- The computation works on the stream alone, and fails for reasons that the stream gives. -/
def OnStream {σ α : Type} (x : AdapterM σ α) : Prop :=
  ∀ stream, (∃ a stream', ∀ r, x ⟨r, stream⟩ = .ok a ⟨r, stream'⟩) ∨
    ∃ e stream', ¬e.OfSearch ∧ ∀ r, x ⟨r, stream⟩ = .error e ⟨r, stream'⟩

/-- What a run does to the registry: adapters and resolved slots stay, and all of them when the
registry is dropped. -/
structure Outlasts {σ : Type} (s s' : Session σ) : Prop where
  fitted : s'.registry.Fitted
  retains : s.registry.Retains s'.registry
  dropped : s.registry.alive = false → s'.registry = s.registry

/-- Run from `s`, the computation leaves behind what it needs to run in the same way with every
later registry. It may want an adapter, but of a dropped registry it wants none. -/
def Endures {σ α : Type} (x : AdapterM σ α) (s : Session σ) : Prop :=
  Ends x s
    (fun a s' => Outlasts s s' ∧
      ∀ r, s'.registry.Retains r → x ⟨r, s.stream⟩ = .ok a ⟨r, s'.stream⟩)
    (fun e s' => Outlasts s s' ∧
      (s.registry.alive = false → e.OfSearch → e = .error .registryDropped) ∧
      (¬e.OfSearch → ∀ r, s'.registry.Retains r → x ⟨r, s.stream⟩ = .error e ⟨r, s'.stream⟩))

section

variable {σ α β : Type} {s s₁ s₂ : Session σ} {x : AdapterM σ α} {f : α → AdapterM σ β}

/-! ## Steps of streams -/

namespace OnStream

theorem pure (a : α) : OnStream (pure a : AdapterM σ α) :=
  fun stream => .inl ⟨a, stream, fun _ => rfl⟩

theorem throw {e : AdapterFailure} (he : ¬e.OfSearch) : OnStream (throw e : AdapterM σ α) :=
  fun stream => .inr ⟨e, stream, he, fun _ => rfl⟩

theorem bind (hx : OnStream x) (hf : ∀ a, OnStream (f a)) : OnStream (x >>= f) := by
  intro stream
  obtain ⟨a, stream₁, ha⟩ | ⟨e, stream₁, he, hfail⟩ := hx stream
  · obtain ⟨b, stream₂, hb⟩ | ⟨e, stream₂, he, hfail⟩ := hf a stream₁
    · exact .inl ⟨b, stream₂, fun r => (bind_of_ok (ha r)).trans (hb r)⟩
    · exact .inr ⟨e, stream₂, he, fun r => (bind_of_ok (ha r)).trans (hfail r)⟩
  · exact .inr ⟨e, stream₁, he, fun r => bind_of_error (hfail r)⟩

theorem reader (x : Json.ReadM α) : OnStream (onReader x) := by
  intro stream
  cases h : x stream with
  | ok a stream' => exact .inl ⟨a, stream', fun r => by simp only [onReader, h]⟩
  | error e stream' =>
    exact .inr ⟨.ofRead e, stream', by cases e <;> exact id, fun r => by simp only [onReader, h]⟩

theorem writer (x : Json.WriteM α) : OnStream (onWriter x) := by
  intro stream
  cases h : x stream with
  | ok a stream' => exact .inl ⟨a, stream', fun r => by simp only [onWriter, h]⟩
  | error e stream' =>
    exact .inr ⟨.ofWrite e, stream', by cases e <;> exact id, fun r => by simp only [onWriter, h]⟩

theorem passNull : OnStream passNull := by
  refine (reader _).bind fun k => ?_
  split
  · exact (reader _).bind fun _ => pure true
  · exact pure false

/-- Whether a value is there does not matter to the registry. -/
theorem requirePresent (t : Ty) : (v : Option Value) → OnStream (requirePresent t v)
  | some v => pure v
  | none => throw not_false

theorem readNumber (c : Scalar) : OnStream c.readNumber := by
  refine (reader _).bind fun text => ?_
  split
  · exact pure _
  · exact throw not_false

theorem readScalar (c : Scalar) : OnStream c.read := by
  refine passNull.bind fun b => ?_
  split
  · exact pure _
  · split
    · exact (reader _).bind fun _ => pure _
    · exact (reader _).bind fun _ => pure _
    · exact (readNumber c).bind fun _ => pure _

theorem writeScalar (c : Scalar) (v : Value) : OnStream (c.writeValue v) := by
  unfold Scalar.writeValue
  split <;> first | exact writer _ | exact throw not_false

end OnStream

/-! ## Runs -/

theorem Outlasts.refl (h : s.registry.Fitted) : Outlasts s s := ⟨h, .refl _, fun _ => rfl⟩

/-- What outlasts one step after another outlasts both. -/
theorem Outlasts.trans (h : Outlasts s s₁) (h' : Outlasts s₁ s₂) : Outlasts s s₂ :=
  ⟨h'.fitted, h.retains.trans h'.retains,
    fun hs => (h'.dropped (h.dropped hs ▸ hs)).trans (h.dropped hs)⟩

/-- Steps that leave the registry alone are outlasted. -/
theorem Outlasts.of_eq (h : s.registry.Fitted) (he : s₁.registry = s.registry) : Outlasts s s₁ :=
  ⟨he ▸ h, he ▸ .refl _, fun _ => he⟩

namespace Endures

/-- A sequence can be repeated when both of its parts can. -/
theorem bind (hx : Endures x s)
    (hf : ∀ a s₁, x s = .ok a s₁ → Outlasts s s₁ → Endures (f a) s₁) : Endures (x >>= f) s := by
  cases hrun : x s with
  | error e s₁ =>
    obtain ⟨hout, hdropped, hagain⟩ := hx.error hrun
    exact .of_error (bind_of_error hrun)
      ⟨hout, hdropped, fun he r hr => bind_of_error (hagain he r hr)⟩
  | ok a s₁ =>
    obtain ⟨hout, hagain⟩ := hx.ok hrun
    have hrest := hf a s₁ hrun hout
    -- the first part runs in the same way with what the second part leaves behind
    refine .congr (bind_of_ok hrun) ((Ends.mono hrest) (fun b s₂ _ ⟨hout', hagain'⟩ =>
      ⟨hout.trans hout', fun r hr => ?_⟩) fun e s₂ ⟨hout', hdropped, hagain'⟩ =>
        ⟨hout.trans hout', fun hs => hdropped (hout.dropped hs ▸ hs), fun he r hr => ?_⟩)
    · exact (bind_of_ok (hagain r (hout'.retains.trans hr))).trans (hagain' r hr)
    · exact (bind_of_ok (hagain r (hout'.retains.trans hr))).trans (hagain' he r hr)

/-- Steps on the stream are endured. -/
theorem of_onStream (hx : OnStream x) (h : s.registry.Fitted) : Endures x s := by
  obtain ⟨a, stream, ha⟩ | ⟨e, stream, he, hfail⟩ := hx s.stream
  · exact .of_ok (ha s.registry) ⟨.of_eq h rfl, fun r _ => ha r⟩
  · exact .of_error (hfail s.registry)
      ⟨.of_eq h rfl, fun _ hsearch => absurd hsearch he, fun _ r _ => hfail r⟩

theorem pure (a : α) (h : s.registry.Fitted) : Endures (pure a) s := of_onStream (.pure a) h

/-- A step of the stream, and what follows it. -/
theorem step (hx : OnStream x) (h : s.registry.Fitted)
    (hf : ∀ a s₁, s₁.registry = s.registry → Endures (f a) s₁) : Endures (x >>= f) s := by
  refine (of_onStream hx h).bind fun a s₁ hrun _ => hf a s₁ ?_
  obtain ⟨a', stream, ha⟩ | ⟨e, stream, -, hfail⟩ := hx s.stream
  · cases (ha s.registry).symm.trans hrun
    rfl
  · cases (hfail s.registry).symm.trans hrun

/-- The codec of an adapter, and what follows it. -/
theorem codec {id : AdapterId} {c : Codec} {f : Codec → AdapterM σ β}
    (hm : s.registry.Moves id c) (hf : Endures (f c) s) : Endures (codecOf id >>= f) s := by
  have hrun {s : Session σ} (hm : s.registry.Moves id c) : (codecOf id >>= f) s = f c s :=
    bind_of_ok (codecOf_moves hm)
  refine .congr (hrun hm) ((Ends.mono hf) (fun b s' _ ⟨hout, hagain⟩ => ⟨hout, fun r hr => ?_⟩)
    fun e s' ⟨hout, hdropped, hagain⟩ => ⟨hout, hdropped, fun he r hr => ?_⟩)
  · exact (hrun ((hout.retains.trans hr).moves hm)).trans (hagain r hr)
  · exact (hrun ((hout.retains.trans hr).moves hm)).trans (hagain he r hr)

/-- The adapter of a part, and what follows it. -/
theorem part {id : AdapterId} {c : Codec} {t : Ty} {f : AdapterId → AdapterM σ β}
    (h : s.registry.Fitted) (hm : s.registry.Moves id c) (ht : t ∈ c.parts)
    (hf : ∀ inner s₁, Outlasts s s₁ → s₁.registry.serves inner t = true → Endures (f inner) s₁) :
    Endures (onRegistry (Registry.part id t) >>= f) s := by
  have hpart := h.part_ends hm ht
  cases hrun : Registry.part id t s.registry with
  | error e r =>
    obtain ⟨rfl, hsearch, hdropped, -⟩ := hpart.error hrun
    exact .of_error (bind_of_error (onRegistry_error hrun))
      ⟨.refl h, fun hs _ => hdropped hs, fun he => absurd hsearch he⟩
  | ok inner r =>
    obtain ⟨hfitted, hretains, hserves, hrefers, hdropped⟩ := hpart.ok hrun
    have hout : Outlasts s { s with registry := r } := ⟨hfitted, hretains, hdropped⟩
    have hok : onRegistry (Registry.part id t) s = .ok inner { s with registry := r } :=
      onRegistry_ok hrun
    have hpart : Endures (onRegistry (Registry.part id t)) s :=
      .of_ok hok ⟨hout, fun _ hr' => onRegistry_ok (hrefers.retains hr').part_eq⟩
    refine hpart.bind fun inner' s₁ hrun' _ => ?_
    cases hok.symm.trans hrun'
    exact hf inner _ hout hserves

end Endures

end

/-! ## Reading -/

section

variable {s : Session Reader} {id : AdapterId} {t : Ty} {c : Codec} {fuel : Nat}

/-- Runs of readers can be repeated, with this amount of fuel. -/
structure EnduresAt (fuel : Nat) : Prop where
  value {s : Session Reader} {id : AdapterId} {t : Ty} : s.registry.Fitted →
    s.registry.serves id t = true → Endures (read fuel id) s
  items {s : Session Reader} {id : AdapterId} {c : Codec} {t : Ty} : s.registry.Fitted →
    s.registry.Moves id c → t ∈ c.parts → Endures (readItems fuel id t) s
  entries {s : Session Reader} {id : AdapterId} {c : Codec} {t : Ty} {m : List (String × Value)} :
    s.registry.Fitted → s.registry.Moves id c → t ∈ c.parts →
    Endures (readEntries fuel id t m) s
  members {s : Session Reader} {id : AdapterId} {r : Record} {values : Assignments} :
    s.registry.Fitted → s.registry.Moves id (.record r) →
    Endures (readMembers fuel id r values) s
  member {s : Session Reader} {id : AdapterId} {r : Record} {name : String}
    {values : Assignments} : s.registry.Fitted → s.registry.Moves id (.record r) →
    Endures (readMember fuel id r name values) s

namespace EnduresAt

/-- A part is read by the adapter of the part. -/
theorem part {β : Type} {f : Option Value → AdapterM Reader β} (h : EnduresAt fuel)
    (hs : s.registry.Fitted) (hm : s.registry.Moves id c) (ht : t ∈ c.parts)
    (hf : ∀ v s₁, s₁.registry.Fitted → s.registry.Retains s₁.registry → Endures (f v) s₁) :
    Endures (onRegistry (Registry.part id t) >>= fun inner => JsonAdapters.read fuel inner >>= f)
      s := by
  refine .part hs hm ht fun inner s₁ hout hserves => ?_
  refine (h.value hout.fitted hserves).bind fun v s₂ _ hout' => ?_
  exact hf v s₂ hout'.fitted (hout.retains.trans hout'.retains)

/-- What is read when there is no `null`. -/
theorem nullOr {α : Type} {a : α} {x : AdapterM Reader α} (hs : s.registry.Fitted)
    (hx : ∀ s₁ : Session Reader, s₁.registry = s.registry → Endures x s₁) :
    Endures (passNull >>= fun null => if null = true then pure a else x) s := by
  refine .step .passNull hs fun null s₁ h₁ => ?_
  cases null with
  | true => exact .pure _ (h₁ ▸ hs)
  | false => exact hx s₁ h₁

/-- What is read of an array or an object, between its brackets. -/
theorem enclosed {α β : Type} {enter leave : Json.ReadM Unit} {x : AdapterM Reader α}
    {f : α → AdapterM Reader β} (hs : s.registry.Fitted)
    (hx : ∀ s₁ : Session Reader, s₁.registry = s.registry → Endures x s₁)
    (hf : ∀ a s₁, s₁.registry.Fitted → Endures (f a) s₁) :
    Endures (do onReader enter; let a ← x; onReader leave; f a) s := by
  refine .step (.reader _) hs fun _ s₁ h₁ => (hx s₁ h₁).bind fun a s₂ _ hout => ?_
  exact .step (.reader _) hout.fitted fun _ s₃ h₃ => hf a s₃ (h₃ ▸ hout.fitted)

/-- Items are read by the adapter of a part, one after the other. -/
theorem readItems (h : EnduresAt fuel) (hs : s.registry.Fitted) (hm : s.registry.Moves id c)
    (ht : t ∈ c.parts) : Endures (readItems (fuel + 1) id t) s := by
  rw [JsonAdapters.readItems]
  refine .step (.reader _) hs fun more s₁ h₁ => ?_
  cases more with
  | false => exact .pure _ (h₁ ▸ hs)
  | true =>
    refine h.part (h₁ ▸ hs) (h₁ ▸ hm) ht fun v s₂ hs₂ hretains => ?_
    refine .step (.requirePresent t v) hs₂ fun v s₃ h₃ => ?_
    have hm₃ : s₃.registry.Moves id c := h₃ ▸ hretains.moves (h₁ ▸ hm)
    exact (h.items (h₃ ▸ hs₂) hm₃ ht).bind fun vs s₄ _ hout => .pure _ hout.fitted

/-- Values of entries are read by the adapter of a part. -/
theorem readEntries {m : List (String × Value)} (h : EnduresAt fuel) (hs : s.registry.Fitted)
    (hm : s.registry.Moves id c) (ht : t ∈ c.parts) :
    Endures (readEntries (fuel + 1) id t m) s := by
  rw [JsonAdapters.readEntries]
  refine .step (.reader _) hs fun more s₁ h₁ => ?_
  cases more with
  | false => exact .pure _ (h₁ ▸ hs)
  | true =>
    refine .step (.reader _) (h₁ ▸ hs) fun key s₂ h₂ => ?_
    have h₂ := h₂.trans h₁
    refine h.part (h₂ ▸ hs) (h₂ ▸ hm) ht fun v s₃ hs₃ hretains => ?_
    refine .step (.requirePresent t v) hs₃ fun v s₄ h₄ => ?_
    exact h.entries (h₄ ▸ hs₃) (h₄ ▸ hretains.moves (h₂ ▸ hm)) ht

/-- Members are read one after the other. -/
theorem readMembers {r : Record} {values : Assignments} (h : EnduresAt fuel)
    (hs : s.registry.Fitted) (hm : s.registry.Moves id (.record r)) :
    Endures (readMembers (fuel + 1) id r values) s := by
  rw [JsonAdapters.readMembers]
  refine .step (.reader _) hs fun more s₁ h₁ => ?_
  cases more with
  | false => exact .pure _ (h₁ ▸ hs)
  | true =>
    refine .step (.reader _) (h₁ ▸ hs) fun name s₂ h₂ => ?_
    have h₂ := h₂.trans h₁
    refine (h.member (h₂ ▸ hs) (h₂ ▸ hm)).bind fun values s₃ _ hout => ?_
    exact h.members hout.fitted (hout.retains.moves (h₂ ▸ hm))

/-- A member is skipped, or read by the adapter of its field. -/
theorem readMember {r : Record} {name : String} {values : Assignments} (h : EnduresAt fuel)
    (hs : s.registry.Fitted) (hm : s.registry.Moves id (.record r)) :
    Endures (readMember (fuel + 1) id r name values) s := by
  rw [JsonAdapters.readMember]
  split
  · exact .step (.reader _) hs fun _ s₁ h₁ => .pure _ (h₁ ▸ hs)
  · refine nullOr hs fun s₁ h₁ => ?_
    have hs₁ : s₁.registry.Fitted := h₁ ▸ hs
    -- only members of fields need an adapter
    split
    · exact .step (.reader _) hs₁ fun _ s₂ h₂ => .pure _ (h₂ ▸ hs₁)
    · split
      · exact .pure _ hs₁
      · next i f hf =>
        have hslot : f.type ∈ r.slots := Record.mem_slots.2 ⟨f, List.mem_of_getElem? hf, rfl⟩
        exact h.part (c := .record r) hs₁ (h₁ ▸ hm) hslot fun v s₂ hs₂ _ => .pure _ hs₂

/-- There is one case for each kind of adapter. -/
theorem read (h : EnduresAt fuel) (hs : s.registry.Fitted)
    (hserves : s.registry.serves id t = true) : Endures (read (fuel + 1) id) s := by
  obtain ⟨c, hm, -⟩ := Registry.exists_moves hserves
  rw [JsonAdapters.read]
  refine .codec hm ?_
  -- one case for each kind of adapter
  cases c with
  | scalar c => exact .of_onStream (.readScalar c) hs
  | custom c => exact .of_onStream (.reader c.read) hs
  | vec u =>
    refine nullOr hs fun s₁ h₁ => enclosed (h₁ ▸ hs) (fun s₂ h₂ => ?_) fun vs s₃ hs₃ => .pure _ hs₃
    have h₂ := h₂.trans h₁
    exact h.items (h₂ ▸ hs) (h₂ ▸ hm) (List.mem_singleton.2 rfl)
  | hashMap u | treeMap u =>
    refine nullOr hs fun s₁ h₁ => enclosed (h₁ ▸ hs) (fun s₂ h₂ => ?_) fun es s₃ hs₃ => .pure _ hs₃
    have h₂ := h₂.trans h₁
    exact h.entries (h₂ ▸ hs) (h₂ ▸ hm) (List.mem_singleton.2 rfl)
  | option u =>
    refine nullOr hs fun s₁ h₁ => ?_
    refine h.part (h₁ ▸ hs) (h₁ ▸ hm) (List.mem_singleton.2 rfl) fun v s₂ hs₂ _ => ?_
    cases v <;> exact .pure _ hs₂
  | box u => exact h.part hs hm (List.mem_singleton.2 rfl) fun v s₁ hs₁ _ => .pure _ hs₁
  | record r =>
    refine nullOr hs fun s₁ h₁ => enclosed (h₁ ▸ hs) (fun s₂ h₂ => ?_) fun values s₃ hs₃ => ?_
    · have h₂ := h₂.trans h₁
      exact h.members (h₂ ▸ hs) (h₂ ▸ hm)
    · cases ho : r.ofMembers values with
      | ok v => exact .pure _ hs₃
      | error e =>
        obtain ⟨f, -, rfl⟩ := Record.ofMembers_error ho
        exact .of_onStream (.throw not_false) hs₃

end EnduresAt

/-- Without fuel, reading stops at once. -/
theorem EnduresAt.zero : EnduresAt 0 := by
  have hstalled {α : Type} {s : Session Reader} (hs : s.registry.Fitted) :
      Endures (throw .stalled : AdapterM Reader α) s := .of_onStream (.throw not_false) hs
  constructor
  · intro s id t hs _
    rw [JsonAdapters.read]
    exact hstalled hs
  · intro s id c t hs _ _
    rw [JsonAdapters.readItems]
    exact hstalled hs
  · intro s id c t m hs _ _
    rw [JsonAdapters.readEntries]
    exact hstalled hs
  · intro s id r values hs _
    rw [JsonAdapters.readMembers]
    exact hstalled hs
  · intro s id r name values hs _
    rw [JsonAdapters.readMember]
    exact hstalled hs

theorem enduresAt : ∀ fuel, EnduresAt fuel
  | 0 => .zero
  | fuel + 1 =>
    have h := enduresAt fuel
    ⟨h.read, h.readItems, h.readEntries, h.readMembers, h.readMember⟩

/-- Reading a document can be repeated. -/
theorem endures_readWhole (hs : s.registry.Fitted) (hserves : s.registry.serves id t = true) :
    Endures (readWhole id t) s := by
  -- later registries have the same schema, and so the same fuel
  have hwith : Endures (readWith id t) s := by
    have hfuel {r : Registry} (hr : s.registry.Retains r) :
        readWith id t ⟨r, s.stream⟩ =
          read (readFuel s.registry.schema t s.stream) id ⟨r, s.stream⟩ := by
      rw [← hr.schema]
      rfl
    have hread := (enduresAt (readFuel s.registry.schema t s.stream)).value hs hserves
    refine .congr (hfuel (.refl _)) (hread.mono (fun v s' _ ⟨hout, hagain⟩ => ⟨hout, ?_⟩)
      fun e s' ⟨hout, hdropped, hagain⟩ => ⟨hout, hdropped, fun he r hr => ?_⟩)
    · exact fun r hr => (hfuel (hout.retains.trans hr)).trans (hagain r hr)
    · exact (hfuel (hout.retains.trans hr)).trans (hagain he r hr)
  refine hwith.bind fun v s₁ _ hout => ?_
  exact .step (.reader _) hout.fitted fun _ s₂ h₂ => .pure _ (h₂ ▸ hout.fitted)

end

/-! ## Writing -/

section

variable {s : Session Writer} {id : AdapterId} {t : Ty} {v : Value} {vs : List Value}
  {es : List (String × Value)}

/-- Only boxes hand on that a value is absent. -/
theorem endures_writeAbsent (hs : s.registry.Fitted) (hserves : s.registry.serves id t = true) :
    Endures (writeAbsent t id) s := by
  induction t generalizing s id with
  | box u ih =>
    obtain ⟨c, hm, hc⟩ := Registry.exists_moves hserves
    unfold writeAbsent
    refine .codec hm ?_
    cases c with
    | box u' =>
      cases hc
      exact .part hs hm (List.mem_singleton.2 rfl) fun inner s₁ hout hinner => ih hout.fitted hinner
    | _ => exact .of_onStream (.writer _) hs
  | scalar | vec | option | hashMap | treeMap | record =>
    obtain ⟨c, hm, hc⟩ := Registry.exists_moves hserves
    unfold writeAbsent
    refine .codec hm ?_
    cases c with
    | box u' => cases hc
    | _ => exact .of_onStream (.writer _) hs

/-- Writing the value can be repeated. -/
def EnduresValue (v : Value) : Prop :=
  ∀ ⦃s : Session Writer⦄ ⦃id : AdapterId⦄ ⦃t : Ty⦄, s.registry.Fitted →
    s.registry.serves id t = true → Endures (writeValue v id) s

def EnduresItems (vs : List Value) : Prop :=
  ∀ ⦃s : Session Writer⦄ ⦃id : AdapterId⦄ ⦃t : Ty⦄, s.registry.Fitted →
    s.registry.serves id t = true → Endures (writeItems vs id) s

def EnduresEntries (es : List (String × Value)) : Prop :=
  ∀ ⦃s : Session Writer⦄ ⦃id : AdapterId⦄ ⦃t : Ty⦄, s.registry.Fitted →
    s.registry.serves id t = true → Endures (writeEntries es id) s

def EnduresFields (vs : List Value) : Prop :=
  ∀ ⦃s : Session Writer⦄ ⦃id : AdapterId⦄ ⦃r : Record⦄ ⦃fs : List Field⦄, s.registry.Fitted →
    s.registry.Moves id (.record r) → (∀ f ∈ fs, f.type ∈ r.slots) →
    Endures (writeFields vs fs id) s

/-- What comes between two steps of the writer. -/
theorem endures_between {x : Json.WriteM Unit} {y : AdapterM Writer Unit} {z : Json.WriteM Unit}
    (hs : s.registry.Fitted)
    (hy : ∀ s₁ : Session Writer, s₁.registry = s.registry → Endures y s₁) :
    Endures (do onWriter x; y; onWriter z) s :=
  .step (.writer x) hs fun _ s₁ h₁ =>
    (hy s₁ h₁).bind fun _ _ _ hout => .of_onStream (.writer z) hout.fitted

/-- Adapters of all kinds can write a value again, when they can what it holds. -/
theorem enduresValue_of_parts (hitems : ∀ vs, v = .vec vs → EnduresItems vs)
    (hentries : ∀ es, v = .map es → EnduresEntries es)
    (hjust : ∀ w, v = .just w → EnduresValue w) (hbox : ∀ w, v = .box w → EnduresValue w)
    (hfields : ∀ vs skipped, v = .record vs skipped → EnduresFields vs) : EnduresValue v := by
  intro s id t hs hserves
  obtain ⟨c, hm, -⟩ := Registry.exists_moves hserves
  have hmisuse : Endures (throw .misuse : AdapterM Writer Unit) s :=
    .of_onStream (.throw not_false) hs
  rw [writeValue.eq_def]
  refine .codec hm ?_
  -- one case for each kind of adapter; values of another form are misused
  cases c with
  | custom c => exact .of_onStream (.writer _) hs
  | scalar c => exact .of_onStream (.writeScalar c v) hs
  | vec u =>
    cases v with
    | vec vs =>
      refine .part hs hm (List.mem_singleton.2 rfl) fun inner s₁ hout hinner => ?_
      exact endures_between hout.fitted fun s₂ h₂ =>
        hitems vs rfl (h₂ ▸ hout.fitted) (h₂ ▸ hinner)
    | _ => exact hmisuse
  | hashMap u | treeMap u =>
    cases v with
    | map es =>
      refine .part hs hm (List.mem_singleton.2 rfl) fun inner s₁ hout hinner => ?_
      exact endures_between hout.fitted fun s₂ h₂ =>
        hentries es rfl (h₂ ▸ hout.fitted) (h₂ ▸ hinner)
    | _ => exact hmisuse
  | option u =>
    cases v with
    | just w =>
      exact .part hs hm (List.mem_singleton.2 rfl) fun inner s₁ hout hinner =>
        hjust w rfl hout.fitted hinner
    | nothing => exact .of_onStream (.writer _) hs
    | _ => exact hmisuse
  | box u =>
    cases v with
    | box w =>
      exact .part hs hm (List.mem_singleton.2 rfl) fun inner s₁ hout hinner =>
        hbox w rfl hout.fitted hinner
    | _ => exact hmisuse
  | record r =>
    cases v with
    | record vs skipped =>
      refine endures_between hs fun s₁ h₁ => ?_
      exact hfields vs skipped rfl (h₁ ▸ hs) (h₁ ▸ hm) fun f hf => Record.mem_slots.2 ⟨f, hf, rfl⟩
    | _ => exact hmisuse

/-- An item is written, and then the others. -/
theorem EnduresItems.cons (hv : EnduresValue v) (hvs : EnduresItems vs) :
    EnduresItems (v :: vs) := by
  intro s id t hs hserves
  rw [writeItems]
  exact (hv hs hserves).bind fun _ s₁ _ hout => hvs hout.fitted (hout.retains.serves hserves)

/-- An entry is written, and then the others. -/
theorem EnduresEntries.cons {key : String} (hv : EnduresValue v) (hes : EnduresEntries es) :
    EnduresEntries ((key, v) :: es) := by
  intro s id t hs hserves
  rw [writeEntries]
  refine .step (.writer _) hs fun _ s₁ h₁ => ?_
  have hserves₁ : s₁.registry.serves id t = true := h₁ ▸ hserves
  exact (hv (h₁ ▸ hs) hserves₁).bind fun _ s₂ _ hout =>
    hes hout.fitted (hout.retains.serves hserves₁)

/-- What a nullable field holds is written by the adapter of its type without the option. -/
theorem endures_field {f : Field} (hv : EnduresValue v) (hjust : ∀ w, v = .just w → EnduresValue w)
    {rest : Unit → AdapterM Writer Unit} (hs : s.registry.Fitted)
    (hserves : s.registry.serves id f.type = true)
    (hrest : ∀ s' : Session Writer, Outlasts s s' → Endures (rest ()) s') :
    Endures (match f.nullable, v with
      | true, .nothing => writeAbsent f.type id >>= rest
      | true, .just w => writeValue w id >>= rest
      | true, _ => throw .misuse >>= rest
      | false, v => writeValue v id >>= rest) s := by
  have hseq {x : AdapterM Writer Unit} (hx : Endures x s) : Endures (x >>= rest) s :=
    hx.bind fun _ s' _ hout => hrest s' hout
  cases f.nullable with
  | false => exact hseq (hv hs hserves)
  | true =>
    cases v with
    | nothing => exact hseq (endures_writeAbsent hs hserves)
    | just w => exact hseq (hjust w rfl hs hserves)
    | _ => exact hseq (.of_onStream (.throw not_false) hs)

/-- A field is written, and then the others. -/
theorem EnduresFields.cons (hv : EnduresValue v) (hjust : ∀ w, v = .just w → EnduresValue w)
    (hvs : EnduresFields vs) : EnduresFields (v :: vs) := by
  intro s id r fs hs hm hslots
  cases fs with
  | nil => exact .pure _ hs
  | cons f fs =>
    rw [writeFields]
    refine .step (.writer _) hs fun _ s₁ h₁ => ?_
    refine .part (c := .record r) (h₁ ▸ hs) (h₁ ▸ hm) (hslots f List.mem_cons_self)
      fun inner s₂ hout hinner => ?_
    refine endures_field hv hjust hout.fitted hinner fun s₃ hout' => ?_
    exact hvs hout'.fitted ((hout.retains.trans hout'.retains).moves (h₁ ▸ hm)) fun g hg =>
      hslots g (.tail f hg)

mutual

theorem enduresValue : (v : Value) → EnduresValue v
  | .vec vs => enduresValue_of_parts (fun _ h => Value.vec.inj h ▸ enduresItems vs) nofun nofun
      nofun nofun
  | .map es => enduresValue_of_parts nofun (fun _ h => Value.map.inj h ▸ enduresEntries es) nofun
      nofun nofun
  | .just w => enduresValue_of_parts nofun nofun (fun _ h => Value.just.inj h ▸ enduresValue w)
      nofun nofun
  | .box w => enduresValue_of_parts nofun nofun nofun (fun _ h => Value.box.inj h ▸ enduresValue w)
      nofun
  | .record vs _ => enduresValue_of_parts nofun nofun nofun nofun
      (fun _ _ h => (Value.record.inj h).1 ▸ enduresFields vs)
  | .bool _ | .int _ | .single _ | .double _ | .string _ | .nothing =>
    enduresValue_of_parts nofun nofun nofun nofun nofun

theorem enduresItems : (vs : List Value) → EnduresItems vs
  | [] => fun _ _ _ hs _ => .pure _ hs
  | v :: vs => .cons (enduresValue v) (enduresItems vs)

theorem enduresEntries : (es : List (String × Value)) → EnduresEntries es
  | [] => fun _ _ _ hs _ => .pure _ hs
  | (_, v) :: es => .cons (enduresValue v) (enduresEntries es)

theorem enduresFields : (vs : List Value) → EnduresFields vs
  | [] => fun _ _ _ _ hs _ _ => .pure _ hs
  | v :: vs => .cons (enduresValue v)
      (fun _ h => match v, h with | .just w, h => Value.just.inj h ▸ enduresValue w)
      (enduresFields vs)

end

/-- Writing a document can be repeated. -/
theorem endures_writeWhole (v : Option Value) (hs : s.registry.Fitted)
    (hserves : s.registry.serves id t = true) : Endures (writeWhole id t v) s := by
  have hoption : Endures (writeOption t v id) s := by
    cases v with
    | none => exact endures_writeAbsent hs hserves
    | some v => exact enduresValue v hs hserves
  exact hoption.bind fun _ s₁ _ hout => .of_onStream (.writer _) hout.fitted

end

end JsonAdapters
