import JsonAdapters.Proofs.Adapter.Encoding
import JsonAdapters.Proofs.Adapter.Seeking

/-!
# What is asked for while a value is written

An adapter that writes a value asks for the adapters of its parts, and it does so also where it has
nothing to write with them: for the items of an empty vector, and for a field that is nothing. What
is asked for is said here on values: the requests of one adapter, and what is asked for below them.
Some of these types need not have been asked for when the value was read.

## Main definitions

* `Value.requests`: what one adapter asks for, and what it writes with that.
* `Value.Asks`: a type is asked for while a value is written.
* `Value.Idle`: it is asked for where reading the value asks for nothing.
* `Wants`: with every later registry, writing a value wants no adapters but of certain types.

## Main statements

* `wants_of_requests`: one adapter at work, from what it writes with others.
* `wants_asks`: a type that is wanted is asked for.

## Design notes

`Wants` speaks of every later registry, so that what reading a part of a value has brought about is
still good for writing it when the other parts are read.
-/

namespace JsonAdapters

open Json (Writer)
open Registry (Later Orderly)

/-- What the adapter of the field's type writes, when the field has the value. -/
def Field.content (f : Field) (v : Value) : Option Value :=
  if f.nullable then
    match v with
    | .just w => some w
    | _ => none
  else some v

namespace Value

/-- The types that the adapter of a type asks for while it writes a value, or the absent one, each
with all that it writes with the adapter that it asked for. -/
def requests (S : Schema) : Ty → Option Value → List (Ty × List (Option Value))
  | .box t, none => [(t, [none])]
  | .box t, some (.box v) | .option t, some (.just v) => [(t, [some v])]
  | .vec t, some (.vec vs) => [(t, vs.map some)]
  | .hashMap t, some (.map es) | .treeMap t, some (.map es) => [(t, es.map fun e => some e.2)]
  | .record id, some (.record vs _) =>
    match S.find? id with
    | some r => (r.fields.zip vs).map fun x => (x.1.type, [x.1.content x.2])
    | none => []
  | _, _ => []

/-- Writing the value, or the absent one, with the adapter of the type `t` asks for `u`. -/
inductive Asks (S : Schema) (u : Ty) : Ty → Option Value → Prop
  | request {t : Ty} {v : Option Value} {ws : List (Option Value)} :
    (u, ws) ∈ requests S t v → Asks S u t v
  | part {t : Ty} {v w : Option Value} {q : Ty × List (Option Value)} :
    q ∈ requests S t v → w ∈ q.2 → Asks S u q.1 w → Asks S u t v

/-- Writing the value with the adapter of the type `t` asks for `u`, and reading it need not:
nothing that is present is written with it, or the value of a field is the one of the default
instance. -/
inductive Idle (S : Schema) (u : Ty) : Ty → Option Value → Prop
  | unread {t : Ty} {v : Option Value} {ws : List (Option Value)} :
    (u, ws) ∈ requests S t v → (∀ w ∈ ws, w = none) → Idle S u t v
  | absent {t : Ty} : Asks S u t none → Idle S u t none
  | kept {id : RecordId} {r : Record} {d : DefaultInstance} {i : Nat} {f : Field} {v : Value}
    {vs skipped : List Value} : S.find? id = some r → r.default = some d →
    r.fields[i]? = some f → d.fields[i]? = some v → vs[i]? = some v →
    u = f.type ∨ Asks S u f.type (f.content v) → Idle S u (.record id) (some (.record vs skipped))
  | part {t : Ty} {v w : Option Value} {q : Ty × List (Option Value)} :
    q ∈ requests S t v → w ∈ q.2 → Idle S u q.1 w → Idle S u t v

variable {S : Schema} {t : Ty} {v w : Option Value} {q : Ty × List (Option Value)}

/-- What a field holds is written on request of the record. -/
theorem field_mem_requests {id : RecordId} {r : Record} {vs skipped : List Value}
    {x : Field × Value} (hr : S.find? id = some r) (hx : x ∈ r.fields.zip vs) :
    (x.1.type, [x.1.content x.2]) ∈ requests S (.record id) (some (.record vs skipped)) := by
  rw [requests, hr]
  exact List.mem_map.2 ⟨x, hx, rfl⟩

theorem mem_requests_record {id : RecordId} {r : Record} {vs skipped : List Value}
    (hr : S.find? id = some r) : q ∈ requests S (.record id) (some (.record vs skipped)) ↔
      ∃ (i : Nat) (f : Field) (x : Value), r.fields[i]? = some f ∧ vs[i]? = some x ∧
        (f.type, [f.content x]) = q := by
  rw [requests, hr, List.mem_map]
  constructor
  · rintro ⟨⟨f, x⟩, hmem, rfl⟩
    obtain ⟨i, hi⟩ := List.mem_iff_getElem?.1 hmem
    obtain ⟨hf, hx⟩ := List.getElem?_zip_eq_some.1 hi
    exact ⟨i, f, x, hf, hx, rfl⟩
  · rintro ⟨i, f, x, hf, hx, rfl⟩
    exact ⟨(f, x), List.mem_of_getElem? (List.getElem?_zip_eq_some.2 ⟨hf, hx⟩), rfl⟩

/-- What a field has to write is part of its value. -/
theorem sizeOf_content (f : Field) (x : Value) : sizeOf (f.content x) ≤ sizeOf (some x) := by
  unfold Field.content
  split
  · split
    · simp
    · simp
  · exact Nat.le_refl _

/-- What is written on request is smaller than the value, or the same with a smaller type. -/
theorem lex_of_mem_requests (hq : q ∈ requests S t v) (hw : w ∈ q.2) :
    sizeOf w < sizeOf v ∨ w = v ∧ sizeOf q.1 < sizeOf t := by
  -- the value of an entry is smaller than the map
  have hentry {es : List (String × Value)} (hw : w ∈ es.map fun e => some e.2) :
      sizeOf w < sizeOf (some (map es)) := by
    obtain ⟨⟨key, x⟩, hx, rfl⟩ := List.mem_map.1 hw
    have hlt : sizeOf (key, x) < sizeOf es := List.sizeOf_lt_of_mem hx
    simp only [Prod.mk.sizeOf_spec] at hlt
    simp only [Option.some.sizeOf_spec, map.sizeOf_spec]
    omega
  unfold requests at hq
  split at hq
  · obtain rfl := List.mem_singleton.1 hq
    obtain rfl := List.mem_singleton.1 hw
    exact .inr ⟨rfl, by simp⟩
  · obtain rfl := List.mem_singleton.1 hq
    obtain rfl := List.mem_singleton.1 hw
    exact .inl (by simp)
  · obtain rfl := List.mem_singleton.1 hq
    obtain rfl := List.mem_singleton.1 hw
    exact .inl (by simp)
  · next vs =>
    obtain rfl := List.mem_singleton.1 hq
    obtain ⟨x, hx, rfl⟩ := List.mem_map.1 hw
    have hlt : sizeOf x < sizeOf vs := List.sizeOf_lt_of_mem hx
    exact .inl (by simp only [Option.some.sizeOf_spec, vec.sizeOf_spec]; omega)
  · obtain rfl := List.mem_singleton.1 hq
    exact .inl (hentry hw)
  · obtain rfl := List.mem_singleton.1 hq
    exact .inl (hentry hw)
  · next id vs skipped =>
    split at hq
    · obtain ⟨⟨f, x⟩, hmem, rfl⟩ := List.mem_map.1 hq
      obtain rfl := List.mem_singleton.1 hw
      have hlt : sizeOf x < sizeOf vs := List.sizeOf_lt_of_mem (List.of_mem_zip hmem).2
      have hle := sizeOf_content f x
      simp only [Option.some.sizeOf_spec] at hle
      exact .inl (by simp only [Option.some.sizeOf_spec, record.sizeOf_spec]; omega)
    · cases hq
  · cases hq

/-- Induction on what is written on request. -/
theorem requests_induction {motive : Ty → Option Value → Prop}
    (h : ∀ t v, (∀ q ∈ requests S t v, ∀ w ∈ q.2, motive q.1 w) → motive t v) (t : Ty)
    (v : Option Value) : motive t v :=
  h t v fun q hq w hw =>
    have := lex_of_mem_requests hq hw
    requests_induction h q.1 w
termination_by (sizeOf v, sizeOf t)
decreasing_by
  rw [Prod.lex_def]
  obtain hlt | ⟨heq, hlt⟩ := this
  · exact .inl hlt
  · exact .inr ⟨by rw [heq], hlt⟩

end Value

/-! ## Writing -/

variable {P : Schema → CustomCodec → Prop} {p p' : Ty → Prop} {r r' : Registry} {t : Ty}
  {v : Option Value}

/-- With every later registry, the adapter for `t` writes the value, or the absent one, and wants no
adapters but of types with `p`. -/
def Wants (P : Schema → CustomCodec → Prop) (p : Ty → Prop) (r : Registry) (t : Ty)
    (v : Option Value) : Prop :=
  ∀ (s : Session Writer) (id : AdapterId), Later P r s.registry →
    s.registry.serves id t = true → Seeks P p (writeOption t v id) s fun _ _ => True

theorem Wants.later (h : Wants P p r t v) (hr : Later P r r') : Wants P p r' t v :=
  fun s id hs => h s id (hr.trans hs)

theorem Wants.mono (h : Wants P p r t v) (hp : ∀ u, p u → p' u) : Wants P p' r t v :=
  fun s id hs hserves => (h s id hs hserves).mono hp fun _ _ _ h => h

/-- What a field holds is written with the adapter of its type, and then the rest. -/
theorem Seeks.field {f : Field} {v : Value} {id : AdapterId} {s : Session Writer}
    {rest : Unit → AdapterM Writer Unit} {post post' : Unit → Session Writer → Prop}
    (hs : s.registry.Orderly P) (h : Seeks P p (writeOption f.type (f.content v) id) s post)
    (hrest : ∀ s₁ : Session Writer, Later P s.registry s₁.registry → post () s₁ →
      Seeks P p (rest ()) s₁ post') :
    Seeks P p (match f.nullable, v with
      | true, .nothing => writeAbsent f.type id >>= rest
      | true, .just w => writeValue w id >>= rest
      | true, _ => throw .misuse >>= rest
      | false, v => writeValue v id >>= rest) s post' := by
  -- each of the cases writes the content of the field
  have hall {x : AdapterM Writer Unit} (hx : Seeks P p x s post) : Seeks P p (x >>= rest) s post' :=
    hx.bind fun _ s₁ hlater => hrest s₁ hlater
  unfold Field.content at h
  cases hnullable : f.nullable with
  | false =>
    rw [hnullable] at h
    exact hall h
  | true =>
    rw [hnullable] at h
    cases v with
    | nothing | just => exact hall h
    | _ => exact .throw_bind (e := .misuse) not_false hs

namespace Wants

variable {s : Session Writer} {id : AdapterId} {vs : List Value} {es : List (String × Value)}
  {fs : List Field}

theorem writeItems (h : ∀ v ∈ vs, Wants P p r t (some v)) (hs : Later P r s.registry)
    (hserves : s.registry.serves id t = true) :
    Seeks P p (writeItems vs id) s fun _ _ => True := by
  induction vs generalizing s with
  | nil => exact .pure hs.orderly trivial
  | cons v vs ih =>
    rw [JsonAdapters.writeItems]
    refine (h v List.mem_cons_self s id hs hserves).bind fun _ s₁ hlater _ => ?_
    exact ih (fun w hw => h w (.tail v hw)) (hs.trans hlater) (hlater.keeps.serves hserves)

theorem writeEntries (h : ∀ e ∈ es, Wants P p r t (some e.2)) (hs : Later P r s.registry)
    (hserves : s.registry.serves id t = true) :
    Seeks P p (writeEntries es id) s fun _ _ => True := by
  induction es generalizing s with
  | nil => exact .pure hs.orderly trivial
  | cons e es ih =>
    obtain ⟨key, v⟩ := e
    rw [JsonAdapters.writeEntries]
    refine .step (.writer _) hs.orderly fun _ stream _ => ?_
    have hvalue := h (key, v) List.mem_cons_self ⟨s.registry, stream⟩ id hs hserves
    refine hvalue.bind fun _ s₂ hlater _ => ?_
    exact ih (fun e he => h e (.tail _ he)) (hs.trans hlater) (hlater.keeps.serves hserves)

theorem writeFields {q : Record} (h : ∀ x ∈ fs.zip vs, (p x.1.type ∨ r.Has x.1.type) ∧
      Wants P p r x.1.type (x.1.content x.2)) (hslots : ∀ f ∈ fs, f.type ∈ q.slots)
    (hs : Later P r s.registry) (hm : s.registry.Moves id (.record q)) :
    Seeks P p (writeFields vs fs id) s fun _ _ => True := by
  induction vs generalizing fs s with
  | nil =>
    rw [JsonAdapters.writeFields]
    · exact .pure hs.orderly trivial
    · rintro _ _ _ _ ⟨⟩
  | cons v vs ih =>
    cases fs with
    | nil =>
      rw [JsonAdapters.writeFields]
      · exact .pure hs.orderly trivial
      · rintro _ _ _ _ - ⟨⟩
    | cons f fs =>
      obtain ⟨hp, hwants⟩ := h (f, v) List.mem_cons_self
      rw [JsonAdapters.writeFields]
      refine .step (.writer _) hs.orderly fun _ stream _ => ?_
      refine .part (c := .record q) hs.orderly hm (hslots f List.mem_cons_self)
        (hp.imp (fun h => h) hs.keeps.has) fun inner r₁ hlater hserves => ?_
      -- the part is asked for before the content is written
      have hcontent := hwants ⟨r₁, stream⟩ inner (hs.trans hlater) hserves
      refine .field hlater.orderly hcontent fun s₁ hlater' _ => ?_
      have hlater₁ : Later P s.registry s₁.registry := hlater.trans hlater'
      exact ih (fun x hx => h x (.tail _ hx)) (fun g hg => hslots g (.tail f hg))
        (hs.trans hlater₁) (hm.later hlater₁)

/-- What comes between two steps of the writer. -/
theorem between {x : Json.WriteM Unit} {y : AdapterM Writer Unit} {z : Json.WriteM Unit}
    (hs : s.registry.Orderly P)
    (hy : ∀ stream, Seeks P p y ⟨s.registry, stream⟩ fun _ _ => True) :
    Seeks P p (do onWriter x; y; onWriter z) s fun _ _ => True := by
  refine .step (.writer x) hs fun _ stream _ => (hy stream).bind fun _ s₁ hlater _ => ?_
  exact .of_onStream (.writer z) hlater.orderly fun _ _ _ => trivial

/-! ### Kinds of adapters

Each kind asks for the adapters of its parts, if it has some, and writes with them. -/

variable {c : Codec} {u : Ty} {w : Option Value}

/-- The adapter of a part is asked for, and the same value is written with it. -/
theorem part (hu : p u ∨ r.Has u) (h : Wants P p r u w) (hs : Later P r s.registry)
    (hm : s.registry.Moves id c) (hc : u ∈ c.parts) :
    Seeks P p (onRegistry (Registry.part id u) >>= writeOption u w) s fun _ _ => True :=
  .part hs.orderly hm hc (hu.imp (fun h => h) hs.keeps.has) fun inner r₁ hlater hserves =>
    h ⟨r₁, s.stream⟩ inner (hs.trans hlater) hserves

theorem vec (hu : p u ∨ r.Has u) (h : ∀ v ∈ vs, Wants P p r u (some v))
    (hs : Later P r s.registry) (hm : s.registry.Moves id (.vec u)) :
    Seeks P p (do
      let inner ← onRegistry (Registry.part id u)
      onWriter Json.Writer.enterArray
      JsonAdapters.writeItems vs inner
      onWriter Json.Writer.leaveArray) s fun _ _ => True := by
  refine .part hs.orderly hm (List.mem_singleton.2 rfl) (hu.imp (fun h => h) hs.keeps.has)
    fun inner r₁ hlater hserves => ?_
  have hr₁ := hs.trans hlater
  exact between (s := ⟨r₁, s.stream⟩) hr₁.orderly fun stream =>
    writeItems (s := ⟨r₁, stream⟩) h hr₁ hserves

/-- The two kinds of maps differ in what they read, and write alike. -/
theorem map (hu : p u ∨ r.Has u) (h : ∀ e ∈ es, Wants P p r u (some e.2))
    (hs : Later P r s.registry) (hm : s.registry.Moves id c) (hc : u ∈ c.parts) :
    Seeks P p (do
      let inner ← onRegistry (Registry.part id u)
      onWriter Json.Writer.enterObject
      JsonAdapters.writeEntries es inner
      onWriter Json.Writer.leaveObject) s fun _ _ => True := by
  refine .part hs.orderly hm hc (hu.imp (fun h => h) hs.keeps.has)
    fun inner r₁ hlater hserves => ?_
  have hr₁ := hs.trans hlater
  exact between (s := ⟨r₁, s.stream⟩) hr₁.orderly fun stream =>
    writeEntries (s := ⟨r₁, stream⟩) h hr₁ hserves

/-- The slots of a record are asked for as its fields are written. -/
theorem record {q : Record} (h : ∀ x ∈ q.fields.zip vs, (p x.1.type ∨ r.Has x.1.type) ∧
      Wants P p r x.1.type (x.1.content x.2)) (hs : Later P r s.registry)
    (hm : s.registry.Moves id (.record q)) :
    Seeks P p (do
      onWriter Json.Writer.enterObject
      JsonAdapters.writeFields vs q.fields id
      onWriter Json.Writer.leaveObject) s fun _ _ => True :=
  between hs.orderly fun stream =>
    writeFields (s := ⟨s.registry, stream⟩) h (fun f hf => Record.mem_slots.2 ⟨f, hf, rfl⟩) hs hm

end Wants

section Requests

variable {s : Session Writer} {id : AdapterId}

/-- Only boxes pass on that there is no value. -/
theorem wants_of_requests_none (h : ∀ q ∈ Value.requests r.schema t none,
      (p q.1 ∨ r.Has q.1) ∧ ∀ w ∈ q.2, Wants P p r q.1 w) (hs : Later P r s.registry)
    (hserves : s.registry.serves id t = true) :
    Seeks P p (writeAbsent t id) s fun _ _ => True := by
  obtain ⟨c, hm, hc⟩ := Registry.exists_moves hserves
  unfold writeAbsent
  refine .codec hm ?_
  cases c with
  | box u =>
    subst hc
    obtain ⟨hu, hwants⟩ := h _ (List.mem_singleton.2 rfl)
    exact Wants.part hu (hwants none (List.mem_singleton.2 rfl)) hs hm (List.mem_singleton.2 rfl)
  | _ => exact .of_onStream (.writer _) hs.orderly fun _ _ _ => trivial

/-- There is one case for each kind of adapter, with the values of its form. Other values are
misused, which wants nothing. -/
theorem wants_of_requests_some {v : Value} (h : ∀ q ∈ Value.requests r.schema t (some v),
      (p q.1 ∨ r.Has q.1) ∧ ∀ w ∈ q.2, Wants P p r q.1 w) (hs : Later P r s.registry)
    (hserves : s.registry.serves id t = true) :
    Seeks P p (writeValue v id) s fun _ _ => True := by
  obtain ⟨c, hm, hc⟩ := Registry.exists_moves hserves
  -- a value of another shape is refused without a search
  have hmisuse : Seeks P p (throw .misuse : AdapterM Writer Unit) s fun _ _ => True :=
    .throw not_false hs.orderly
  rw [writeValue.eq_def]
  refine .codec hm ?_
  subst hc
  cases c with
  | custom c => exact .of_onStream (.writer _) hs.orderly fun _ _ _ => trivial
  | scalar c => exact .of_onStream (.writeScalar c v) hs.orderly fun _ _ _ => trivial
  | vec u =>
    cases v with
    | vec vs =>
      obtain ⟨hu, hwants⟩ := h _ (List.mem_singleton.2 rfl)
      exact Wants.vec hu (fun v hv => hwants _ (List.mem_map_of_mem hv)) hs hm
    | _ => exact hmisuse
  | hashMap u | treeMap u =>
    cases v with
    | map es =>
      obtain ⟨hu, hwants⟩ := h _ (List.mem_singleton.2 rfl)
      exact Wants.map hu (fun e he => hwants _ (List.mem_map.2 ⟨e, he, rfl⟩)) hs hm
        (List.mem_singleton.2 rfl)
    | _ => exact hmisuse
  | option u =>
    cases v with
    | just w =>
      obtain ⟨hu, hwants⟩ := h _ (List.mem_singleton.2 rfl)
      exact Wants.part hu (hwants _ (List.mem_singleton.2 rfl)) hs hm (List.mem_singleton.2 rfl)
    | nothing => exact .of_onStream (.writer _) hs.orderly fun _ _ _ => trivial
    | _ => exact hmisuse
  | box u =>
    cases v with
    | box w =>
      obtain ⟨hu, hwants⟩ := h _ (List.mem_singleton.2 rfl)
      exact Wants.part hu (hwants _ (List.mem_singleton.2 rfl)) hs hm (List.mem_singleton.2 rfl)
    | _ => exact hmisuse
  | record q =>
    cases v with
    | record vs skipped =>
      have hfind : r.schema.find? q.id = some q := hs.keeps.schema ▸ hm.fits hs.orderly.valid
      refine Wants.record (fun x hx => ?_) hs hm
      obtain ⟨hu, hwants⟩ := h _ (Value.field_mem_requests hfind hx)
      exact ⟨hu, hwants _ (List.mem_singleton.2 rfl)⟩
    | _ => exact hmisuse

end Requests

/-- The adapter for a type wants no more than what it asks for, and what it writes with that. -/
theorem wants_of_requests (h : ∀ q ∈ Value.requests r.schema t v,
    (p q.1 ∨ r.Has q.1) ∧ ∀ w ∈ q.2, Wants P p r q.1 w) : Wants P p r t v := by
  intro s id hs hserves
  cases v with
  | none => exact wants_of_requests_none h hs hserves
  | some v => exact wants_of_requests_some h hs hserves

/-- Whatever value is written, the adapters that are wanted are asked for. -/
theorem wants_asks (P : Schema → CustomCodec → Prop) (r : Registry) (t : Ty) (v : Option Value) :
    Wants P (fun u => Value.Asks r.schema u t v) r t v := by
  refine Value.requests_induction (S := r.schema)
    (motive := fun t v => Wants P (fun u => Value.Asks r.schema u t v) r t v) ?_ t v
  intro t v ih
  refine wants_of_requests fun q hq => ⟨.inl (.request hq), fun w hw => ?_⟩
  exact (ih q hq w hw).mono fun u hu => .part hq hw hu

end JsonAdapters
