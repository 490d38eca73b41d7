import JsonAdapters.Proofs.Adapter.Members
import JsonAdapters.Proofs.Adapter.Wanting

/-!
# What reading leaves for writing

An adapter that has read a value has asked for the adapters of all parts that were there. They stay,
and so the value can be written with all that was asked for, except at places where nothing was
read: an empty vector, a field that is nothing, a value of the default instance. This is one
induction on fuel over all that an adapter reads.

## Main definitions

* `Stocked`: a registry has the adapters with which a value is written, idle ones excepted.
* `StocksAt`: what readers leave behind, with an amount of fuel.

## Main statements

* `stocked_of_requests`: a value is stocked when its parts are.
* `stocksAt`: what is read is stocked.
-/

namespace JsonAdapters

open Json (Reader Writer)
open Outcome
open Registry (Later Moves Orderly)

/-- Writing the value wants no adapters but idle ones, with this registry and every later one. -/
def Stocked (P : Schema → CustomCodec → Prop) (r : Registry) (t : Ty) (v : Value) : Prop :=
  Wants P (fun u => Value.Idle r.schema u t (some v)) r t (some v)

variable {P : Schema → CustomCodec → Prop} {r r' : Registry} {id : AdapterId} {t : Ty} {v : Value}

theorem Stocked.later (h : Stocked P r t v) (hr : Later P r r') : Stocked P r' t v := by
  unfold Stocked
  rw [hr.keeps.schema]
  exact Wants.later h hr

/-! ## Values that are stocked -/

/-- A value is stocked when all that it requests is idle, or what is there to write was read with
the adapter that is requested. -/
theorem stocked_of_requests (h : ∀ q ∈ Value.requests r.schema t (some v),
    (∀ u, (u = q.1 ∨ ∃ w ∈ q.2, Value.Asks r.schema u q.1 w) →
      Value.Idle r.schema u t (some v)) ∨
    ∀ x, some x ∈ q.2 → r.Has q.1 ∧ Stocked P r q.1 x) : Stocked P r t v := by
  refine wants_of_requests fun q hq => ?_
  obtain hidle | hread := h q hq
  · refine ⟨.inl (hidle q.1 (.inl rfl)), fun w hw => (wants_asks P r q.1 w).mono fun u hu => ?_⟩
    exact hidle u (.inr ⟨w, hw, hu⟩)
  · constructor
    · by_cases hpresent : ∃ x, some x ∈ q.2
      · obtain ⟨x, hx⟩ := hpresent
        exact .inr (hread x hx).1
      · refine .inl (.unread hq fun w hw => Option.eq_none_iff_forall_ne_some.2 ?_)
        rintro x rfl
        exact hpresent ⟨x, hw⟩
    · intro w hw
      cases w with
      | none => exact (wants_asks P r q.1 none).mono fun u hu => .part hq hw (.absent hu)
      | some x => exact Wants.mono (hread x hw).2 fun u hu => .part hq hw hu

/-- A value is stocked when the parts were read of which its only request is. -/
theorem stocked_of_request {u : Ty} {ws : List (Option Value)}
    (h : Value.requests r.schema t (some v) = [(u, ws)])
    (hws : ∀ x, some x ∈ ws → r.Has u ∧ Stocked P r u x) : Stocked P r t v := by
  refine stocked_of_requests fun q hq => .inr ?_
  rw [h] at hq
  obtain rfl := List.mem_singleton.1 hq
  exact hws

/-- A value is stocked if it is written on no request. -/
theorem stocked_of_no_requests (h : Value.requests r.schema t (some v) = []) : Stocked P r t v := by
  refine stocked_of_requests fun q hq => ?_
  rw [h] at hq
  cases hq

/-- With an adapter that is not generated, nothing is asked for. -/
theorem stocked_of_custom {c : CustomCodec} (hm : r.Moves id (.custom c)) (ht : c.serves = t) :
    Stocked P r t v := by
  intro s k hs hk
  have hm' := hm.later hs
  obtain ⟨a, ha, hc⟩ := hm'
  have hserves : s.registry.serves id t = true := by
    refine Registry.serves_iff.2 ⟨a, ha, ?_⟩
    rw [hc]
    exact ht
  obtain rfl := hs.orderly.single.unique hserves hk
  rw [writeOption, writeValue.eq_def]
  exact .codec ⟨a, ha, hc⟩ (.of_onStream (.writer _) hs.orderly fun _ _ _ => trivial)

/-! ## Records -/

/-- Members that were noted down were read with adapters that are there, and are stocked. -/
def Registry.Noted (P : Schema → CustomCodec → Prop) (r : Registry) (q : Record)
    (values : Assignments) : Prop :=
  ∀ (i : Nat) (f : Field) (v : Value), q.fields[i]? = some f → values[i]? = some (some (some v)) →
    r.Has f.type ∧ Stocked P r f.type v

theorem Registry.Noted.later {q : Record} {values : Assignments} (h : r.Noted P q values)
    (hr : Later P r r') : r'.Noted P q values := by
  intro i f v hf hv
  obtain ⟨hhas, hstocked⟩ := h i f v hf hv
  exact ⟨hr.keeps.has hhas, hstocked.later hr⟩

theorem Registry.noted_unassigned (q : Record) : r.Noted P q q.unassigned := by
  intro i f v hf hv
  rw [Record.unassigned, List.getElem?_map, hf] at hv
  cases hv

/-- One more member is noted down. -/
theorem Registry.Noted.set {q : Record} {values : Assignments} {i : Nat} {f : Field}
    {o : Option Value} (h : r.Noted P q values) (hf : q.fields[i]? = some f)
    (ho : ∀ v, o = some v → r.Has f.type ∧ Stocked P r f.type v) :
    r.Noted P q (values.set i (some o)) := by
  intro k g v hg hv
  rw [List.getElem?_set] at hv
  split at hv
  · next hi =>
    subst hi
    cases hf.symm.trans hg
    split at hv
    · cases hv
      exact ho v rfl
    · cases hv
  · exact h k g v hg hv

/-- The first field has the value that was noted down for it, or the first default value. The other
fields are left with the other ones. -/
theorem Record.fieldValues_cons_eq_ok {q : Record} {g : Field} {fs : List Field}
    {a : Option (Option Value)} {values : Assignments} {ds : Option (List Value)}
    {vs : List Value} (h : q.fieldValues (g :: fs) (a :: values) ds = .ok (v :: vs)) :
    q.notedValue g a (ds.bind fun ds => ds[0]?) = .ok v ∧
      ∃ ds', q.fieldValues fs values ds' = .ok vs ∧
        ∀ k : Nat, (ds'.bind fun ds => ds[k]?) = ds.bind fun ds => ds[k + 1]? := by
  have hparts {x : Except AdapterError Value} {ds' : Option (List Value)}
      (h : (do
        let v ← x
        let vs ← q.fieldValues fs values ds'
        return v :: vs : Except AdapterError (List Value)) = .ok (v :: vs)) :
      x = .ok v ∧ q.fieldValues fs values ds' = .ok vs := by
    obtain ⟨w, hw, h⟩ := except_bind_eq_ok.1 h
    obtain ⟨ws, hws, h⟩ := except_bind_eq_ok.1 h
    cases h
    exact ⟨hw, hws⟩
  cases ds with
  | none =>
    obtain ⟨hv, hvs⟩ := hparts h
    exact ⟨hv, none, hvs, fun _ => rfl⟩
  | some ds =>
    cases ds with
    | nil =>
      rw [fieldValues] at h
      · cases h
      · rintro _ _ _ _ - - ⟨⟩
      · rintro _ _ _ _ _ _ - - ⟨⟩
    | cons d ds =>
      cases a with
      | none =>
        obtain ⟨hv, hvs⟩ := hparts (x := .ok d) h
        exact ⟨hv, some ds, hvs, fun _ => rfl⟩
      | some a =>
        obtain ⟨hv, hvs⟩ := hparts (x := q.ownValue g a) h
        exact ⟨hv, some ds, hvs, fun _ => rfl⟩

/-- Each field has the value that was noted down for it, or the default value. -/
theorem Record.fieldValues_eq_ok {q : Record} {fs : List Field} {values : Assignments}
    {ds : Option (List Value)} {vs : List Value} {i : Nat} {f : Field}
    (h : q.fieldValues fs values ds = .ok vs) (hf : fs[i]? = some f) (hv : vs[i]? = some v) :
    ∃ noted, values[i]? = some noted ∧ q.notedValue f noted (ds.bind fun ds => ds[i]?) = .ok v := by
  -- field by field, each with its note and its default
  induction fs generalizing values ds vs i with
  | nil => cases hf
  | cons g fs ih =>
    cases vs with
    | nil => cases hv
    | cons w vs =>
      cases values with
      | nil =>
        rw [fieldValues] at h
        · cases h
        · rintro _ _ _ _ - ⟨⟩
        · rintro _ _ _ _ _ _ - ⟨⟩
      | cons a values =>
        obtain ⟨hw, ds', hvs, hds⟩ := fieldValues_cons_eq_ok h
        cases i with
        | zero =>
          cases hf
          cases hv
          exact ⟨a, rfl, hw⟩
        | succ i =>
          obtain ⟨noted, hnoted, hvalue⟩ := ih hvs hf hv
          exact ⟨noted, hnoted, hds i ▸ hvalue⟩

/-- A field without default value has a value that was read, or may be nothing. -/
theorem Record.ownValue_eq_ok {q : Record} {f : Field} {o : Option Value}
    (h : q.ownValue f o = .ok v) : f.content v = o := by
  unfold Record.ownValue at h
  unfold Field.content
  cases o <;> cases hn : f.nullable <;> simp only [hn] at h <;> cases h <;> rfl

/-- A record that was put together of members that were noted down is stocked. -/
theorem stocked_record {q : Record} {values : Assignments} (hq : r.schema.find? q.id = some q)
    (hn : r.Noted P q values) (h : q.ofMembers values = .ok v) : Stocked P r (.record q.id) v := by
  obtain ⟨vs, hvs, h⟩ := except_bind_eq_ok.1 h
  cases h
  refine stocked_of_requests fun x hx => ?_
  obtain ⟨i, f, w, hf, hw, rfl⟩ := (Value.mem_requests_record hq).1 hx
  obtain ⟨noted, hnoted, hvalue⟩ := Record.fieldValues_eq_ok hvs hf hw
  -- what a field holds that has no default was read
  have hown {o : Option Value} (hvalue : q.ownValue f o = .ok w)
      (ho : ∀ y, o = some y → noted = some (some y)) (y : Value) (hy : some y ∈ [f.content w]) :
      r.Has f.type ∧ Stocked P r f.type y := by
    rw [Record.ownValue_eq_ok hvalue] at hy
    exact hn i f y hf (ho y (List.mem_singleton.1 hy).symm ▸ hnoted)
  unfold Record.notedValue at hvalue
  split at hvalue
  · refine .inr (hown hvalue fun y hy => ?_)
    exact (Option.join_eq_some_iff.1 hy)
  · next d hd =>
    cases noted with
    | some o => exact .inr (hown hvalue fun y hy => congrArg some hy)
    | none =>
      cases hvalue
      obtain ⟨ds, hds, hd⟩ := Option.bind_eq_some_iff.1 hd
      obtain ⟨d', hd', rfl⟩ := Option.map_eq_some_iff.1 hds
      refine .inl fun u hu => .kept hq hd' hf hd hw ?_
      obtain rfl | ⟨o, ho, hasks⟩ := hu
      · exact .inl rfl
      · obtain rfl := List.mem_singleton.1 ho
        exact .inr hasks

/-! ## Reading -/

/-- What is read, with this amount of fuel, is stocked when the reader is done. -/
structure StocksAt (P : Schema → CustomCodec → Prop) (fuel : Nat) : Prop where
  value {s : Session Reader} {id : AdapterId} {t : Ty} : s.registry.Orderly P →
    s.registry.serves id t = true → Seeks P (fun _ => True) (read fuel id) s fun o s' =>
      ∀ v, o = some v → Stocked P s'.registry t v
  items {s : Session Reader} {id : AdapterId} {c : Codec} {t : Ty} : s.registry.Orderly P →
    s.registry.Moves id c → t ∈ c.parts → Seeks P (fun _ => True) (readItems fuel id t) s
      fun vs s' => ∀ v ∈ vs, s'.registry.Has t ∧ Stocked P s'.registry t v
  entries {s : Session Reader} {id : AdapterId} {c : Codec} {t : Ty} {m : List (String × Value)} :
    s.registry.Orderly P → s.registry.Moves id c → t ∈ c.parts →
    (∀ e ∈ m, s.registry.Has t ∧ Stocked P s.registry t e.2) →
    Seeks P (fun _ => True) (readEntries fuel id t m) s fun es s' =>
      ∀ e ∈ es, s'.registry.Has t ∧ Stocked P s'.registry t e.2
  members {s : Session Reader} {id : AdapterId} {q : Record} {values : Assignments} :
    s.registry.Orderly P → s.registry.Moves id (.record q) → s.registry.Noted P q values →
    Seeks P (fun _ => True) (readMembers fuel id q values) s fun values s' =>
      s'.registry.Noted P q values
  member {s : Session Reader} {id : AdapterId} {q : Record} {name : String}
    {values : Assignments} : s.registry.Orderly P → s.registry.Moves id (.record q) →
    s.registry.Noted P q values → Seeks P (fun _ => True) (readMember fuel id q name values) s
      fun values s' => s'.registry.Noted P q values

namespace StocksAt

variable {s : Session Reader} {c : Codec} {fuel : Nat} {q : Record} {values : Assignments}

/-- A part is read by the adapter of the part, which is there from then on. -/
theorem part {β : Type} {f : Option Value → AdapterM Reader β} {post : β → Session Reader → Prop}
    (h : StocksAt P fuel) (hs : s.registry.Orderly P) (hm : s.registry.Moves id c)
    (ht : t ∈ c.parts) (hf : ∀ o s₁, Later P s.registry s₁.registry →
      (∀ v, o = some v → s₁.registry.Has t ∧ Stocked P s₁.registry t v) →
      Seeks P (fun _ => True) (f o) s₁ post) : Seeks P (fun _ => True)
    (onRegistry (Registry.part id t) >>= fun inner => JsonAdapters.read fuel inner >>= f) s
      post := by
  refine .part hs hm ht (.inl trivial) fun inner r hlater hserves => ?_
  refine (h.value (s := ⟨r, s.stream⟩) hlater.orderly hserves).bind fun o s₁ hlater' ho => ?_
  exact hf o s₁ (hlater.trans hlater') fun v hv =>
    ⟨⟨inner, hlater'.keeps.serves hserves⟩, ho v hv⟩

theorem readItems (h : StocksAt P fuel) (hs : s.registry.Orderly P) (hm : s.registry.Moves id c)
    (ht : t ∈ c.parts) : Seeks P (fun _ => True) (readItems (fuel + 1) id t) s
      fun vs s' => ∀ v ∈ vs, s'.registry.Has t ∧ Stocked P s'.registry t v := by
  rw [JsonAdapters.readItems]
  refine .step (.reader _) hs fun more stream _ => ?_
  cases more with
  | false => exact .pure hs (List.forall_mem_nil _)
  | true =>
    refine h.part (s := ⟨s.registry, stream⟩) hs hm ht fun o s₁ hlater ho => ?_
    cases o with
    | none => exact .throw_bind not_false hlater.orderly
    | some v =>
      obtain ⟨hhas, hstocked⟩ := ho v rfl
      refine (h.items hlater.orderly (hm.later hlater) ht).bind fun vs s₂ hlater' hvs => ?_
      refine .pure hlater'.orderly fun w hw => ?_
      obtain rfl | hw := List.mem_cons.1 hw
      · exact ⟨hlater'.keeps.has hhas, hstocked.later hlater'⟩
      · exact hvs w hw

theorem readEntries {m : List (String × Value)} (h : StocksAt P fuel) (hs : s.registry.Orderly P)
    (hm : s.registry.Moves id c) (ht : t ∈ c.parts)
    (hentries : ∀ e ∈ m, s.registry.Has t ∧ Stocked P s.registry t e.2) :
    Seeks P (fun _ => True) (readEntries (fuel + 1) id t m) s fun es s' =>
      ∀ e ∈ es, s'.registry.Has t ∧ Stocked P s'.registry t e.2 := by
  rw [JsonAdapters.readEntries]
  refine .step (.reader _) hs fun more stream _ => ?_
  cases more with
  | false => exact .pure hs hentries
  | true =>
    refine .step (.reader _) hs fun key stream' _ => ?_
    refine h.part (s := ⟨s.registry, stream'⟩) hs hm ht fun o s₁ hlater ho => ?_
    cases o with
    -- a value that is absent is no entry, and reading fails
    | none => exact .throw_bind not_false hlater.orderly
    | some v =>
      refine h.entries hlater.orderly (hm.later hlater) ht fun e he => ?_
      obtain rfl | he := Value.mem_putEntry he
      · exact ho v rfl
      · obtain ⟨hhas, hstocked⟩ := hentries e he
        exact ⟨hlater.keeps.has hhas, hstocked.later hlater⟩

theorem readMembers (h : StocksAt P fuel) (hs : s.registry.Orderly P)
    (hm : s.registry.Moves id (.record q)) (hn : s.registry.Noted P q values) :
    Seeks P (fun _ => True) (readMembers (fuel + 1) id q values) s fun values s' =>
      s'.registry.Noted P q values := by
  rw [JsonAdapters.readMembers]
  refine .step (.reader _) hs fun more stream _ => ?_
  cases more with
  | false => exact .pure hs hn
  | true =>
    refine .step (.reader _) hs fun name stream' _ => ?_
    refine (h.member (s := ⟨s.registry, stream'⟩) hs hm hn).bind fun values' s₁ hlater hn' => ?_
    exact h.members hlater.orderly (hm.later hlater) hn'

theorem readMember {name : String} (h : StocksAt P fuel) (hs : s.registry.Orderly P)
    (hm : s.registry.Moves id (.record q)) (hn : s.registry.Noted P q values) :
    Seeks P (fun _ => True) (readMember (fuel + 1) id q name values) s fun values s' =>
      s'.registry.Noted P q values := by
  rw [JsonAdapters.readMember]
  split
  · exact .step (.reader _) hs fun _ _ _ => .pure hs hn
  · refine .step .passNull hs fun null stream _ => ?_
    cases null with
    -- a `null` leaves the field as it is
    | true => exact .pure hs hn
    | false =>
      rw [if_neg Bool.false_ne_true]
      split
      · exact .step (.reader _) hs fun _ _ _ => .pure hs hn
      · split
        · exact .pure hs hn
        · next i f hf =>
          have hslot : f.type ∈ q.slots := Record.mem_slots.2 ⟨f, List.mem_of_getElem? hf, rfl⟩
          refine h.part (s := ⟨s.registry, stream⟩) (c := .record q) hs hm hslot
            fun o s₁ hlater ho => ?_
          exact .pure hlater.orderly ((hn.later hlater).set hf ho)

/-- What is read when there is no `null`. -/
theorem nullOr {o : Option Value} {x : AdapterM Reader (Option Value)}
    (hs : s.registry.Orderly P) (ho : ∀ v, o = some v → Stocked P s.registry t v)
    (hx : ∀ stream, Seeks P (fun _ => True) x ⟨s.registry, stream⟩ fun o s' =>
      ∀ v, o = some v → Stocked P s'.registry t v) :
    Seeks P (fun _ => True) (passNull >>= fun null => if null = true then pure o else x) s
      fun o s' => ∀ v, o = some v → Stocked P s'.registry t v := by
  refine .step .passNull hs fun null stream _ => ?_
  cases null with
  | true => exact .pure hs ho
  | false => exact hx stream

/-- What is read of an array or an object, between its brackets. -/
theorem enclosed {α β : Type} {enter leave : Json.ReadM Unit} {x : AdapterM Reader α}
    {f : α → AdapterM Reader β} {post : β → Session Reader → Prop} (inside : α → Registry → Prop)
    (hs : s.registry.Orderly P) (hx : ∀ stream, Seeks P (fun _ => True) x ⟨s.registry, stream⟩
      fun a s' => inside a s'.registry)
    (hf : ∀ a s', s'.registry.Orderly P → Later P s.registry s'.registry → inside a s'.registry →
      Seeks P (fun _ => True) (f a) s' post) :
    Seeks P (fun _ => True) (do onReader enter; let a ← x; onReader leave; f a) s post := by
  refine .step (.reader _) hs fun _ stream _ => (hx stream).bind fun a s₁ hlater ha => ?_
  refine .step (.reader _) hlater.orderly fun _ stream' _ => ?_
  exact hf a ⟨s₁.registry, stream'⟩ hlater.orderly hlater ha

/-- What is absent need not be stocked. -/
theorem absent {r : Registry} (v : Value) (hv : none = some v) : Stocked P r t v := by
  cases hv

/-- Nothing is written for a value that is nothing, and so nothing is requested. -/
theorem nothing {r : Registry} {u : Ty} (v : Value) (hv : some .nothing = some v) :
    Stocked P r (.option u) v := by
  cases hv
  exact stocked_of_no_requests rfl

/-! ### Kinds of adapters -/

section Kinds

variable {u : Ty}

theorem vec (h : StocksAt P fuel) (hs : s.registry.Orderly P) (hm : s.registry.Moves id (.vec u)) :
    Seeks P (fun _ => True) (do
      if ← passNull then return none
      onReader Reader.enterArray
      let items ← JsonAdapters.readItems fuel id u
      onReader Reader.leaveArray
      return some (Value.vec items)) s
    fun o s' => ∀ v, o = some v → Stocked P s'.registry (.vec u) v := by
  refine nullOr hs absent fun stream => ?_
  refine enclosed (s := ⟨s.registry, stream⟩) (fun vs r => ∀ v ∈ vs, r.Has u ∧ Stocked P r u v) hs
    (fun stream => h.items hs hm (List.mem_singleton.2 rfl)) fun vs s₁ hs₁ _ hvs => ?_
  refine .pure hs₁ fun v hv => ?_
  cases hv
  refine stocked_of_request rfl fun x hx => ?_
  obtain ⟨w, hw, ⟨⟩⟩ := List.mem_map.1 hx
  exact hvs x hw

/-- Maps of both kinds are read alike. -/
theorem map (ht : t = .hashMap u ∨ t = .treeMap u) (h : StocksAt P fuel)
    (hs : s.registry.Orderly P) (hm : s.registry.Moves id c) (hc : u ∈ c.parts) :
    Seeks P (fun _ => True) (do
      if ← passNull then return none
      onReader Reader.enterObject
      let entries ← JsonAdapters.readEntries fuel id u []
      onReader Reader.leaveObject
      return some (Value.map entries)) s
    fun o s' => ∀ v, o = some v → Stocked P s'.registry t v := by
  refine nullOr hs absent fun stream => ?_
  refine enclosed (s := ⟨s.registry, stream⟩) (fun es r => ∀ e ∈ es, r.Has u ∧ Stocked P r u e.2)
    hs (fun stream => h.entries (s := ⟨s.registry, stream⟩) hs hm hc (List.forall_mem_nil _))
      fun es s₁ hs₁ _ hes => ?_
  refine .pure hs₁ fun v hv => ?_
  cases hv
  -- every value of the map came from an entry
  have hparts : ∀ x, some x ∈ es.map (fun e => some e.2) →
      s₁.registry.Has u ∧ Stocked P s₁.registry u x := by
    intro x hx
    obtain ⟨e, he, ⟨⟩⟩ := List.mem_map.1 hx
    exact hes e he
  obtain rfl | rfl := ht
  all_goals exact stocked_of_request rfl hparts

theorem option (h : StocksAt P fuel) (hs : s.registry.Orderly P)
    (hm : s.registry.Moves id (.option u)) :
    Seeks P (fun _ => True) (do
      if ← passNull then return some Value.nothing
      let inner ← onRegistry (Registry.part id u)
      match ← JsonAdapters.read fuel inner with
      | some v => return some (Value.just v)
      | none => return some Value.nothing) s
    fun o s' => ∀ v, o = some v → Stocked P s'.registry (.option u) v := by
  refine nullOr hs nothing fun stream => ?_
  refine h.part (s := ⟨s.registry, stream⟩) hs hm (List.mem_singleton.2 rfl)
    fun o s₁ hlater ho => ?_
  cases o with
  | none => exact .pure hlater.orderly nothing
  | some w =>
    refine .pure hlater.orderly fun v hv => ?_
    cases hv
    exact stocked_of_request rfl fun x hx => ho x (List.mem_singleton.1 hx).symm

theorem record (h : StocksAt P fuel) (hs : s.registry.Orderly P)
    (hm : s.registry.Moves id (.record q)) :
    Seeks P (fun _ => True) (do
      if ← passNull then return none
      onReader Reader.enterObject
      let values ← JsonAdapters.readMembers fuel id q q.unassigned
      onReader Reader.leaveObject
      match q.ofMembers values with
      | .ok v => return some v
      | .error e => AdapterM.fail e) s
    fun o s' => ∀ v, o = some v → Stocked P s'.registry (.record q.id) v := by
  refine nullOr hs absent fun stream => ?_
  refine enclosed (s := ⟨s.registry, stream⟩) (fun values r => r.Noted P q values) hs
    (fun stream => h.members hs hm (Registry.noted_unassigned q)) fun values s₁ hs₁ hlater hn => ?_
  cases hv : q.ofMembers values with
  | error e =>
    obtain ⟨f, -, rfl⟩ := Record.ofMembers_error hv
    exact .throw not_false hs₁
  | ok v =>
    refine .pure hs₁ fun w hw => ?_
    cases hw
    -- the record is still the one of the schema
    have hfits : s.registry.schema.find? q.id = some q := hm.fits hs.valid
    exact stocked_record (hlater.keeps.schema ▸ hfits) hn hv

end Kinds

theorem read (h : StocksAt P fuel) (hs : s.registry.Orderly P)
    (hserves : s.registry.serves id t = true) :
    Seeks P (fun _ => True) (read (fuel + 1) id) s fun o s' =>
      ∀ v, o = some v → Stocked P s'.registry t v := by
  obtain ⟨c, hm, rfl⟩ := Registry.exists_moves hserves
  rw [JsonAdapters.read]
  refine .codec hm ?_
  cases c with
  | scalar c => exact .of_onStream (.readScalar c) hs fun _ _ _ v _ => stocked_of_no_requests rfl
  | custom c =>
    exact .of_onStream (.reader c.read) hs fun _ _ _ v _ => stocked_of_custom hm rfl
  | vec u => exact h.vec hs hm
  | hashMap u => exact h.map (.inl rfl) hs hm (List.mem_singleton.2 rfl)
  | treeMap u => exact h.map (.inr rfl) hs hm (List.mem_singleton.2 rfl)
  | option u => exact h.option hs hm
  | box u =>
    refine h.part hs hm (List.mem_singleton.2 rfl) fun o s₁ hlater ho => ?_
    refine .pure hlater.orderly fun v hv => ?_
    obtain ⟨w, rfl, rfl⟩ := Option.map_eq_some_iff.1 hv
    exact stocked_of_request rfl fun x hx => ho x (List.mem_singleton.1 hx).symm
  | record q => exact h.record hs hm

theorem zero : StocksAt P 0 := by
  constructor
  · intro s id t hs _
    rw [JsonAdapters.read]
    exact .throw not_false hs
  · intro s id c t hs _ _
    rw [JsonAdapters.readItems]
    exact .throw not_false hs
  · intro s id c t m hs _ _ _
    rw [JsonAdapters.readEntries]
    exact .throw not_false hs
  · intro s id q values hs _ _
    rw [JsonAdapters.readMembers]
    exact .throw not_false hs
  · intro s id q name values hs _ _
    rw [JsonAdapters.readMember]
    exact .throw not_false hs

end StocksAt

/-- What is read is stocked. -/
theorem stocksAt (fuel : Nat) : StocksAt P fuel := by
  induction fuel with
  | zero => exact .zero
  | succ fuel ih =>
    exact ⟨ih.read, ih.readItems, ih.readEntries, ih.readMembers, ih.readMember⟩

end JsonAdapters
