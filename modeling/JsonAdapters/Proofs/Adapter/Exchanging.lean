import JsonAdapters.Proofs.Adapter.Finding
import JsonAdapters.Proofs.Adapter.Restoring
import JsonAdapters.Proofs.Adapter.Wanting
import JsonAdapters.Proofs.Adapter.Writing

/-!
# What writing leaves for reading

An adapter that writes a value asks for the adapters of all parts that it writes. They stay, and so
the text is read without a further one. The induction follows what is written on request.

## Main definitions

* `Schema.Lawful`: adapters that are not generated move one value at a time.
* `Exchanges`: what is written can be read with what the registry has then.

## Main statements

* `exchanges_of_requests`: one adapter at work, from what it writes with others.
* `exchanges`: every value of a type.
-/

namespace JsonAdapters

open Json (Reader Tree Writer)
open Json.Writer (AtValue BeforeItem BeforeName WroteItems WroteMembers WroteText)
open Outcome
open Registry (Later Moves Orderly)

/-- Adapters that are not generated, as far as the type needs them, read and write one value. -/
def Schema.Lawful (S : Schema) (P : Schema → CustomCodec → Prop) (t : Ty) : Prop :=
  ∀ c, P S c → S.Needs t c.serves → c.ReadsLawfully ∧ c.WritesLawfully S

/-- With every later registry, the adapter for `t` writes the value, or the absent one, so that its
tree can be read with what the registry has then. -/
def Exchanges (P : Schema → CustomCodec → Prop) (r : Registry) (t : Ty) (v : Option Value) : Prop :=
  ∀ (s : Session Writer) (id : AdapterId), Later P r s.registry →
    s.registry.serves id t = true → AtValue s.stream →
    Seeks P (fun _ => True) (writeOption t v id) s fun _ s' =>
      ∃ z, WroteText z s.stream s'.stream ∧ Readable P s'.registry t z.1

variable {P : Schema → CustomCodec → Prop} {r : Registry} {S : Schema} {t u : Ty}
  {v w : Option Value} {q : Ty × List (Option Value)}

theorem Schema.Lawful.part (h : S.Lawful P t) (hu : u ∈ t.parts S) : S.Lawful P u :=
  fun c hc hn => h c hc ((Schema.Needs.part .self hu).trans hn)

namespace Value

/-- What is requested are parts of the type. -/
theorem type_of_mem_requests (hq : q ∈ requests S t v) : q.1 ∈ t.parts S := by
  unfold requests at hq
  split at hq
  case h_7 id vs skipped =>
    split at hq
    · next q' hfind =>
      obtain ⟨⟨f, x⟩, hmem, rfl⟩ := List.mem_map.1 hq
      exact Ty.mem_parts_record hfind (List.of_mem_zip hmem).1
    · cases hq
  case h_8 => cases hq
  all_goals
    obtain rfl := List.mem_singleton.1 hq
    exact List.mem_singleton.2 rfl

/-- What a field has to write is of its type. -/
theorem hasType_content {f : Field} {x y : Value} (h : x.HasType S f.declared)
    (hy : f.content x = some y) : y.HasType S f.type := by
  unfold Field.content at hy
  cases hnullable : f.nullable with
  | false =>
    rw [hnullable] at hy
    rw [Field.declared_eq_type hnullable] at h
    cases hy
    exact h
  | true =>
    rw [hnullable] at hy
    rw [Field.declared_eq_option hnullable] at h
    cases x <;> cases hy
    exact h

/-- What is written on request has the type that is requested. -/
theorem hasType_of_mem_requests (h : ∀ x, v = some x → x.HasType S t) (hq : q ∈ requests S t v)
    (hw : w ∈ q.2) : ∀ x, w = some x → x.HasType S q.1 := by
  rintro x rfl
  unfold requests at hq
  split at hq
  case h_1 =>
    obtain rfl := List.mem_singleton.1 hq
    cases List.mem_singleton.1 hw
  case h_2 | h_3 =>
    obtain rfl := List.mem_singleton.1 hq
    cases List.mem_singleton.1 hw
    exact h _ rfl
  case h_4 vs =>
    obtain rfl := List.mem_singleton.1 hq
    obtain ⟨y, hy, ⟨⟩⟩ := List.mem_map.1 hw
    exact HaveType.of_mem (h _ rfl) hy
  case h_5 es | h_6 es =>
    obtain rfl := List.mem_singleton.1 hq
    obtain ⟨e, he, ⟨⟩⟩ := List.mem_map.1 hw
    exact EntriesHaveType.of_mem (h _ rfl).1 he
  -- a record asks for the content of each field, which has the type of the field
  case h_7 id vs skipped =>
    obtain ⟨r, hfind, hfields⟩ := h _ rfl
    rw [hfind] at hq
    obtain ⟨⟨f, y⟩, hmem, rfl⟩ := List.mem_map.1 hq
    obtain ⟨i, hi⟩ := List.mem_iff_getElem?.1 hmem
    obtain ⟨hf, hy⟩ := List.getElem?_zip_eq_some.1 hi
    exact hasType_content (hfields.get hy hf) (List.mem_singleton.1 hw).symm
  case h_8 => cases hq

end Value

/-- A later registry can read a tree with what it has when that holds of the parts of the tree. -/
theorem Schema.Lawful.readable_of_parts {r' : Registry} {j : Tree} (h : r.schema.Lawful P t)
    (hr : Later P r r') (hparts : ∀ x ∈ j.parts r.schema t, r'.Has x.1 ∧ Readable P r' x.1 x.2) :
    Readable P r' t j := by
  rw [← hr.keeps.schema] at hparts h
  exact JsonAdapters.readable_of_parts (fun c hc ht => (h c hc (ht ▸ .self)).1) hparts

namespace Exchanges

variable {s : Session Writer} {id : AdapterId} {c : Codec} {vs : List Value}
  {es : List (String × Value)} {fs : List Field}

/-- The rest of an array. -/
theorem writeItems (h : ∀ v ∈ vs, Exchanges P r t (some v)) (hs : Later P r s.registry)
    (hserves : s.registry.serves id t = true) (hb : BeforeItem s.stream) :
    Seeks P (fun _ => True) (writeItems vs id) s fun _ s' =>
      ∃ z, WroteItems z s.stream s'.stream ∧ ∀ j ∈ z.1, Readable P s'.registry t j := by
  induction vs generalizing s with
  | nil => exact .pure hs.orderly ⟨_, .nil s.stream, List.forall_mem_nil _⟩
  | cons v vs ih =>
    rw [JsonAdapters.writeItems]
    have hitem := h v List.mem_cons_self s id hs hserves hb.atValue
    refine hitem.bind fun _ s₁ hlater hwrote => ?_
    obtain ⟨z, hz, hj⟩ := hwrote
    obtain ⟨hb₁, -⟩ := hz.beforeItem hb
    refine (ih (fun w hw => h w (.tail v hw)) (hs.trans hlater) (hlater.keeps.serves hserves)
      hb₁).mono (fun _ h => h) fun _ s₂ hlater' hrest => ?_
    obtain ⟨zs, hzs, hjs⟩ := hrest
    refine ⟨_, .cons hb hz hzs, fun k hk => ?_⟩
    obtain rfl | hk := List.mem_cons.1 hk
    · exact hj.later hlater'
    · exact hjs k hk

/-- The rest of an object, written as a map. -/
theorem writeEntries (h : ∀ e ∈ es, Exchanges P r t (some e.2)) (hs : Later P r s.registry)
    (hserves : s.registry.serves id t = true) (hb : BeforeName s.stream) :
    Seeks P (fun _ => True) (writeEntries es id) s fun _ s' =>
      ∃ z, WroteMembers z s.stream s'.stream ∧ ∀ m ∈ z.1, Readable P s'.registry t m.2 := by
  -- entry by entry; what was written before stays readable in later registries
  induction es generalizing s with
  | nil => exact .pure hs.orderly ⟨_, .nil s.stream, List.forall_mem_nil _⟩
  | cons e es ih =>
    obtain ⟨key, v⟩ := e
    rw [JsonAdapters.writeEntries]
    refine .writer hs.orderly fun _ stream hname => ?_
    have hname := (Json.Writer.name_ends key hb).ok hname
    have hvalue := h (key, v) List.mem_cons_self ⟨s.registry, stream⟩ id hs hserves
      (Json.Writer.atValue_of_memberValue hname.due)
    refine hvalue.bind fun _ s₁ hlater hwrote => ?_
    obtain ⟨z, hz, hj⟩ := hwrote
    obtain ⟨hb₁, -⟩ := WroteText.beforeName hb hname hz
    refine (ih (fun e he => h e (.tail _ he)) (hs.trans hlater) (hlater.keeps.serves hserves)
      hb₁).mono (fun _ h => h) fun _ s₂ hlater' hrest => ?_
    obtain ⟨zs, hzs, hms⟩ := hrest
    refine ⟨_, .cons hb hname hz hzs, fun m hm => ?_⟩
    obtain rfl | hm := List.mem_cons.1 hm
    · exact hj.later hlater'
    · exact hms m hm

/-- The rest of an object, written as fields of a record. Each member has the key of a field, and
can be read as the field. -/
theorem writeFields {q : Record} (h : ∀ x ∈ fs.zip vs, Exchanges P r x.1.type (x.1.content x.2))
    (hslots : ∀ f ∈ fs, f.type ∈ q.slots) (hs : Later P r s.registry)
    (hm : s.registry.Moves id (.record q)) (hb : BeforeName s.stream) :
    Seeks P (fun _ => True) (writeFields vs fs id) s fun _ s' =>
      ∃ z, WroteMembers z s.stream s'.stream ∧ ∀ m ∈ z.1, ∃ f ∈ fs, m.1 = f.key ∧
        s'.registry.Has f.type ∧ Readable P s'.registry f.type m.2 := by
  induction vs generalizing fs s with
  | nil =>
    rw [JsonAdapters.writeFields]
    · exact .pure hs.orderly ⟨_, .nil s.stream, List.forall_mem_nil _⟩
    · rintro _ _ _ _ ⟨⟩
  | cons v vs ih =>
    cases fs with
    | nil =>
      rw [JsonAdapters.writeFields]
      · exact .pure hs.orderly ⟨_, .nil s.stream, List.forall_mem_nil _⟩
      · rintro _ _ _ _ - ⟨⟩
    | cons f fs =>
      rw [JsonAdapters.writeFields]
      refine .writer hs.orderly fun _ stream hname => ?_
      have hname := (Json.Writer.name_ends f.key hb).ok hname
      refine .part (c := .record q) hs.orderly hm (hslots f List.mem_cons_self) (.inl trivial)
        fun inner r₁ hlater hserves => ?_
      have hcontent := h (f, v) List.mem_cons_self ⟨r₁, stream⟩ inner (hs.trans hlater) hserves
        (Json.Writer.atValue_of_memberValue hname.due)
      refine .field hlater.orderly hcontent fun s₂ hlater' hwrote => ?_
      obtain ⟨z, hz, hj⟩ := hwrote
      obtain ⟨hb₂, -⟩ := WroteText.beforeName hb hname hz
      -- asking for the adapter and writing with it both change the registry
      have hlater₂ : Later P s.registry s₂.registry := hlater.trans hlater'
      refine (ih (fun x hx => h x (.tail _ hx)) (fun g hg => hslots g (.tail f hg))
        (hs.trans hlater₂) (hm.later hlater₂) hb₂).mono (fun _ h => h)
          fun _ s₃ hlater₃ hrest => ?_
      obtain ⟨zs, hzs, hms⟩ := hrest
      refine ⟨_, .cons hb hname hz hzs, fun m hm => ?_⟩
      obtain rfl | hm := List.mem_cons.1 hm
      · have hinner : s₂.registry.serves inner f.type = true := hlater'.keeps.serves hserves
        exact ⟨f, List.mem_cons_self, rfl, hlater₃.keeps.has ⟨inner, hinner⟩, hj.later hlater₃⟩
      · obtain ⟨g, hg, hmember⟩ := hms m hm
        exact ⟨g, .tail f hg, hmember⟩

/-- An array is entered, its items are written, and it is left. -/
theorem array {body : AdapterM Writer Unit} (hs : s.registry.Orderly P) (hw : AtValue s.stream)
    (hbody : ∀ stream, BeforeItem stream → Seeks P (fun _ => True) body ⟨s.registry, stream⟩
      fun _ s' => ∃ z, WroteItems z stream s'.stream ∧ Readable P s'.registry t (.array z.1)) :
    Seeks P (fun _ => True) (do onWriter Writer.enterArray; body; onWriter Writer.leaveArray) s
      fun _ s' => ∃ z, WroteText z s.stream s'.stream ∧ Readable P s'.registry t z.1 := by
  refine .writer hs fun _ stream henter => ?_
  have henter := (Json.Writer.enter_ends .array "[" hw).ok henter
  refine (hbody stream henter.beforeItem).bind fun _ s₁ hlater ⟨z, hz, hj⟩ => ?_
  refine .of_onStream (.writer _) hlater.orderly fun _ stream' hleave => ?_
  exact ⟨_, (Json.Writer.leaveArray_wrote henter hz).ok (ok_of_onWriter hleave), hj⟩

/-- An object is entered, its members are written, and it is left. -/
theorem object {body : AdapterM Writer Unit} (hs : s.registry.Orderly P) (hw : AtValue s.stream)
    (hbody : ∀ stream, BeforeName stream → Seeks P (fun _ => True) body ⟨s.registry, stream⟩
      fun _ s' => ∃ z, WroteMembers z stream s'.stream ∧ Readable P s'.registry t (.object z.1)) :
    Seeks P (fun _ => True) (do onWriter Writer.enterObject; body; onWriter Writer.leaveObject) s
      fun _ s' => ∃ z, WroteText z s.stream s'.stream ∧ Readable P s'.registry t z.1 := by
  refine .writer hs fun _ stream henter => ?_
  have henter := (Json.Writer.enter_ends .object "\x7b" hw).ok henter
  refine (hbody stream henter.beforeName).bind fun _ s₁ hlater ⟨z, hz, hj⟩ => ?_
  refine .of_onStream (.writer _) hlater.orderly fun _ stream' hleave => ?_
  exact ⟨_, (Json.Writer.leaveObject_wrote henter hz).ok (ok_of_onWriter hleave), hj⟩

/-- Where a type has no value in a box, what is written as `null` is read without any part. -/
theorem null (hlawful : r.schema.Lawful P t) (hs : Later P r s.registry) (hw : AtValue s.stream)
    (ht : ∀ u, t ≠ .box u) : Seeks P (fun _ => True) (onWriter Writer.null) s fun _ s' =>
      ∃ z, WroteText z s.stream s'.stream ∧ Readable P s'.registry t z.1 := by
  refine .of_onStream (.writer _) hs.orderly fun _ stream hrun => ?_
  refine ⟨_, (Json.Writer.null_ends hw).ok (ok_of_onWriter hrun), ?_⟩
  refine hlawful.readable_of_parts (j := .null) hs fun x hx => ?_
  rw [Tree.parts_null ht] at hx
  cases hx

/-- What is written by the adapter of a part. -/
theorem part (hlawful : r.schema.Lawful P t) (h : Exchanges P r u w) (hs : Later P r s.registry)
    (hm : s.registry.Moves id c) (hu : u ∈ c.parts) (hw : AtValue s.stream)
    (hparts : ∀ j : Tree, ∀ x ∈ j.parts r.schema t, x = (u, j)) :
    Seeks P (fun _ => True) (onRegistry (Registry.part id u) >>= writeOption u w) s
      fun _ s' => ∃ z, WroteText z s.stream s'.stream ∧ Readable P s'.registry t z.1 := by
  refine .part hs.orderly hm hu (.inl trivial) fun inner r₁ hlater hserves => ?_
  have hr₁ := hs.trans hlater
  refine (h ⟨r₁, s.stream⟩ inner hr₁ hserves hw).mono (fun _ h => h) fun _ s' hlater' hwrote => ?_
  obtain ⟨z, hz, hj⟩ := hwrote
  refine ⟨z, hz, hlawful.readable_of_parts (hr₁.trans hlater') fun x hx => ?_⟩
  obtain rfl := hparts z.1 x hx
  exact ⟨⟨inner, hlater'.keeps.serves hserves⟩, hj⟩

/-- A vector is written with the adapter of its items. -/
theorem vec (hlawful : r.schema.Lawful P (.vec u)) (h : ∀ v ∈ vs, Exchanges P r u (some v))
    (hs : Later P r s.registry) (hm : s.registry.Moves id (.vec u)) (hw : AtValue s.stream) :
    Seeks P (fun _ => True) (do
      let inner ← onRegistry (Registry.part id u)
      onWriter Writer.enterArray
      JsonAdapters.writeItems vs inner
      onWriter Writer.leaveArray) s
    fun _ s' => ∃ z, WroteText z s.stream s'.stream ∧ Readable P s'.registry (.vec u) z.1 := by
  refine .part hs.orderly hm (List.mem_singleton.2 rfl) (.inl trivial)
    fun inner r₁ hlater hserves => ?_
  have hr₁ := hs.trans hlater
  refine array (s := ⟨r₁, s.stream⟩) hr₁.orderly hw fun stream hb => ?_
  refine (writeItems (s := ⟨r₁, stream⟩) h hr₁ hserves hb).mono (fun _ h => h)
    fun _ s' hlater' hwrote => ?_
  obtain ⟨z, hz, hjs⟩ := hwrote
  refine ⟨z, hz, hlawful.readable_of_parts (hr₁.trans hlater') ?_⟩
  exact List.forall_mem_map.2 fun k hk => ⟨⟨inner, hlater'.keeps.serves hserves⟩, hjs k hk⟩

/-- A map of either kind is written with the adapter of its values. -/
theorem map (ht : t = .hashMap u ∨ t = .treeMap u) (hlawful : r.schema.Lawful P t)
    (h : ∀ e ∈ es, Exchanges P r u (some e.2)) (hs : Later P r s.registry)
    (hm : s.registry.Moves id c) (hc : u ∈ c.parts) (hw : AtValue s.stream) :
    Seeks P (fun _ => True) (do
      let inner ← onRegistry (Registry.part id u)
      onWriter Writer.enterObject
      JsonAdapters.writeEntries es inner
      onWriter Writer.leaveObject) s
    fun _ s' => ∃ z, WroteText z s.stream s'.stream ∧ Readable P s'.registry t z.1 := by
  refine .part hs.orderly hm hc (.inl trivial) fun inner r₁ hlater hserves => ?_
  have hr₁ := hs.trans hlater
  refine object (s := ⟨r₁, s.stream⟩) hr₁.orderly hw fun stream hb => ?_
  refine (writeEntries (s := ⟨r₁, stream⟩) h hr₁ hserves hb).mono (fun _ h => h)
    fun _ s' hlater' hwrote => ?_
  obtain ⟨z, hz, hms⟩ := hwrote
  refine ⟨z, hz, hlawful.readable_of_parts (hr₁.trans hlater') ?_⟩
  obtain rfl | rfl := ht
  all_goals
    exact List.forall_mem_map.2 fun m hm => ⟨⟨inner, hlater'.keeps.serves hserves⟩, hms m hm⟩

/-- A record is written with the adapters of its fields. Under the key of a field, its member is
found again. -/
theorem record {q : Record} {vs : List Value} (hkeys : r.schema.KeysDistinct)
    (hfind : r.schema.find? q.id = some q) (hlawful : r.schema.Lawful P (.record q.id))
    (h : ∀ x ∈ q.fields.zip vs, Exchanges P r x.1.type (x.1.content x.2))
    (hs : Later P r s.registry) (hm : s.registry.Moves id (.record q)) (hw : AtValue s.stream) :
    Seeks P (fun _ => True) (do
      onWriter Writer.enterObject
      JsonAdapters.writeFields vs q.fields id
      onWriter Writer.leaveObject) s
    fun _ s' => ∃ z, WroteText z s.stream s'.stream ∧
      Readable P s'.registry (.record q.id) z.1 := by
  refine object hs.orderly hw fun stream hb => ?_
  have hfields := writeFields (s := ⟨s.registry, stream⟩) h
    (fun f hf => Record.mem_slots.2 ⟨f, hf, rfl⟩) hs hm hb
  refine hfields.mono (fun _ h => h) fun _ s' hlater hwrote => ?_
  obtain ⟨z, hz, hms⟩ := hwrote
  refine ⟨z, hz, hlawful.readable_of_parts (hs.trans hlater) ?_⟩
  refine (Tree.forall_mem_parts_record hfind).2 fun m hm x hx => ?_
  obtain ⟨f, hf, hkey, hhas, hj⟩ := hms m hm
  obtain ⟨i, hi⟩ := List.mem_iff_getElem?.1 hf
  -- keys are distinct, so the member counts for the field that wrote it
  rw [Record.counted?, hkey, Record.target?_key (hkeys q.id q hfind) hi] at hx
  split at hx
  · cases hx
  · cases hx
    exact ⟨hhas, hj⟩

/-- Another adapter writes a value, and will read it. -/
theorem custom {c : CustomCodec} (hS : r.schema = S) (hlawful : S.Lawful P t)
    (htype : ∀ x, v = some x → x.HasType S t) (hs : Later P r s.registry)
    (hm : s.registry.Moves id (.custom c)) (hc : c.serves = t) (hw : AtValue s.stream) :
    Seeks P (fun _ => True) (onWriter (c.write v)) s fun _ s' =>
      ∃ z, WroteText z s.stream s'.stream ∧ Readable P s'.registry t z.1 := by
  subst hc hS
  have hfits := hm.fits hs.orderly.valid
  rw [hs.keeps.schema] at hfits
  obtain ⟨hreads, hwrites⟩ := hlawful c hfits .self
  refine .of_onStream (.writer _) hs.orderly fun _ stream hrun => ?_
  obtain ⟨j, text, hj⟩ := (hwrites v htype s.stream hw).ok (ok_of_onWriter hrun)
  exact ⟨(j, text), hj, readable_of_custom hreads hm rfl⟩

/-- A scalar is written without any part. -/
theorem scalar {c : Scalar} {v : Value} (hlawful : r.schema.Lawful P (.scalar c))
    (htype : v.HasType r.schema (.scalar c)) (hs : Later P r s.registry) (hw : AtValue s.stream) :
    Seeks P (fun _ => True) (c.writeValue v) s fun _ s' =>
      ∃ z, WroteText z s.stream s'.stream ∧ Readable P s'.registry (.scalar c) z.1 := by
  rw [← hs.keeps.schema] at htype
  refine .of_onStream (.writeScalar c v) hs.orderly fun _ stream hrun => ?_
  obtain ⟨z, hz, -⟩ :=
    ((c.writeValue_ends (T := .scalar c) v hs.orderly.valid htype hw).ok hrun).wrote
  exact ⟨z, hz, hlawful.readable_of_parts hs (List.forall_mem_nil _)⟩

end Exchanges

section Requests

variable {s : Session Writer} {id : AdapterId}

/-- An absent value is written as `null`, unless the adapter is that of a box, or another one. -/
theorem exchanges_of_requests_none (hlawful : r.schema.Lawful P t)
    (h : ∀ q ∈ Value.requests r.schema t none, ∀ w ∈ q.2, Exchanges P r q.1 w)
    (hs : Later P r s.registry) (hserves : s.registry.serves id t = true) (hw : AtValue s.stream) :
    Seeks P (fun _ => True) (writeAbsent t id) s fun _ s' =>
      ∃ z, WroteText z s.stream s'.stream ∧ Readable P s'.registry t z.1 := by
  obtain ⟨c, hm, hc⟩ := Registry.exists_moves hserves
  unfold writeAbsent
  refine .codec hm ?_
  cases c with
  | custom c => exact Exchanges.custom rfl hlawful (fun x hx => by cases hx) hs hm hc hw
  | box u =>
    subst hc
    have hwhole := h _ (List.mem_singleton.2 rfl) none (List.mem_singleton.2 rfl)
    exact Exchanges.part hlawful hwhole hs hm (List.mem_singleton.2 rfl) hw
      fun j x hx => List.mem_singleton.1 hx
  | _ => exact Exchanges.null hlawful hs hw fun u hu => by cases hc.trans hu

/-- There is one case for each kind of adapter, with the values of its form. Other values are
misused. -/
theorem exchanges_of_requests_some {v : Value} (hkeys : r.schema.KeysDistinct)
    (hlawful : r.schema.Lawful P t) (htype : v.HasType r.schema t)
    (h : ∀ q ∈ Value.requests r.schema t (some v), ∀ w ∈ q.2, Exchanges P r q.1 w)
    (hs : Later P r s.registry) (hserves : s.registry.serves id t = true) (hw : AtValue s.stream) :
    Seeks P (fun _ => True) (writeValue v id) s fun _ s' =>
      ∃ z, WroteText z s.stream s'.stream ∧ Readable P s'.registry t z.1 := by
  obtain ⟨c, hm, hc⟩ := Registry.exists_moves hserves
  rw [writeValue.eq_def]
  refine .codec hm ?_
  subst hc
  cases c with
  | custom c =>
    exact Exchanges.custom rfl hlawful (by rintro _ ⟨⟩; exact htype) hs hm rfl hw
  | scalar c => exact Exchanges.scalar hlawful htype hs hw
  | vec u =>
    cases v with
    | vec vs =>
      exact Exchanges.vec hlawful
        (fun v hv => h _ (List.mem_singleton.2 rfl) _ (List.mem_map_of_mem hv)) hs hm hw
    | _ => exact .throw not_false hs.orderly
  | hashMap u | treeMap u =>
    cases v with
    | map es =>
      refine Exchanges.map (u := u) ?_ hlawful
        (fun e he => h _ (List.mem_singleton.2 rfl) _ (List.mem_map.2 ⟨e, he, rfl⟩)) hs hm
        (List.mem_singleton.2 rfl) hw
      simp [Codec.serves]
    | _ => exact .throw not_false hs.orderly
  | option u =>
    cases v with
    | just w =>
      refine Exchanges.part hlawful (h _ (List.mem_singleton.2 rfl) _ (List.mem_singleton.2 rfl))
        hs hm (List.mem_singleton.2 rfl) hw fun j x hx => ?_
      -- a tree that is not `null` has itself as its only part
      rw [Codec.serves, Tree.parts] at hx
      split at hx
      · cases hx
      · exact List.mem_singleton.1 hx
    | nothing => exact Exchanges.null hlawful hs hw fun u hu => by cases hu
    | _ => exact .throw not_false hs.orderly
  | box u =>
    cases v with
    | box w =>
      exact Exchanges.part hlawful (h _ (List.mem_singleton.2 rfl) _ (List.mem_singleton.2 rfl))
        hs hm (List.mem_singleton.2 rfl) hw fun j x hx => List.mem_singleton.1 hx
    | _ => exact .throw not_false hs.orderly
  | record q =>
    cases v with
    | record vs skipped =>
      have hfind : r.schema.find? q.id = some q := hs.keeps.schema ▸ hm.fits hs.orderly.valid
      refine Exchanges.record hkeys hfind hlawful (fun x hx => ?_) hs hm hw
      exact h _ (Value.field_mem_requests hfind hx) _ (List.mem_singleton.2 rfl)
    | _ => exact .throw not_false hs.orderly

end Requests

/-- What is written can be read when that holds of what is written on request. -/
theorem exchanges_of_requests (hkeys : r.schema.KeysDistinct) (hlawful : r.schema.Lawful P t)
    (htype : ∀ x, v = some x → x.HasType r.schema t)
    (h : ∀ q ∈ Value.requests r.schema t v, ∀ w ∈ q.2, Exchanges P r q.1 w) :
    Exchanges P r t v := by
  intro s id hs hserves hw
  cases v with
  | none => exact exchanges_of_requests_none hlawful h hs hserves hw
  | some v => exact exchanges_of_requests_some hkeys hlawful (htype v rfl) h hs hserves hw

/-- Every value of a type, and the absent one, can be read when it was written. -/
theorem exchanges (hkeys : r.schema.KeysDistinct) (hlawful : r.schema.Lawful P t)
    (htype : ∀ x, v = some x → x.HasType r.schema t) : Exchanges P r t v := by
  refine Value.requests_induction (S := r.schema) (motive := fun t v => r.schema.Lawful P t →
    (∀ x, v = some x → x.HasType r.schema t) → Exchanges P r t v) ?_ t v hlawful htype
  intro t v ih hlawful htype
  refine exchanges_of_requests hkeys hlawful htype fun q hq w hw => ?_
  exact ih q hq w hw (hlawful.part (Value.type_of_mem_requests hq))
    (Value.hasType_of_mem_requests htype hq hw)

end JsonAdapters
