import JsonAdapters.Proofs.Adapter.Reading
import JsonAdapters.Proofs.Adapter.Seeking
import JsonAdapters.Proofs.Json.Facing

/-!
# Reading with the adapters that are there

A reader that faces the text of a tree asks for the adapters of the parts of this tree, and for no
others. When a registry has all of them, and with each of them the part can be read in the same way,
then no adapter is wanted, however much is read and wherever it ends. Nothing is said of whether the
tree stands for a value.

## Main definitions

* `Readable`: with every later registry, a tree is read and no adapter is wanted.

## Main statements

* `readable_of_parts`: a tree is readable when its parts are.
-/

namespace JsonAdapters

open Json (Reader Tree)
open Json.Reader (AtValue BeforeItem BeforeName Passes PassesItems PassesMembers)
open Outcome
open Registry (Later Moves Orderly)

/-- With every later registry, the adapter for `t` reads the tree, wherever a reader faces it, and
wants no adapter. If it comes to an end, it has passed the tree. -/
def Readable (P : Schema → CustomCodec → Prop) (r : Registry) (t : Ty) (j : Tree) : Prop :=
  ∀ (s : Session Reader) (id : AdapterId) (fuel : Nat) (rest : List Char), Later P r s.registry →
    s.registry.serves id t = true → AtValue s.stream → s.stream.Faces j rest →
    Seeks P (fun _ => False) (read fuel id) s fun _ s' => Passes j s.stream s'.stream

variable {P : Schema → CustomCodec → Prop} {r r' : Registry} {t : Ty} {j : Tree}

theorem Readable.later (h : Readable P r t j) (hr : Later P r r') : Readable P r' t j :=
  fun s id fuel rest hs => h s id fuel rest (hr.trans hs)

namespace Readable

variable {s : Session Reader} {id : AdapterId} {c : Codec} {q : Record} {fuel : Nat}
  {rest : List Char} {js : List Tree} {ms : List (String × Tree)}

/-- Without fuel, nothing is read, and nothing is wanted. -/
theorem stalled {α : Type} {post : α → Session Reader → Prop} (hs : s.registry.Orderly P) :
    Seeks P (fun _ => False) (throw .stalled : AdapterM Reader α) s post :=
  .throw not_false hs

/-- A part is read by its adapter, which is there. -/
theorem part {β : Type} {f : Option Value → AdapterM Reader β} {post : β → Session Reader → Prop}
    (h : r.Has t ∧ Readable P r t j) (hs : Later P r s.registry) (hm : s.registry.Moves id c)
    (ht : t ∈ c.parts) (hr : AtValue s.stream) (hf : s.stream.Faces j rest)
    (hrest : ∀ o s₁, Later P s.registry s₁.registry → Passes j s.stream s₁.stream →
      Seeks P (fun _ => False) (f o) s₁ post) :
    Seeks P (fun _ => False)
      (onRegistry (Registry.part id t) >>= fun inner => read fuel inner >>= f) s post := by
  refine .part hs.orderly hm ht (.inr (hs.keeps.has h.1)) fun inner r₁ hlater hserves => ?_
  refine (h.2 ⟨r₁, s.stream⟩ inner fuel rest (hs.trans hlater) hserves hr hf).bind
    fun o s₁ hlater' hpasses => ?_
  exact hrest o s₁ (hlater.trans hlater') hpasses

/-- The rest of an array. -/
theorem readItems (h : ∀ k ∈ js, r.Has t ∧ Readable P r t k) (hs : Later P r s.registry)
    (hm : s.registry.Moves id c) (ht : t ∈ c.parts) (hb : BeforeItem s.stream)
    (hf : s.stream.FacesItems js rest) :
    Seeks P (fun _ => False) (readItems fuel id t) s
      fun _ s' => PassesItems js s.stream s'.stream := by
  induction fuel generalizing js s with
  | zero =>
    rw [JsonAdapters.readItems]
    exact stalled hs.orderly
  | succ fuel ih =>
    rw [JsonAdapters.readItems]
    refine .reader hs.orderly fun more stream hmore => ?_
    cases js with
    | nil =>
      obtain ⟨rfl, -⟩ := hb.more_faces hf hmore
      exact .pure hs.orderly hmore
    | cons j js =>
      obtain ⟨rfl, hr, behind, hf₁, hnext⟩ := hb.next_faces hf hmore
      refine part (s := ⟨s.registry, stream⟩) (h j List.mem_cons_self) hs hm ht hr hf₁
        fun o s₁ hlater hj => ?_
      cases o with
      | none => exact .throw_bind not_false hlater.orderly
      | some v =>
        obtain ⟨hb₁, hf₂⟩ := hnext s₁.stream hj
        refine (ih (fun k hk => h k (.tail j hk)) (hs.trans hlater) (hm.later hlater) hb₁ hf₂).bind
          fun vs s₂ hlater' hjs => ?_
        exact .pure hlater'.orderly ⟨stream, s₁.stream, hmore, hj, hjs⟩

/-- One member more of an object, or its end. -/
theorem nextMember {α : Type} {a : α} {x : String → AdapterM Reader α}
    (hs : s.registry.Orderly P) (hb : BeforeName s.stream) (hf : s.stream.FacesMembers ms rest)
    (hx : ∀ key j ms' behind stream, ms = (key, j) :: ms' → AtValue stream →
      stream.Faces j behind →
      (∀ r, Passes j stream r → BeforeName r ∧ r.FacesMembers ms' rest) →
      Seeks P (fun _ => False) (x key) ⟨s.registry, stream⟩ fun _ s' =>
        ∃ r, Passes j stream r ∧ PassesMembers ms' r s'.stream) :
    Seeks P (fun _ => False)
      (onReader Reader.more >>= fun more =>
        if more = true then onReader Reader.name >>= x else pure a) s
      fun _ s' => PassesMembers ms s.stream s'.stream := by
  refine .reader hs fun more stream hmore => ?_
  cases ms with
  | nil =>
    obtain ⟨rfl, -⟩ := hb.more_faces hf hmore
    exact .pure hs hmore
  | cons m ms =>
    obtain ⟨key, j⟩ := m
    obtain ⟨rfl, -⟩ := hb.more_faces hf hmore
    refine .reader (s := ⟨s.registry, stream⟩) hs fun key' stream' hname => ?_
    obtain ⟨rfl, hr, behind, hf₁, hnext⟩ := hb.next_faces hf hmore hname
    refine (hx key' j ms behind stream' rfl hr hf₁ hnext).mono (fun _ h => h) fun _ s' _ hms => ?_
    obtain ⟨r, hj, hms⟩ := hms
    exact ⟨stream, stream', r, hmore, hname, hj, hms⟩

/-- The rest of an object, read as a map. -/
theorem readEntries {es : List (String × Value)} (h : ∀ m ∈ ms, r.Has t ∧ Readable P r t m.2)
    (hs : Later P r s.registry) (hm : s.registry.Moves id c) (ht : t ∈ c.parts)
    (hb : BeforeName s.stream) (hf : s.stream.FacesMembers ms rest) :
    Seeks P (fun _ => False) (readEntries fuel id t es) s
      fun _ s' => PassesMembers ms s.stream s'.stream := by
  induction fuel generalizing ms es s with
  | zero =>
    rw [JsonAdapters.readEntries]
    exact stalled hs.orderly
  | succ fuel ih =>
    rw [JsonAdapters.readEntries]
    refine nextMember hs.orderly hb hf fun key j ms behind stream hms hr hf₁ hnext => ?_
    subst hms
    refine part (s := ⟨s.registry, stream⟩) (h _ List.mem_cons_self) hs hm ht hr hf₁
      fun o s₁ hlater hj => ?_
    cases o with
    | none => exact .throw_bind not_false hlater.orderly
    | some v =>
      obtain ⟨hb₁, hf₂⟩ := hnext s₁.stream hj
      refine Seeks.mono (ih (fun m hm => h m (.tail _ hm)) (hs.trans hlater) (hm.later hlater) hb₁
        hf₂) (fun _ h => h) fun es' s₂ _ hms => ?_
      exact ⟨s₁.stream, hj, hms⟩

/-- What is read when `null` is a case of its own. -/
theorem unlessNull {α : Type} {a : α} {x : AdapterM Reader α} (hs : s.registry.Orderly P)
    (hr : AtValue s.stream) (hf : s.stream.Faces j rest)
    (hx : ∀ stream, AtValue stream → stream.Faces j rest → j.kind ≠ .null →
      Seeks P (fun _ => False) x ⟨s.registry, stream⟩ fun _ s' => Passes j stream s'.stream) :
    Seeks P (fun _ => False) (passNull >>= fun null => if null = true then pure a else x) s
      fun _ s' => Passes j s.stream s'.stream := by
  simp only [passNull, bind_assoc]
  refine .reader hs fun kind stream hpeek => ?_
  obtain ⟨rfl, hf₁⟩ := hr.peek_faces hf hpeek
  by_cases hnull : j.kind = .null
  · rw [if_pos hnull, bind_assoc]
    refine .reader (s := ⟨s.registry, stream⟩) hs fun _ stream' hpass => ?_
    obtain rfl := Tree.kind_eq_iff.1 hnull
    exact .pure hs ((hr.passes_peek hpeek).1 hpass)
  · rw [if_neg hnull, pure_bind, if_neg Bool.false_ne_true]
    refine (hx stream (hr.peek_atValue hpeek) hf₁ hnull).mono (fun _ h => h) fun _ s' _ hj => ?_
    exact (hr.passes_peek hpeek).1 hj

/-- One member of a record. Only a member that counts for a field is read by an adapter. -/
theorem readMember {name : String} {values : Assignments}
    (h : ∀ x, q.counted? (name, j) = some x → r.Has x.2 ∧ Readable P r x.2 j)
    (hs : Later P r s.registry) (hm : s.registry.Moves id (.record q)) (hr : AtValue s.stream)
    (hf : s.stream.Faces j rest) :
    Seeks P (fun _ => False) (readMember fuel id q name values) s
      fun _ s' => Passes j s.stream s'.stream := by
  -- a member is skipped where the record is empty or has no field of the name
  have hskip {s : Session Reader} {values : Assignments} (hs : s.registry.Orderly P)
      (hr : AtValue s.stream) (hf : s.stream.Faces j rest) :
      Seeks P (fun _ => False) (onReader Reader.skip >>= fun _ => pure values) s
        fun _ s' => Passes j s.stream s'.stream := by
    refine .reader hs fun _ stream hpass => ?_
    obtain ⟨k, hk⟩ := hr.skip_eq_ok_iff.1 hpass
    obtain ⟨rfl, -⟩ := hk.of_faces hr hf
    exact .pure hs hk
  cases fuel with
  | zero =>
    rw [JsonAdapters.readMember]
    exact stalled hs.orderly
  | succ fuel =>
    rw [JsonAdapters.readMember]
    by_cases hempty : q.fields.isEmpty = true
    · rw [if_pos hempty]
      exact hskip hs.orderly hr hf
    rw [if_neg hempty]
    refine unlessNull hs.orderly hr hf fun stream hr hf hnull => ?_
    cases hi : q.fieldIndex? name with
    | none => exact hskip (s := ⟨s.registry, stream⟩) hs.orderly hr hf
    | some i =>
      obtain ⟨f, hfield⟩ : ∃ f, q.fields[i]? = some f := by
        obtain ⟨hlt, -⟩ := List.findIdx?_eq_some_iff_getElem.1 hi
        exact ⟨_, List.getElem?_eq_getElem hlt⟩
      have hslot : f.type ∈ q.slots := Record.mem_slots.2 ⟨f, List.mem_of_getElem? hfield, rfl⟩
      have hcounted : q.counted? (name, j) = some (i, f.type) := by
        rw [Record.counted?, if_neg hnull, Record.target?, hi, Option.bind_some, hfield,
          Option.map_some]
      simp only [hfield]
      refine part (s := ⟨s.registry, stream⟩) (c := .record q) (h _ hcounted) hs hm hslot hr hf
        fun o s₁ hlater hj => ?_
      exact .pure hlater.orderly hj

/-- The rest of an object, read as members of a record. -/
theorem readMembers {values : Assignments}
    (h : ∀ m ∈ ms, ∀ x, q.counted? m = some x → r.Has x.2 ∧ Readable P r x.2 m.2)
    (hs : Later P r s.registry) (hm : s.registry.Moves id (.record q)) (hb : BeforeName s.stream)
    (hf : s.stream.FacesMembers ms rest) :
    Seeks P (fun _ => False) (readMembers fuel id q values) s
      fun _ s' => PassesMembers ms s.stream s'.stream := by
  -- where the fuel ends, the read is stalled, and nothing is sought
  induction fuel generalizing ms values s with
  | zero =>
    rw [JsonAdapters.readMembers]
    exact stalled hs.orderly
  | succ fuel ih =>
    rw [JsonAdapters.readMembers]
    refine nextMember hs.orderly hb hf fun name j ms behind stream hms hr hf₁ hnext => ?_
    subst hms
    refine Seeks.bind (readMember (s := ⟨s.registry, stream⟩) (h _ List.mem_cons_self) hs hm hr hf₁)
      fun values' s₁ hlater hj => ?_
    obtain ⟨hb₁, hf₂⟩ := hnext s₁.stream hj
    refine Seeks.mono (ih (fun m hm => h m (.tail _ hm)) (hs.trans hlater) (hm.later hlater) hb₁
      hf₂) (fun _ h => h) fun _ s₂ _ hms => ?_
    exact ⟨s₁.stream, hj, hms⟩

/-- An array is entered, its items are read, and it is left. -/
theorem array {α β : Type} {x : AdapterM Reader α} {f : α → AdapterM Reader β}
    (hs : s.registry.Orderly P) (hr : AtValue s.stream) (hf : s.stream.Faces j rest)
    (hx : ∀ js stream, j = .array js → BeforeItem stream → stream.FacesItems js rest →
      Seeks P (fun _ => False) x ⟨s.registry, stream⟩ fun _ s' => PassesItems js stream s'.stream)
    (hrest : ∀ a s', s'.registry.Orderly P →
      Seeks P (fun _ => False) (f a) s' fun _ s'' => s''.stream = s'.stream) :
    Seeks P (fun _ => False)
      (do onReader Reader.enterArray; let a ← x; onReader Reader.leaveArray; f a) s
      fun _ s' => Passes j s.stream s'.stream := by
  refine .reader hs fun _ stream henter => ?_
  obtain ⟨js, rfl, hb, hf₁⟩ := hr.enterArray_faces hf henter
  refine (hx js stream rfl hb hf₁).bind fun a s₁ hlater hjs => ?_
  refine .reader hlater.orderly fun _ stream' hleave => ?_
  refine (hrest a ⟨s₁.registry, stream'⟩ hlater.orderly).mono (fun _ h => h) fun _ s₂ _ hsame => ?_
  rw [hsame]
  exact ⟨stream, s₁.stream, henter, hjs, hleave⟩

/-- An object is entered, its members are read, and it is left. -/
theorem object {α β : Type} {x : AdapterM Reader α} {f : α → AdapterM Reader β}
    (hs : s.registry.Orderly P) (hr : AtValue s.stream) (hf : s.stream.Faces j rest)
    (hx : ∀ ms stream, j = .object ms → BeforeName stream → stream.FacesMembers ms rest →
      Seeks P (fun _ => False) x ⟨s.registry, stream⟩ fun _ s' => PassesMembers ms stream s'.stream)
    (hrest : ∀ a s', s'.registry.Orderly P →
      Seeks P (fun _ => False) (f a) s' fun _ s'' => s''.stream = s'.stream) :
    Seeks P (fun _ => False)
      (do onReader Reader.enterObject; let a ← x; onReader Reader.leaveObject; f a) s
      fun _ s' => Passes j s.stream s'.stream := by
  refine .reader hs fun _ stream henter => ?_
  obtain ⟨ms, rfl, hb, hf₁⟩ := hr.enterObject_faces hf henter
  refine (hx ms stream rfl hb hf₁).bind fun a s₁ hlater hms => ?_
  refine .reader hlater.orderly fun _ stream' hleave => ?_
  refine (hrest a ⟨s₁.registry, stream'⟩ hlater.orderly).mono (fun _ h => h) fun _ s₂ _ hsame => ?_
  rw [hsame]
  exact ⟨stream, s₁.stream, henter, hms, hleave⟩

/-- An array, unless there is `null`. -/
theorem arrayOrNull {α β : Type} {x : AdapterM Reader α} {f : α → AdapterM Reader β} {b : β}
    (hs : s.registry.Orderly P) (hr : AtValue s.stream) (hf : s.stream.Faces j rest)
    (hx : ∀ js stream, j = .array js → BeforeItem stream → stream.FacesItems js rest →
      Seeks P (fun _ => False) x ⟨s.registry, stream⟩ fun _ s' => PassesItems js stream s'.stream)
    (hrest : ∀ a s', s'.registry.Orderly P →
      Seeks P (fun _ => False) (f a) s' fun _ s'' => s''.stream = s'.stream) :
    Seeks P (fun _ => False)
      (passNull >>= fun null => if null = true then pure b else do
        onReader Reader.enterArray
        let a ← x
        onReader Reader.leaveArray
        f a) s
      fun _ s' => Passes j s.stream s'.stream :=
  unlessNull hs hr hf fun stream hr hf _ => array (s := ⟨s.registry, stream⟩) hs hr hf hx hrest

/-- An object, unless there is `null`. -/
theorem objectOrNull {α β : Type} {x : AdapterM Reader α} {f : α → AdapterM Reader β} {b : β}
    (hs : s.registry.Orderly P) (hr : AtValue s.stream) (hf : s.stream.Faces j rest)
    (hx : ∀ ms stream, j = .object ms → BeforeName stream → stream.FacesMembers ms rest →
      Seeks P (fun _ => False) x ⟨s.registry, stream⟩ fun _ s' => PassesMembers ms stream s'.stream)
    (hrest : ∀ a s', s'.registry.Orderly P →
      Seeks P (fun _ => False) (f a) s' fun _ s'' => s''.stream = s'.stream) :
    Seeks P (fun _ => False)
      (passNull >>= fun null => if null = true then pure b else do
        onReader Reader.enterObject
        let a ← x
        onReader Reader.leaveObject
        f a) s
      fun _ s' => Passes j s.stream s'.stream :=
  unlessNull hs hr hf fun stream hr hf _ => object (s := ⟨s.registry, stream⟩) hs hr hf hx hrest

/-- What passes some value passes the one that the reader faces. -/
theorem whole {x : AdapterM Reader (Option Value)} (hx : OnStream x) (hs : s.registry.Orderly P)
    (hr : AtValue s.stream) (hf : s.stream.Faces j rest)
    (hpass : ∀ o stream, x s = .ok o ⟨s.registry, stream⟩ → ∃ k, Passes k s.stream stream) :
    Seeks P (fun _ => False) x s fun _ s' => Passes j s.stream s'.stream := by
  refine .of_onStream hx hs fun o stream ho => ?_
  obtain ⟨k, hk⟩ := hpass o stream ho
  obtain ⟨rfl, -⟩ := hk.of_faces hr hf
  exact hk

/-- The value that the values of the members make up is not read any more. -/
theorem ofMembers {values : Assignments} (hs : s.registry.Orderly P) :
    Seeks P (fun _ => False)
      (match q.ofMembers values with
        | .ok v => pure (some v)
        | .error e => AdapterM.fail e : AdapterM Reader (Option Value)) s
      fun _ s' => s'.stream = s.stream := by
  cases hv : q.ofMembers values with
  | ok v => exact .pure hs rfl
  | error e =>
    obtain ⟨f, -, rfl⟩ := Record.ofMembers_error hv
    exact .throw not_false hs

end Readable

/-- An adapter that is not generated reads one value, whatever it is. -/
theorem readable_of_custom {id : AdapterId} {c : CustomCodec} (hc : c.ReadsLawfully)
    (hm : r.Moves id (.custom c)) (ht : c.serves = t) : Readable P r t j := by
  intro s k fuel rest hs hk hr hf
  obtain ⟨a, ha, hcodec⟩ := hm.later hs
  have hserves : s.registry.serves id t = true := by
    refine Registry.serves_iff.2 ⟨a, ha, ?_⟩
    rw [hcodec]
    exact ht
  -- only one adapter serves a type
  obtain rfl := hs.orderly.single.unique hserves hk
  cases fuel with
  | zero =>
    rw [read]
    exact Readable.stalled hs.orderly
  | succ fuel =>
    rw [read]
    refine .codec ⟨a, ha, hcodec⟩ (Readable.whole (.reader _) hs.orderly hr hf ?_)
    exact fun o stream ho => (hc s.stream hr).ok (ok_of_onReader ho)

/-- A tree can be read with what a registry has when that holds of its parts. There is one case for
each kind of adapter. -/
theorem readable_of_parts (hP : ∀ c, P r.schema c → c.serves = t → c.ReadsLawfully)
    (h : ∀ x ∈ j.parts r.schema t, r.Has x.1 ∧ Readable P r x.1 x.2) : Readable P r t j := by
  intro s id fuel rest hs hserves hr hf
  obtain ⟨c, hm, rfl⟩ := Registry.exists_moves hserves
  have hfits := hm.fits hs.orderly.valid
  rw [hs.keeps.schema] at hfits
  -- each codec reads only values of its parts
  cases fuel with
  | zero =>
    rw [read]
    exact Readable.stalled hs.orderly
  | succ fuel =>
    rw [read]
    refine .codec hm ?_
    cases c with
    | custom c =>
      exact Readable.whole (.reader _) hs.orderly hr hf fun o stream ho =>
        (hP c hfits rfl s.stream hr).ok (ok_of_onReader ho)
    | scalar c =>
      refine Readable.whole (.readScalar c) hs.orderly hr hf fun o stream ho => ?_
      obtain ⟨k, hk, -⟩ := ((c.read_refines (T := .scalar c) hs.orderly.valid hr).ok ho).passed
      exact ⟨k, hk⟩
    | vec u =>
      refine Readable.arrayOrNull hs.orderly hr hf ?_ fun _ _ hs' => .pure hs' rfl
      rintro js stream rfl hb hf
      exact Readable.readItems (s := ⟨s.registry, stream⟩)
        (fun k hk => h (u, k) (List.mem_map.2 ⟨k, hk, rfl⟩)) hs hm (List.mem_singleton.2 rfl) hb hf
    | hashMap u | treeMap u =>
      refine Readable.objectOrNull hs.orderly hr hf ?_ fun _ _ hs' => .pure hs' rfl
      rintro ms stream rfl hb hf
      exact Readable.readEntries (s := ⟨s.registry, stream⟩)
        (fun m hm => h (u, m.2) (List.mem_map.2 ⟨m, hm, rfl⟩)) hs hm (List.mem_singleton.2 rfl)
        hb hf
    | option u =>
      refine Readable.unlessNull hs.orderly hr hf fun stream hr hf hnull => ?_
      have hpart := h (u, j) (by
        rw [Codec.serves, Tree.parts, if_neg hnull]
        exact List.mem_singleton.2 rfl)
      refine Readable.part (s := ⟨s.registry, stream⟩) hpart hs hm (List.mem_singleton.2 rfl) hr hf
        fun o s₁ hlater hj => ?_
      cases o <;> exact .pure hlater.orderly hj
    | box u =>
      refine Readable.part (h (u, j) (List.mem_singleton.2 rfl)) hs hm (List.mem_singleton.2 rfl)
        hr hf fun o s₁ hlater hj => ?_
      exact .pure hlater.orderly hj
    | record q =>
      refine Readable.objectOrNull hs.orderly hr hf ?_ fun values s' hs' => Readable.ofMembers hs'
      rintro ms stream rfl hb hf
      exact Readable.readMembers (s := ⟨s.registry, stream⟩)
        ((Tree.forall_mem_parts_record hfits).1 h) hs hm hb hf

end JsonAdapters
