import JsonAdapters.Proofs.Adapter.Elementwise
import JsonAdapters.Proofs.Adapter.Reading
import JsonAdapters.Proofs.Json.Facing

/-!
# Missing fields

A record without a default instance is not read when one of its required fields has no member. This
is the only reason to report a missing field: a run that reports one has read, up to there, a tree
in which an object lacks the field. That holds of every text that a reader faces, also of one that
it would refuse later on.

## Main definitions

* `Json.Tree.Lacks`: an object in the tree lacks a member for a required field.
* `AdapterFailure.Blames`: what a report of a missing field says.

## Main statements

* `Json.Tree.Lacks.decode`: a tree that lacks a field stands for no value.
* `read_blames`: a missing field is lacking in the tree that is read.
-/

namespace JsonAdapters

open Json (Reader Tree ReadM)
open Json.Reader (AtValue BeforeItem BeforeName Passes)
open Outcome
open Registry (Grows Valid)

variable {S : Schema} {id : RecordId} {f : Field} {r : Record} {t T : Ty} {j : Tree} {i : Nat}
  {js : List Tree} {ms : List (String × Tree)}

/-! ## Trees that lack a field -/

namespace Record

/-- The field at the position must be given: it is not optional, and no default instance has it. -/
structure Requires (r : Record) (i : Nat) (f : Field) : Prop where
  field : r.fields[i]? = some f
  mandatory : f.nullable = false
  bare : r.default = none

/-- A record lacks the value of a field that must be given and was not. -/
theorem requires_of_fieldValue {as : List (Nat × Value)} (hf : r.fields[i]? = some f)
    (hdefault : ∀ d, r.default = some d → d.fields.length = r.fields.length)
    (h : r.fieldValue as i f = none) : r.Requires i f ∧ i ∉ as.map Prod.fst := by
  rw [fieldValue] at h
  cases hlast : lastFor i as with
  | some v =>
    rw [hlast] at h
    cases h
  | none =>
    rw [hlast] at h
    refine ⟨?_, lastFor_eq_none_iff.1 hlast⟩
    cases hd : r.default with
    -- a default has a value for each field, so none is missing
    | some d =>
      obtain ⟨hi, -⟩ := List.getElem?_eq_some_iff.1 hf
      rw [hd] at h
      exact absurd (hdefault d hd ▸ hi) (Nat.not_lt.2 (List.getElem?_eq_none_iff.1 h))
    | none =>
      rw [hd] at h
      refine ⟨hf, ?_, hd⟩
      cases hn : f.nullable with
      | false => rfl
      | true => simp [hn] at h

theorem Requires.fieldValue {as : List (Nat × Value)} (h : r.Requires i f)
    (hi : i ∉ as.map Prod.fst) : r.fieldValue as i f = none := by
  rw [Record.fieldValue, lastFor_eq_none_iff.2 hi, h.bare]
  simp [h.mandatory]

/-- A record is not put together when one of its fields has no value. -/
theorem assemble_of_fieldValue {as : List (Nat × Value)} (hf : r.fields[i]? = some f)
    (h : r.fieldValue as i f = none) : r.assemble as = none := by
  have hgo (fs : List Field) (n k : Nat) (hk : fs[k]? = some f)
      (h : r.fieldValue as (n + k) f = none) : r.fieldValuesFrom as n fs = none := by
    induction fs generalizing n k with
    | nil => cases hk
    | cons g fs ih =>
      rw [fieldValuesFrom]
      cases k with
      | zero =>
        cases hk
        rw [Nat.add_zero] at h
        rw [h]
        rfl
      | succ k =>
        rw [ih (n + 1) k hk (by rwa [Nat.add_right_comm])]
        cases r.fieldValue as n g <;> rfl
  rw [assemble, hgo r.fields 0 i hf (by rwa [Nat.zero_add]), Option.map_none]

end Record

namespace Json.Tree

/-- An object in the tree, read as the record, has no member for a field that must be given. -/
inductive Lacks (S : Schema) (id : RecordId) (f : Field) : Ty → Tree → Prop
  | field {r : Record} {i : Nat} {ms : List (String × Tree)} : S.find? id = some r →
    r.Requires i f → i ∉ r.positions ms → Lacks S id f (.record id) (.object ms)
  | part {t : Ty} {j : Tree} {x : Ty × Tree} : x ∈ j.parts S t → Lacks S id f x.1 x.2 →
    Lacks S id f t j

theorem Lacks.kind_ne_null (h : j.Lacks S id f t) : j.kind ≠ .null := by
  induction h with
  | field => nofun
  | @part t j x hx _ ih =>
    intro hj
    obtain rfl := kind_eq_iff.1 hj
    -- of `null`, only the content of a box is a part
    by_cases ht : ∃ u, t = .box u
    · obtain ⟨u, rfl⟩ := ht
      obtain rfl := List.mem_singleton.1 hx
      exact ih rfl
    · rw [parts_null fun u hu => ht ⟨u, hu⟩] at hx
      cases hx

/-- A tree with a part that stands for nothing stands for nothing. -/
theorem decode_of_part {x : Ty × Tree} (hx : x ∈ j.parts S t) (hnull : x.2.kind ≠ .null)
    (h : x.2.decode S x.1 = none) : j.decode S t = none := by
  -- a part that fails has no value, and its container fails with it
  have hjoin : (x.2.decode S x.1).join = none := by rw [h, Option.join_none]
  cases t with
  | scalar => cases hx
  | box u =>
    obtain rfl := List.mem_singleton.1 hx
    rw [decode_box, h, Option.map_none]
  | option u =>
    rw [parts] at hx
    split at hx
    · cases hx
    · obtain rfl := List.mem_singleton.1 hx
      rw [decode_option hnull, h, Option.map_none]
  | vec u =>
    obtain ⟨k, hk, rfl⟩ := List.mem_map.1 hx
    cases j with
    | array js =>
      have hitem : decodeItems S [k] u = none := by rw [decodeItems_cons, hjoin, Option.bind_none]
      have hitems : decodeItems S js u = none :=
        decodeItems_elementwise.eq_none_iff.2 ⟨k, hk, hitem⟩
      rw [decode_vec, hitems]
      rfl
    | _ => cases hk
  | hashMap u | treeMap u =>
    obtain ⟨m, hm, rfl⟩ := List.mem_map.1 hx
    cases j with
    | object ms =>
      have hentry : decodeEntries S [m] u = none := by
        rw [decodeEntries_cons, hjoin, Option.bind_none]
      have hentries : decodeEntries S ms u = none :=
        decodeEntries_elementwise.eq_none_iff.2 ⟨m, hm, hentry⟩
      rw [decode_map (t := u) (by simp), hentries]
      rfl
    | _ => cases hm
  | record id =>
    rw [parts] at hx
    split at hx
    · next r hr =>
      obtain ⟨m, hm, hx⟩ := List.mem_filterMap.1 hx
      obtain ⟨field, hcounted, rfl⟩ := Option.map_eq_some_iff.1 hx
      cases j with
      | object ms =>
        have hmember : decodeMembers S [m] r = none := by
          rw [decodeMembers_singleton, hcounted]
          exact Option.map_eq_none_iff.2 hjoin
        have hmembers : decodeMembers S ms r = none :=
          decodeMembers_elementwise.eq_none_iff.2 ⟨m, hm, hmember⟩
        rw [decode_record hr, hmembers]
        rfl
      | _ => cases hm
    · cases hx

/-- A tree that lacks a field stands for no value. -/
theorem Lacks.decode (h : j.Lacks S id f t) : j.decode S t = none := by
  induction h with
  | @field r i ms hr hrequires hi =>
    rw [decode_record hr, Option.map_eq_none_iff]
    cases hms : decodeMembers S ms r with
    | none => rfl
    | some as =>
      rw [← decodeMembers_positions hms] at hi
      exact Record.assemble_of_fieldValue hrequires.field (hrequires.fieldValue hi)
  | part hx hlacks ih => exact decode_of_part hx hlacks.kind_ne_null ih

/-- What lacks a field under an option lacks it. -/
theorem Lacks.of_option (h : j.Lacks S id f (.option t)) : j.Lacks S id f t := by
  have hnull := h.kind_ne_null
  cases h with
  | part hx h =>
    rw [parts, if_neg hnull] at hx
    obtain rfl := List.mem_singleton.1 hx
    exact h

theorem Lacks.item {k : Tree} (hk : k ∈ js) (h : k.Lacks S id f t) :
    (array js).Lacks S id f (.vec t) :=
  .part (List.mem_map.2 ⟨k, hk, rfl⟩) h

theorem Lacks.entry {u : Ty} {m : String × Tree} (hu : u = .hashMap t ∨ u = .treeMap t)
    (hm : m ∈ ms) (h : m.2.Lacks S id f t) : (object ms).Lacks S id f u := by
  obtain rfl | rfl := hu <;> exact .part (List.mem_map.2 ⟨m, hm, rfl⟩) h

theorem Lacks.member {id' : RecordId} {m : String × Tree} {x : Nat × Ty}
    (hr : S.find? id' = some r) (hm : m ∈ ms) (hx : r.counted? m = some x)
    (h : m.2.Lacks S id f x.2) : (object ms).Lacks S id f (.record id') := by
  refine .part (x := (x.2, m.2)) ?_ h
  rw [parts, hr]
  exact List.mem_filterMap.2 ⟨m, hm, by rw [hx]; rfl⟩

end Json.Tree

/-! ## Reports of missing fields -/

/-- If the failure reports a missing field, it is a field with `p`. -/
def AdapterFailure.Blames (p : RecordId → Field → Prop) : AdapterFailure → Prop
  | .error (.missingField record field) => ∃ id f, id.ident = record ∧ f.name = field ∧ p id f
  | _ => True

variable {α β : Type} {p q : RecordId → Field → Prop} {s s₁ : Session Reader}

/-- Run from `s`, the computation reports no other missing fields than those with `p`. -/
def Blaming (p : RecordId → Field → Prop) (x : AdapterM Reader α) (s : Session Reader) : Prop :=
  Ends x s (fun _ _ => True) fun e _ => e.Blames p

theorem AdapterFailure.Blames.mono {e : AdapterFailure} (h : e.Blames p)
    (hpq : ∀ id f, p id f → q id f) : e.Blames q := by
  unfold Blames at h ⊢
  split at h
  · obtain ⟨id, f, hid, hf, hp⟩ := h
    exact ⟨id, f, hid, hf, hpq id f hp⟩
  · trivial

namespace Blaming

theorem mono {x : AdapterM Reader α} (h : Blaming p x s) (hpq : ∀ id f, p id f → q id f) :
    Blaming q x s :=
  Ends.mono h (fun _ _ _ h => h) fun _ _ he => he.mono hpq

/-- What is lacking in the first of some trees is lacking in one of them. -/
theorem first {κ : Type} {q : κ → RecordId → Field → Prop} {k : κ} {x : AdapterM Reader α}
    (h : Blaming (q k) x s) (ks : List κ) :
    Blaming (fun id f => ∃ l ∈ k :: ks, q l id f) x s :=
  h.mono fun _ _ hq => ⟨k, List.mem_cons_self, hq⟩

/-- What is lacking in one of the others is lacking in one of them. -/
theorem later {κ : Type} {q : κ → RecordId → Field → Prop} {k : κ} {ks : List κ}
    {x : AdapterM Reader α} (h : Blaming (fun id f => ∃ l ∈ ks, q l id f) x s) :
    Blaming (fun id f => ∃ l ∈ k :: ks, q l id f) x s := by
  refine h.mono ?_
  rintro id f ⟨l, hl, hq⟩
  exact ⟨l, List.mem_cons_of_mem k hl, hq⟩

theorem pure (a : α) : Blaming p (pure a : AdapterM Reader α) s := Ends.pure trivial

theorem bind {x : AdapterM Reader α} {y : α → AdapterM Reader β} (hx : Blaming p x s)
    (hy : ∀ a s₁, x s = .ok a s₁ → Blaming p (y a) s₁) : Blaming p (x >>= y) s :=
  Ends.bind hx fun a s₁ ha _ => hy a s₁ ha

/-- A step of the reader reports no missing field. -/
theorem onReader (x : ReadM α) : Blaming p (onReader x) s := by
  refine ⟨fun _ => trivial, fun he => ?_⟩
  unfold JsonAdapters.onReader at he
  split at he
  · cases he
  · next e r _ =>
    cases he
    cases e <;> trivial

/-- A step of the reader, and what follows it. -/
theorem step {x : ReadM α} {y : α → AdapterM Reader β}
    (hy : ∀ a r, x s.stream = .ok a r → Blaming p (y a) (s.at r)) :
    Blaming p (JsonAdapters.onReader x >>= y) s :=
  ends_onReader hy fun e _ _ => by cases e <;> trivial

end Blaming

/-- No field is missing when an adapter is not found. -/
theorem AdapterFailure.OfRequest.blames {e : AdapterFailure} (h : e.OfRequest) : e.Blames p := by
  unfold Blames
  split
  · exact h.elim
  · trivial

/-- The registry has built-in and generated adapters only for what `T` needs, and default instances
are complete. -/
structure Registry.Regular (T : Ty) (r : Registry) : Prop where
  valid : r.Valid fun S c => ¬S.Needs T c.serves
  sound : r.schema.Sound

namespace Blaming

/-- A request to the registry, and what follows it. -/
theorem request {x : Registry.Action α} {y : α → AdapterM Reader β}
    (hy : ∀ a r, x s.registry = .ok a r → Blaming p (y a) { s with registry := r })
    (he : ∀ e r, x s.registry = .error e r → e.OfRequest) :
    Blaming p (onRegistry x >>= y) s := by
  cases hx : x s.registry with
  | ok a r => exact Ends.congr (bind_of_ok (onRegistry_ok hx)) (hy a r hx)
  | error e r => exact .of_error (bind_of_error (onRegistry_error hx)) (he e r hx).blames

/-- The adapter of a part is found, or no field is reported. -/
theorem part {c : Codec} {owner : AdapterId} {y : AdapterId → AdapterM Reader β}
    (hs : s.registry.Regular T) (hm : s.registry.Moves owner c) (ht : t ∈ c.parts)
    (hy : ∀ inner s₁, s₁.stream = s.stream → s₁.registry.Regular T →
      Grows s.registry s₁.registry → s₁.registry.serves inner t = true → Blaming p (y inner) s₁) :
    Blaming p (onRegistry (Registry.part owner t) >>= y) s := by
  obtain ⟨a, ha, rfl⟩ := hm
  have hpart := hs.valid.part_ends ha ht
  refine request (fun inner r hx => ?_) fun e r hx => (hpart.error hx).ofRequest
  have hobtained := hpart.ok hx
  exact hy inner _ rfl ⟨hobtained.valid, hobtained.grows.schema ▸ hs.sound⟩ hobtained.grows
    hobtained.serves

/-- What is read when `null` is a case of its own. -/
theorem unlessNull {v₀ : α} {x : AdapterM Reader α} {rest : List Char} (hr : AtValue s.stream)
    (hf : s.stream.Faces j rest) (hx : ∀ r, AtValue r → r.Faces j rest → j.kind ≠ .null →
      r.rest.length ≤ s.stream.rest.length → Blaming p x (s.at r)) :
    Blaming p (passNull >>= fun b => if b = true then Pure.pure v₀ else x) s := by
  simp only [passNull, bind_assoc]
  refine step fun k r hp => ?_
  obtain ⟨rfl, hf₁⟩ := hr.peek_faces hf hp
  by_cases hk : j.kind = .null
  · simp only [hk, if_true, bind_assoc]
    exact step fun _ _ _ => pure _
  · simp only [hk, if_false, pure_bind, Bool.false_eq_true]
    refine hx r (hr.peek_atValue hp) hf₁ hk ?_
    obtain ⟨m, hl, -⟩ := hr.peek_eq_ok_iff.1 hp
    obtain ⟨lead, rest, p, hrest, -, rfl, -⟩ := hr.look_sound hl
    simp [hrest, Reader.seen]

/-- One member more of an object, or its end. -/
theorem nextMember {a : α} {x : String → AdapterM Reader α} {ms : List (String × Tree)}
    {rest : List Char} (hb : BeforeName s.stream) (hf : s.stream.FacesMembers ms rest)
    (hx : ∀ key j ms' behind r, ms = (key, j) :: ms' → AtValue r → r.Faces j behind →
      r.rest.length ≤ s.stream.rest.length →
      (∀ r', Passes j r r' → BeforeName r' ∧ r'.FacesMembers ms' rest) →
      Blaming p (x key) (s.at r)) :
    Blaming p (JsonAdapters.onReader Reader.more >>= fun more =>
      if more = true then JsonAdapters.onReader Reader.name >>= x else Pure.pure a) s := by
  refine step fun b r hmore => ?_
  cases ms with
  | nil =>
    obtain ⟨rfl, -⟩ := hb.more_faces hf hmore
    exact pure a
  | cons m ms =>
    obtain ⟨key, j⟩ := m
    obtain ⟨rfl, -⟩ := hb.more_faces hf hmore
    refine step fun key' r₁ hname => ?_
    obtain ⟨rfl, hr, behind, hf₁, hnext⟩ := hb.next_faces hf hmore hname
    obtain ⟨-, -, hle⟩ := (hb.name_ends hmore).ok hname
    exact hx key' j ms behind r₁ rfl hr hf₁ hle hnext

end Blaming

/-! ## Adapters -/

/-- What an amount of fuel is good for, on the way to values of type `T`: a field that is reported
is lacking in what the reader faces. -/
structure BlamesAt (T : Ty) (fuel : Nat) : Prop where
  value {s : Session Reader} {id : AdapterId} {t : Ty} {j : Tree} {rest : List Char} :
    s.registry.Regular T → s.registry.serves id t = true → s.registry.schema.Needs T t →
    AtValue s.stream → s.stream.Faces j rest → Enough fuel T s (t.depth + 1) →
    Blaming (fun id f => j.Lacks s.registry.schema id f t) (read fuel id) s
  items {s : Session Reader} {id : AdapterId} {c : Codec} {t : Ty} {js : List Tree}
    {rest : List Char} : s.registry.Regular T → s.registry.Moves id c → t ∈ c.parts →
    s.registry.schema.Needs T t → BeforeItem s.stream → s.stream.FacesItems js rest →
    Enough fuel T s (s.registry.schema.nesting T + 2) →
    Blaming (fun id f => ∃ k ∈ js, k.Lacks s.registry.schema id f t) (readItems fuel id t) s
  entries {s : Session Reader} {id : AdapterId} {c : Codec} {t : Ty} {m : List (String × Value)}
    {ms : List (String × Tree)} {rest : List Char} : s.registry.Regular T →
    s.registry.Moves id c → t ∈ c.parts → s.registry.schema.Needs T t → BeforeName s.stream →
    s.stream.FacesMembers ms rest → Enough fuel T s (s.registry.schema.nesting T + 2) →
    Blaming (fun id f => ∃ m ∈ ms, m.2.Lacks s.registry.schema id f t) (readEntries fuel id t m) s
  members {s : Session Reader} {id : AdapterId} {r : Record} {values : Assignments}
    {ms : List (String × Tree)} {rest : List Char} : s.registry.Regular T →
    s.registry.Moves id (.record r) → (∀ t ∈ r.slots, s.registry.schema.Needs T t) →
    BeforeName s.stream → s.stream.FacesMembers ms rest →
    Enough fuel T s (s.registry.schema.nesting T + 3) →
    Blaming (fun id f => ∃ m ∈ ms, ∃ x, r.counted? m = some x ∧
      m.2.Lacks s.registry.schema id f x.2) (readMembers fuel id r values) s
  member {s : Session Reader} {id : AdapterId} {r : Record} {j : Tree} {rest : List Char}
    (name : String) (values : Assignments) : s.registry.Regular T →
    s.registry.Moves id (.record r) → (∀ t ∈ r.slots, s.registry.schema.Needs T t) →
    AtValue s.stream → s.stream.Faces j rest → Enough fuel T s (s.registry.schema.nesting T + 2) →
    Blaming (fun id f => ∃ x, r.counted? (name, j) = some x ∧
      j.Lacks s.registry.schema id f x.2) (readMember fuel id r name values) s

/-- Scalars report no missing field. -/
theorem Scalar.read_blames (c : Scalar) : Blaming p c.read s := by
  unfold Scalar.read
  refine .bind (.bind (.onReader _) fun k s₁ _ => ?_) fun b s₁ _ => ?_
  · split
    · exact .step fun _ _ _ => .pure _
    · exact .pure _
  split
  · exact .pure _
  split
  · exact .step fun b _ _ => .pure _
  · exact .step fun x _ _ => .pure _
  · refine .bind (.step fun text r _ => ?_) fun v s₂ _ => .pure _
    split
    · exact .pure _
    · exact .of_error rfl trivial

/-- All that was asked of adapters is given where only built-in and generated ones are needed. -/
theorem readsAt_regular (T : Ty) (fuel : Nat) :
    ReadsAt (fun S c => ¬S.Needs T c.serves) T fuel :=
  readsAt Schema.readsLawfully_of_unneeded fuel

namespace BlamesAt

variable {fuel : Nat} {id : AdapterId} {c : Codec} {rest : List Char}

/-- A part that must be present. -/
theorem present (h : BlamesAt T fuel) (hs : s.registry.Regular T) (hm : s.registry.Moves id c)
    (ht : t ∈ c.parts) (hn : s.registry.schema.Needs T t) (hr : AtValue s.stream)
    (hf : s.stream.Faces j rest) (he : Enough fuel T s (t.depth + 1)) :
    Blaming (fun id f => j.Lacks s.registry.schema id f t) (do
      let inner ← onRegistry (Registry.part id t)
      requirePresent t (← read fuel inner)) s := by
  refine .part hs hm ht fun inner s₁ hstream hs₁ hg hserves => .bind ?_ fun o s₂ _ => ?_
  · have hvalue := h.value (s := s₁) hs₁ hserves (hg.schema ▸ hn) (hstream ▸ hr) (hstream ▸ hf)
      (he.stay hg.schema (hstream ▸ Nat.le_refl _))
    rwa [hg.schema] at hvalue
  · cases o with
    | some v => exact .pure v
    | none => exact .of_error rfl trivial

/-- Behind a part that was read, the registry is as regular as before, and the part was passed. -/
theorem of_answered {κ : Type} {R : Passage κ β} {v : β}
    (h : Answered (fun S c => ¬S.Needs T c.serves) T R s v s₁) (hs : s.registry.Regular T) :
    s₁.registry.Regular T ∧ Grows s.registry s₁.registry ∧ ∃ x, R.passes x s.stream s₁.stream ∧
      R.means s.registry.schema x = some v := by
  obtain ⟨x, hx, hmeans⟩ := h.passed
  exact ⟨⟨h.valid, h.grows.schema ▸ hs.sound⟩, h.grows, x, hx, (hmeans ⟨hs.sound, fun _ h => h⟩).1⟩

/-- One more item of an array, or its end. -/
theorem readItems_blames (h : BlamesAt T fuel) (hs : s.registry.Regular T)
    (hm : s.registry.Moves id c) (ht : t ∈ c.parts) (hn : s.registry.schema.Needs T t)
    (hb : BeforeItem s.stream) (hf : s.stream.FacesItems js rest)
    (he : Enough (fuel + 1) T s (s.registry.schema.nesting T + 2)) :
    Blaming (fun id f => ∃ k ∈ js, k.Lacks s.registry.schema id f t)
      (readItems (fuel + 1) id t) s := by
  rw [readItems]
  refine .step fun b r hmore => ?_
  cases js with
  | nil =>
    obtain ⟨rfl, -⟩ := hb.more_faces hf hmore
    exact .pure []
  | cons j js =>
    obtain ⟨rfl, hr, behind, hf₁, hnext⟩ := hb.next_faces hf hmore
    have hle := hb.more_rest hmore
    have he₁ : Enough fuel T (s.at r) (t.depth + 1) := he.call rfl hle (by
      have := hn.depth_le
      omega)
    have hitem := h.present (s := s.at r) hs hm ht hn hr hf₁ he₁
    have hall := Blaming.bind (y := fun v => readItems fuel id t >>= fun vs => pure (v :: vs))
      (.first (q := fun k id f => k.Lacks s.registry.schema id f t) hitem js) fun v s₂ hread => ?_
    · simpa only [if_true, bind_assoc] using hall
    -- the item was passed, and the reader faces the others
    · obtain ⟨hs₂, hg, k, hk, -⟩ := of_answered
        (((readsAt_regular T fuel).present (s := s.at r) hs.valid hm ht hn hr he₁).ok hread) hs
      have hS := hg.schema
      obtain ⟨rfl, -⟩ := Passes.of_faces hk hr hf₁
      obtain ⟨hb₂, hf₂⟩ := hnext s₂.stream hk
      have hitems := h.items hs₂ (hm.grows hg) ht (hS ▸ hn) hb₂ hf₂
        (he.next hS (Nat.lt_of_lt_of_le (hk.rest_lt hr) hle))
      rw [hS] at hitems
      exact .bind hitems.later fun vs s₃ _ => .pure (v :: vs)

/-- One more entry of a map, or its end. -/
theorem readEntries_blames {m : List (String × Value)} (h : BlamesAt T fuel)
    (hs : s.registry.Regular T) (hm : s.registry.Moves id c) (ht : t ∈ c.parts)
    (hn : s.registry.schema.Needs T t) (hb : BeforeName s.stream)
    (hf : s.stream.FacesMembers ms rest)
    (he : Enough (fuel + 1) T s (s.registry.schema.nesting T + 2)) :
    Blaming (fun id f => ∃ m ∈ ms, m.2.Lacks s.registry.schema id f t)
      (readEntries (fuel + 1) id t m) s := by
  rw [readEntries]
  refine .nextMember hb hf fun key j ms behind r hms hr hf₁ hle hnext => ?_
  subst hms
  have he₁ : Enough fuel T (s.at r) (t.depth + 1) := he.call rfl hle (by
    have := hn.depth_le
    omega)
  have hvalue := h.present (s := s.at r) hs hm ht hn hr hf₁ he₁
  -- either the value of this entry lacks a field, or an entry after it does
  have hall := Blaming.bind (y := fun v => readEntries fuel id t (Value.putEntry key v m))
    (.first (q := fun m id f => m.2.Lacks s.registry.schema id f t) (k := (key, j)) hvalue ms)
    fun v s₂ hread => ?_
  · simpa only [bind_assoc] using hall
  · obtain ⟨hs₂, hg, k, hk, -⟩ := of_answered
      (((readsAt_regular T fuel).present (s := s.at r) hs.valid hm ht hn hr he₁).ok hread) hs
    have hS := hg.schema
    obtain ⟨rfl, -⟩ := Passes.of_faces hk hr hf₁
    obtain ⟨hb₂, hf₂⟩ := hnext s₂.stream hk
    have hentries := h.entries (m := Value.putEntry key v m) hs₂ (hm.grows hg) ht (hS ▸ hn) hb₂
      hf₂ (he.next hS (Nat.lt_of_lt_of_le (hk.rest_lt hr) hle))
    rw [hS] at hentries
    exact hentries.later

/-- One more member of a record, or its end. -/
theorem readMembers_blames {r : Record} {values : Assignments} (h : BlamesAt T fuel)
    (hs : s.registry.Regular T) (hm : s.registry.Moves id (.record r))
    (hn : ∀ t ∈ r.slots, s.registry.schema.Needs T t) (hb : BeforeName s.stream)
    (hf : s.stream.FacesMembers ms rest)
    (he : Enough (fuel + 1) T s (s.registry.schema.nesting T + 3)) :
    Blaming (fun id f => ∃ m ∈ ms, ∃ x, r.counted? m = some x ∧
      m.2.Lacks s.registry.schema id f x.2) (readMembers (fuel + 1) id r values) s := by
  rw [readMembers]
  refine .nextMember hb hf fun key j ms behind r₁ hms hr hf₁ hle hnext => ?_
  subst hms
  have he₁ : Enough fuel T (s.at r₁) (s.registry.schema.nesting T + 2) :=
    he.call rfl hle (Nat.lt_succ_self _)
  -- either this member lacks a field, or one after it does
  have hmember := h.member (s := s.at r₁) key values hs hm hn hr hf₁ he₁
  refine .bind (.first (k := (key, j)) hmember ms) fun values s₂ hread => ?_
  obtain ⟨hs₂, hg, k, hk, -⟩ := of_answered
    (((readsAt_regular T fuel).member (s := s.at r₁) key _ hs.valid hm hn hr he₁).ok hread) hs
  have hS := hg.schema
  obtain ⟨rfl, -⟩ := Passes.of_faces hk hr hf₁
  obtain ⟨hb₂, hf₂⟩ := hnext s₂.stream hk
  have hmembers := @h.members s₂ id r values ms _ hs₂ (hm.grows hg) (hS ▸ hn) hb₂ hf₂
    (he.next hS (Nat.lt_of_lt_of_le (hk.rest_lt hr) hle))
  rw [hS] at hmembers
  exact hmembers.mono fun id f hj => hj.imp fun k hk => ⟨List.mem_cons_of_mem _ hk.1, hk.2⟩

/-- A member for a field is read by the adapter of the field. -/
theorem readMember_blames {r : Record} {name : String} {values : Assignments}
    (h : BlamesAt T fuel) (hs : s.registry.Regular T) (hm : s.registry.Moves id (.record r))
    (hn : ∀ t ∈ r.slots, s.registry.schema.Needs T t) (hr : AtValue s.stream)
    (hf : s.stream.Faces j rest) (he : Enough (fuel + 1) T s (s.registry.schema.nesting T + 2)) :
    Blaming (fun id f => ∃ x, r.counted? (name, j) = some x ∧
      j.Lacks s.registry.schema id f x.2) (readMember (fuel + 1) id r name values) s := by
  rw [readMember]
  -- members that are skipped blame nothing
  by_cases hempty : r.fields.isEmpty = true
  · rw [if_pos hempty]
    exact .step fun _ _ _ => .pure values
  rw [if_neg hempty]
  refine .unlessNull hr hf fun stream hr hf hnull hle => ?_
  cases hi : r.fieldIndex? name with
  | none => exact .step fun _ _ _ => .pure values
  | some i =>
    obtain ⟨f, hfield⟩ : ∃ f, r.fields[i]? = some f := by
      obtain ⟨hlt, -⟩ := List.findIdx?_eq_some_iff_getElem.1 hi
      exact ⟨_, List.getElem?_eq_getElem hlt⟩
    have hslot : f.type ∈ r.slots := Record.mem_slots.2 ⟨f, List.mem_of_getElem? hfield, rfl⟩
    have hcounted : r.counted? (name, j) = some (i, f.type) := by
      rw [Record.counted?, if_neg hnull, Record.target?, hi, Option.bind_some, hfield,
        Option.map_some]
    simp only [hfield]
    refine .part (s := s.at stream) hs hm hslot fun inner s₁ hstream hs₁ hg hserves =>
      .bind ?_ fun o s₂ _ => .pure _
    have hS := hg.schema
    have he₁ : Enough fuel T s₁ (f.type.depth + 1) := he.call hS (by rwa [hstream]) (by
      have := (hn f.type hslot).depth_le
      omega)
    have hvalue := h.value hs₁ hserves (hS ▸ hn f.type hslot) (by rwa [hstream])
      (by rwa [hstream]) he₁
    rw [hS] at hvalue
    exact hvalue.mono fun id f hj => ⟨_, hcounted, hj⟩

/-- A record is read from an object of its members. -/
theorem readRecord_blames {r : Record} (h : BlamesAt T fuel)
    (hs : s.registry.Regular T) (hm : s.registry.Moves id (.record r))
    (hn : ∀ t ∈ r.slots, s.registry.schema.Needs T t) (hr : AtValue s.stream)
    (hf : s.stream.Faces j rest) (he : Enough (fuel + 1) T s 1) :
    Blaming (fun id f => j.Lacks s.registry.schema id f (.record r.id)) (do
      onReader Reader.enterObject
      let values ← readMembers fuel id r r.unassigned
      onReader Reader.leaveObject
      match r.ofMembers values with
      | .ok v => return some v
      | .error e => AdapterM.fail e : AdapterM Reader (Option Value)) s := by
  have hfind : s.registry.schema.find? r.id = some r := hm.fits hs.valid
  refine .step fun _ r₁ henter => ?_
  obtain ⟨ms, rfl, hb, hf₁⟩ := hr.enterObject_faces hf henter
  have he₁ : Enough fuel T (s.at r₁) (s.registry.schema.nesting T + 3) :=
    he.pass rfl (hr.enterObject_rest henter) (by omega)
  refine .bind ((h.members (s := s.at r₁) hs hm hn hb hf₁ he₁).mono fun id f hmember => ?_)
    fun values s₂ hread => .step fun _ r₃ _ => ?_
  · obtain ⟨m, hmem, x, hx, hlacks⟩ := hmember
    exact .member hfind hmem hx hlacks
  -- all members were read, and what they stand for is noted down
  · obtain ⟨-, -, ns, hns, hmeans⟩ := of_answered
      (((readsAt_regular T fuel).members (s := s.at r₁) hs.valid hm hn hb he₁).ok hread) hs
    obtain ⟨rfl, -⟩ := Reader.PassesMembers.of_faces hns hb hf₁
    obtain ⟨as, has, rfl⟩ := Option.map_eq_some_iff.1 hmeans
    cases ho : r.ofMembers (as.foldl assign r.unassigned) with
    | ok v => exact .pure _
    | error e =>
      have hdefault (d : DefaultInstance) (hd : r.default = some d) :
          d.fields.length = r.fields.length := hs.sound r.id r d hfind hd
      obtain ⟨i, f, hfield, hnone, rfl⟩ := Record.ofMembers_eq_error hdefault ho
      obtain ⟨hrequires, hi⟩ := Record.requires_of_fieldValue hfield hdefault hnone
      rw [Tree.decodeMembers_positions has] at hi
      exact .of_error rfl ⟨r.id, f, rfl, rfl, .field hfind hrequires hi⟩

/-- A vector is read from an array of its items. -/
theorem readVec_blames (h : BlamesAt T fuel) (hs : s.registry.Regular T)
    (hm : s.registry.Moves id (.vec t)) (hn : s.registry.schema.Needs T t) (hr : AtValue s.stream)
    (hf : s.stream.Faces j rest) (he : Enough (fuel + 1) T s 1) :
    Blaming (fun id f => j.Lacks s.registry.schema id f (.vec t)) (do
      onReader Reader.enterArray
      let items ← readItems fuel id t
      onReader Reader.leaveArray
      return some (.vec items) : AdapterM Reader (Option Value)) s := by
  refine .step fun _ r₁ henter => ?_
  obtain ⟨js, rfl, hb, hf₁⟩ := hr.enterArray_faces hf henter
  have he₁ : Enough fuel T (s.at r₁) (s.registry.schema.nesting T + 2) :=
    he.pass rfl (hr.enterArray_rest henter) (by omega)
  refine .bind ((h.items (s := s.at r₁) hs hm (List.mem_singleton.2 rfl) hn hb hf₁ he₁).mono
    fun id f hitem => ?_) fun items s₂ _ => .step fun _ _ _ => .pure _
  obtain ⟨k, hk, hlacks⟩ := hitem
  exact .item hk hlacks

/-- A map is read from an object of its entries. -/
theorem readMap_blames {u : Ty} (h : BlamesAt T fuel) (hs : s.registry.Regular T)
    (hm : s.registry.Moves id c) (ht : t ∈ c.parts) (hu : u = .hashMap t ∨ u = .treeMap t)
    (hn : s.registry.schema.Needs T t) (hr : AtValue s.stream) (hf : s.stream.Faces j rest)
    (he : Enough (fuel + 1) T s 1) :
    Blaming (fun id f => j.Lacks s.registry.schema id f u) (do
      onReader Reader.enterObject
      let entries ← readEntries fuel id t []
      onReader Reader.leaveObject
      return some (.map entries) : AdapterM Reader (Option Value)) s := by
  refine .step fun _ r₁ henter => ?_
  obtain ⟨ms, rfl, hb, hf₁⟩ := hr.enterObject_faces hf henter
  have he₁ : Enough fuel T (s.at r₁) (s.registry.schema.nesting T + 2) :=
    he.pass rfl (hr.enterObject_rest henter) (by omega)
  refine .bind ((h.entries (s := s.at r₁) hs hm ht hn hb hf₁ he₁).mono fun id f hentry => ?_)
    fun entries s₂ _ => .step fun _ _ _ => .pure _
  obtain ⟨m, hmem, hlacks⟩ := hentry
  exact .entry hu hmem hlacks

/-- The adapter of a part, at the value that its owner is at. -/
theorem readInner_blames {inner : AdapterId} (h : BlamesAt T fuel)
    (hn : s.registry.schema.Needs T t) (hstream : s₁.stream = s.stream)
    (hs : s₁.registry.Regular T) (hg : Grows s.registry s₁.registry)
    (hserves : s₁.registry.serves inner t = true) (hr : AtValue s.stream)
    (hf : s.stream.Faces j rest) (he : Enough (fuel + 1) T s (t.depth + 2)) :
    Blaming (fun id f => j.Lacks s.registry.schema id f t) (JsonAdapters.read fuel inner) s₁ := by
  have hvalue := h.value hs hserves (hg.schema ▸ hn) (by rwa [hstream]) (by rwa [hstream])
    (he.call hg.schema (hstream ▸ Nat.le_refl _) (Nat.lt_succ_self _))
  rwa [hg.schema] at hvalue

/-- An optional value is read as its content. -/
theorem readOption_blames (h : BlamesAt T fuel) (hs : s.registry.Regular T)
    (hm : s.registry.Moves id (.option t)) (hn : s.registry.schema.Needs T t)
    (hr : AtValue s.stream) (hf : s.stream.Faces j rest) (hnull : j.kind ≠ .null)
    (he : Enough (fuel + 1) T s (t.depth + 2)) :
    Blaming (fun id f => j.Lacks s.registry.schema id f (.option t)) (do
      let inner ← onRegistry (Registry.part id t)
      match ← JsonAdapters.read fuel inner with
      | some v => return some (.just v)
      | none => return some .nothing : AdapterM Reader (Option Value)) s := by
  refine .part hs hm (List.mem_singleton.2 rfl) fun inner s₁ hstream hs₁ hg hserves =>
    .bind ((h.readInner_blames hn hstream hs₁ hg hserves hr hf he).mono fun id f hlacks => ?_)
      fun o s₂ _ => ?_
  · refine .part (x := (t, j)) ?_ hlacks
    rw [Tree.parts, if_neg hnull]
    exact List.mem_singleton.2 rfl
  · cases o with
    | none => exact .pure _
    | some v => exact .pure _

/-- A boxed value is read as its content. -/
theorem readBox_blames (h : BlamesAt T fuel) (hs : s.registry.Regular T)
    (hm : s.registry.Moves id (.box t)) (hn : s.registry.schema.Needs T t) (hr : AtValue s.stream)
    (hf : s.stream.Faces j rest) (he : Enough (fuel + 1) T s (t.depth + 2)) :
    Blaming (fun id f => j.Lacks s.registry.schema id f (.box t)) (do
      let inner ← onRegistry (Registry.part id t)
      let v ← JsonAdapters.read fuel inner
      return v.map .box : AdapterM Reader (Option Value)) s :=
  .part hs hm (List.mem_singleton.2 rfl) fun _ _ hstream hs₁ hg hserves =>
    .bind ((h.readInner_blames hn hstream hs₁ hg hserves hr hf he).mono fun _ _ hlacks =>
      .part (List.mem_singleton.2 rfl) hlacks) fun _ _ _ => .pure _

/-- Adapters of all kinds report a missing field only if it is lacking in what they read. -/
theorem read_blames (h : BlamesAt T fuel) (hs : s.registry.Regular T)
    (hserves : s.registry.serves id t = true) (hn : s.registry.schema.Needs T t)
    (hr : AtValue s.stream) (hf : s.stream.Faces j rest)
    (he : Enough (fuel + 1) T s (t.depth + 1)) :
    Blaming (fun id f => j.Lacks s.registry.schema id f t) (JsonAdapters.read (fuel + 1) id) s := by
  obtain ⟨a, ha, rfl⟩ := Registry.serves_iff.1 hserves
  have hm : s.registry.Moves id a.codec := ⟨a, ha, rfl⟩
  have hfits := hm.fits hs.valid
  have hparts (u : Ty) (hu : u ∈ a.codec.parts) : s.registry.schema.Needs T u :=
    .part hn (hfits.parts_subset hu)
  -- after a look for `null` there is as much fuel for what is left
  have hstay {r : Reader} (hle : r.rest.length ≤ s.stream.rest.length) :
      Enough (fuel + 1) T (s.at r) (a.codec.serves.depth + 1) :=
    he.stay rfl hle
  rw [JsonAdapters.read]
  refine .congr (bind_of_ok (codecOf_moves hm)) ?_
  cases hc : a.codec with
  | scalar c => exact Scalar.read_blames c
  | custom c => exact Blaming.onReader _
  | vec u =>
    rw [hc] at hm hparts hstay
    exact Blaming.unlessNull hr hf fun r hr hf _ hle => h.readVec_blames (s := s.at r) hs hm
      (hparts u (List.mem_singleton.2 rfl)) hr hf ((hstay hle).mono (Nat.le_add_left ..))
  | hashMap u | treeMap u =>
    rw [hc] at hm hparts hstay
    have hu := List.mem_singleton.2 (Eq.refl u)
    exact Blaming.unlessNull hr hf fun r hr hf _ hle => h.readMap_blames (s := s.at r) hs hm hu
      (by simp [Codec.serves]) (hparts u hu) hr hf ((hstay hle).mono (Nat.le_add_left ..))
  | option u =>
    rw [hc] at hm hparts hstay
    exact Blaming.unlessNull hr hf fun r hr hf hnull hle => h.readOption_blames (s := s.at r) hs hm
      (hparts u (List.mem_singleton.2 rfl)) hr hf hnull (hstay hle)
  | box u =>
    rw [hc] at hm hparts he
    exact h.readBox_blames hs hm (hparts u (List.mem_singleton.2 rfl)) hr hf he
  | record r =>
    rw [hc] at hm hparts hstay
    exact Blaming.unlessNull hr hf fun r hr hf _ hle => h.readRecord_blames (s := s.at r) hs hm
      hparts hr hf ((hstay hle).mono (Nat.le_add_left ..))

end BlamesAt

/-- Any amount of fuel is good for what it should buy. -/
theorem blamesAt (T : Ty) : ∀ fuel, BlamesAt T fuel
  | 0 =>
    ⟨fun _ _ _ _ _ he => absurd he not_enough_zero, fun _ _ _ _ _ _ he => absurd he not_enough_zero,
      fun _ _ _ _ _ _ he => absurd he not_enough_zero,
      fun _ _ _ _ _ he => absurd he not_enough_zero,
      fun _ _ _ _ _ _ _ he => absurd he not_enough_zero⟩
  | fuel + 1 => by
    have h := blamesAt T fuel
    exact ⟨h.read_blames, h.readItems_blames, h.readEntries_blames, h.readMembers_blames,
      fun _ _ => h.readMember_blames⟩

/-- A field that is reported as missing when a document is read is lacking in the document. -/
theorem readDocument_blames {r : Registry} {source : Json.Source} (hs : r.Regular T)
    (hj : Json.IsDocument j source.chars) (hfinished : source.ending = .finished) :
    Blaming (fun id f => j.Lacks r.schema id f T) (readDocument T)
      ⟨r, Reader.ofSource source⟩ := by
  obtain ⟨rest, hf⟩ := Reader.faces_ofSource hj hfinished
  have hrequest := hs.valid.adapter_ends T
  refine .request (fun id r₁ ha => ?_) fun e r₁ ha => (hrequest.error ha).ofRequest
  have hobtained := hrequest.ok ha
  have hS := hobtained.grows.schema
  have hread := (blamesAt T _).value (s := ⟨r₁, Reader.ofSource source⟩)
    ⟨hobtained.valid, hS ▸ hs.sound⟩ hobtained.serves .self (Reader.ofSource_atValue source) hf
    (enough_readFuel T _)
  exact .bind (.congr (get_bind_run _) (hread.mono fun id f h => hS ▸ h)) fun v s₁ _ =>
    .step fun _ _ _ => .pure v

end JsonAdapters
