import JsonAdapters.Proofs.Adapter.Members
import JsonAdapters.Proofs.Adapter.Refining

/-!
# What adapters read

Every adapter, started where a value is due, passes one value and answers with what the value stands
for, or fails because there is none. Adapters call each other in a circle, so this is one induction
on fuel over all that an adapter does: it reads values, the items of an array, the entries of a map,
and the members of a record.

## Main definitions

* `CustomCodec.ReadsLawfully`: what is asked of adapters that are not generated.
* `ReadsAt`: what one unit of fuel after the other has to buy.

## Main statements

* `read_refines`: one value, with enough fuel.
* `readWith_refines`: the fuel that a document gets is enough.

## Design notes

Fuel is counted in units of `Schema.nesting + 3` for each character that is left. A character pays
for the step into a container or to its next part, and for the types that are nested in a part.
-/

namespace JsonAdapters

open Json (Reader Tree ReadM)
open Json.Reader (AtValue BeforeItem BeforeName Passes PassesItems PassesMembers)
open Outcome
open Registry (Grows Valid)

/-- The codec passes one value, or has not to answer for the failure. -/
def CustomCodec.ReadsLawfully (c : CustomCodec) : Prop :=
  ∀ r, AtValue r → Ends c.read r (fun _ r' => ∃ j, Passes j r r') (fun e _ => Json.Innocent e)

/-- Nothing is asked of codecs for types that are not needed. -/
theorem Schema.readsLawfully_of_unneeded {T : Ty} (S : Schema) (c : CustomCodec)
    (h : ¬S.Needs T c.serves) (h' : S.Needs T c.serves) : c.ReadsLawfully := absurd h' h

variable {P : Schema → CustomCodec → Prop} {T t : Ty} {s s₁ : Session Reader} {S : Schema}

/-! ## Adapters in place -/

/-- The adapter moves values with the codec. -/
def Registry.Moves (r : Registry) (id : AdapterId) (c : Codec) : Prop :=
  ∃ a, r.adapters[id]? = some a ∧ a.codec = c

namespace Registry

variable {r r' : Registry} {id : AdapterId} {c : Codec}

/-- The codec that serves a type. -/
theorem exists_moves (h : r.serves id t = true) : ∃ c, r.Moves id c ∧ c.serves = t := by
  obtain ⟨a, ha, hserves⟩ := serves_iff.1 h
  exact ⟨a.codec, ⟨a, ha, rfl⟩, hserves⟩

theorem Moves.grows (h : r.Moves id c) (hg : Grows r r') : r'.Moves id c := by
  obtain ⟨a, ha, rfl⟩ := h
  obtain ⟨a', ha', hc⟩ := hg.codec id a ha
  exact ⟨a', ha', hc⟩

theorem Moves.fits (h : r.Moves id c) (hv : r.Valid P) : c.Fits r.schema P := by
  obtain ⟨a, ha, rfl⟩ := h
  exact (hv.adapters id a ha).fits

end Registry

theorem codecOf_moves {σ : Type} {s : Session σ} {id : AdapterId} {c : Codec}
    (h : s.registry.Moves id c) : codecOf id s = .ok c s := by
  obtain ⟨a, ha, rfl⟩ := h
  exact codecOf_eq ha

/-- Where a codec is at work, a part is read by the adapter of the part, and counts in another
form. -/
theorem Refines.ofPart {β : Type} {R : Passage Tree β} {id : AdapterId} {c : Codec}
    {x : AdapterId → AdapterM Reader (Option Value)} {f : Option Value → AdapterM Reader β}
    (g : Option Value → Option β) (hv : s₁.registry.Valid P) (hg : Grows s.registry s₁.registry)
    (hm : s₁.registry.Moves id c) (ht : t ∈ c.parts)
    (hpasses : ∀ j r, R.passes j s.stream r ↔ Passes j s₁.stream r)
    (hsupported : ∀ j, R.supported j → j.Supported)
    (hmeans : ∀ j r, R.passes j s.stream r →
      R.means s.registry.schema j = (j.decode s.registry.schema t).bind g)
    (hasks : ∀ j r, R.passes j s.stream r →
      (R.Open s.registry j ↔ s.registry.Answers t ∧ (Passage.value t).Open s.registry j))
    (hx : ∀ inner s₂, s₂.stream = s₁.stream → s₂.registry.Valid P →
      Grows s₁.registry s₂.registry → s₂.registry.serves inner t = true →
      Refines P T (.value t) s₂ (x inner) s₂)
    (hf : ∀ o s', Ends (f o) s' (fun b s'' => s'' = s' ∧ g o = some b)
      (fun e s'' => s'' = s' ∧ e.Innocent s''.registry ∧ g o = none)) :
    Refines P T R s (onRegistry (Registry.part id t) >>= fun inner => x inner >>= f) s₁ := by
  obtain ⟨a, ha, rfl⟩ := hm
  refine .part hv hg ha ht (fun j r hj ho => ((hasks j r hj).1 ho).1)
    fun inner s₂ hstream hv₂ hg₂ hs₂ hanswers => ?_
  -- asking for the part leaves the stream as it is
  have hiff (j : Tree) (r : Reader) : R.passes j s.stream r ↔ Passes j s₂.stream r := by
    rw [hstream]
    exact hpasses j r
  exact (hx inner s₂ hstream hv₂ hg₂ hs₂).andThen g (hg.trans hg₂) hiff
    (fun j k a b hj hk => (hj.unique hk).1) (fun j _ _ => hsupported j)
    (fun j r hj => hmeans j r ((hiff j r).2 hj))
    (fun j r hj ho => ((hasks j r ((hiff j r).2 hj)).1 ho).2)
    (fun hr j r hj ho => (hasks j r ((hiff j r).2 hj)).2 ⟨hanswers hr, ho⟩) hf

/-! ## Fuel -/

/-- How many types are nested in a type, at most, among `T` and the types of fields. -/
def Schema.nesting (S : Schema) (T : Ty) : Nat := max S.depth T.depth

theorem le_foldl_max {α : Type} (f : α → Nat) (as : List α) (n : Nat) :
    n ≤ as.foldl (fun n a => max n (f a)) n ∧
      ∀ a ∈ as, f a ≤ as.foldl (fun n a => max n (f a)) n := by
  induction as generalizing n with
  | nil => exact ⟨Nat.le_refl _, nofun⟩
  | cons a as ih =>
    obtain ⟨hn, has⟩ := ih (max n (f a))
    refine ⟨Nat.le_trans (Nat.le_max_left ..) hn, fun b hb => ?_⟩
    obtain rfl | hb := List.mem_cons.1 hb
    · exact Nat.le_trans (Nat.le_max_right ..) hn
    · exact has b hb

theorem Schema.depth_field {r : Record} {f : Field} (hr : r ∈ S.records) (hf : f ∈ r.fields) :
    f.type.depth ≤ S.depth := by
  -- from the depth that was found in the records so far
  have hgo (rs : List Record) (n : Nat) :
      n ≤ rs.foldl (fun n r => r.fields.foldl (fun n f => max n f.type.depth) n) n ∧
        (r ∈ rs → f.type.depth ≤
          rs.foldl (fun n r => r.fields.foldl (fun n f => max n f.type.depth) n) n) := by
    induction rs generalizing n with
    | nil => exact ⟨Nat.le_refl _, nofun⟩
    | cons r' rs ih =>
      obtain ⟨hn, hfields⟩ := le_foldl_max (fun f => f.type.depth) r'.fields n
      obtain ⟨hrest, hmem⟩ := ih (r'.fields.foldl (fun n f => max n f.type.depth) n)
      refine ⟨Nat.le_trans hn hrest, fun hr => ?_⟩
      obtain rfl | hr := List.mem_cons.1 hr
      · exact Nat.le_trans (hfields f hf) hrest
      · exact hmem hr
  exact (hgo S.records 1).2 hr

/-- No part of a type, nor a part of a part, nests more types. -/
theorem Schema.Needs.depth_le (h : S.Needs T t) : t.depth ≤ S.nesting T := by
  induction h with
  | self => exact Nat.le_max_right ..
  | @part u v _ hv ih =>
    cases u with
    | scalar => cases hv
    | vec | option | box | hashMap | treeMap =>
      obtain rfl := List.mem_singleton.1 hv
      exact Nat.le_of_succ_le ih
    | record id =>
      rw [Ty.parts] at hv
      cases hr : S.find? id with
      | none =>
        rw [hr] at hv
        cases hv
      | some r =>
        rw [hr] at hv
        obtain ⟨f, hf, rfl⟩ := Record.mem_slots.1 hv
        exact Nat.le_trans (depth_field (List.mem_of_find?_eq_some hr) hf) (Nat.le_max_left ..)

/-- So much fuel is left that, next to `extra`, every character is paid for. -/
def Enough (fuel : Nat) (T : Ty) (s : Session Reader) (extra : Nat) : Prop :=
  s.stream.rest.length * (s.registry.schema.nesting T + 3) + extra ≤ fuel

theorem Enough.mono {fuel extra extra' : Nat} (h : Enough fuel T s extra) (he : extra' ≤ extra) :
    Enough fuel T s extra' :=
  Nat.le_trans (Nat.add_le_add_left he _) h

theorem not_enough_zero {extra : Nat} : ¬Enough 0 T s (extra + 1) := by
  unfold Enough
  omega

/-- As long as nothing is called, there is as much to spare for what is left. -/
theorem Enough.stay {fuel extra : Nat} (h : Enough fuel T s extra)
    (hS : s₁.registry.schema = s.registry.schema)
    (hrest : s₁.stream.rest.length ≤ s.stream.rest.length) : Enough fuel T s₁ extra := by
  have hmul := Nat.mul_le_mul_right (s.registry.schema.nesting T + 3) hrest
  unfold Enough at h ⊢
  rw [hS]
  omega

/-- A call is paid by what was kept aside. -/
theorem Enough.call {fuel extra extra' : Nat} (h : Enough (fuel + 1) T s extra)
    (hS : s₁.registry.schema = s.registry.schema)
    (hrest : s₁.stream.rest.length ≤ s.stream.rest.length) (he : extra' < extra) :
    Enough fuel T s₁ extra' := by
  have hstay := h.stay hS hrest
  unfold Enough at hstay ⊢
  omega

/-- A call is paid by the character that was passed before it. -/
theorem Enough.pass {fuel extra extra' : Nat} (h : Enough (fuel + 1) T s extra)
    (hS : s₁.registry.schema = s.registry.schema)
    (hrest : s₁.stream.rest.length < s.stream.rest.length)
    (he : extra' < extra + (s.registry.schema.nesting T + 3)) : Enough fuel T s₁ extra' := by
  have hmul := Nat.mul_le_mul_right (s.registry.schema.nesting T + 3) (Nat.succ_le_of_lt hrest)
  rw [Nat.succ_mul] at hmul
  unfold Enough at h ⊢
  rw [hS]
  omega

/-- Behind a part that was passed there is as much to spare for what is left. -/
theorem Enough.next {fuel n : Nat} (h : Enough (fuel + 1) T s (s.registry.schema.nesting T + n))
    (hS : s₁.registry.schema = s.registry.schema)
    (hrest : s₁.stream.rest.length < s.stream.rest.length) :
    Enough fuel T s₁ (s₁.registry.schema.nesting T + n) := by
  refine h.pass hS hrest ?_
  rw [hS]
  exact Nat.lt_add_of_pos_right (Nat.succ_pos _)

/-! ## Scalars -/

/-- A step that passes values of one kind, answering with what they hold. -/
theorem Refines.ofStep {α : Type} (mk : α → Tree) (step : ReadM α) (hv : s.registry.Valid P)
    (hstep : ∀ a r, step s.stream = .ok a r ↔ Passes (mk a) s.stream r ∧ (mk a).Supported)
    (herror : ∀ e r, step s.stream = .error e r → Json.Innocent e) :
    Refines P T ⟨fun a => Passes (mk a), fun a => (mk a).Supported, fun _ a => some a,
      fun _ _ _ => True⟩ s (onReader step) s := by
  cases hs : step s.stream with
  | ok a r =>
    have hrun : onReader step s = .ok a (s.at r) := by
      simp only [onReader, hs]
      rfl
    exact .of_ok hrun ⟨hv, .refl _, a, ((hstep a r).1 hs).1, fun _ => ⟨rfl, fun _ => trivial⟩⟩
  | error e r =>
    have hrun : onReader step s = .error (.ofRead e) (s.at r) := by
      simp only [onReader, hs]
      rfl
    refine .of_error hrun (failed_of_read hv (.refl _) (herror e r hs) fun a r' ha ha' => ?_)
    cases hs.symm.trans ((hstep a r').2 ⟨ha, ha'⟩)

/-- An answer that is always there. -/
theorem ends_pure_some {α : Type} {g : α → Option Value} {v : Value} {a : α} (h : g a = some v) :
    Ends (pure (some v) : AdapterM Reader (Option Value)) s
      (fun o s' => s' = s ∧ ∃ w, o = some w ∧ g a = some w)
      (fun e s' => s' = s ∧ e.Innocent s'.registry ∧ g a = none) :=
  .pure ⟨rfl, v, rfl, h⟩

/-- The number of a text, or an error of the adapter. -/
theorem Scalar.ends_ofNumber (c : Scalar) (text : String) : Ends
    ((match c.ofNumber? text with
      | some v => pure v
      | none => AdapterM.fail (.invalidNumber text c.path)) >>= fun v => pure (some v) :
      AdapterM Reader (Option Value)) s
    (fun o s' => s' = s ∧ ∃ w, o = some w ∧ c.ofNumber? text = some w)
    (fun e s' => s' = s ∧ e.Innocent s'.registry ∧ c.ofNumber? text = none) := by
  cases h : c.ofNumber? text with
  | some v => exact .of_ok rfl ⟨rfl, v, rfl, rfl⟩
  | none => exact .of_error rfl ⟨rfl, trivial, rfl⟩

theorem Scalar.readNumber_refines (c : Scalar) (hc : (Ty.scalar c).kind? = some .number)
    (hn : NotNull s s₁) (hv : s₁.registry.Valid P) :
    Refines P T (.value (.scalar c)) s (do return some (← c.readNumber)) s₁ := by
  have hx := Refines.ofStep (P := P) (T := T) .number Reader.number hv
    (fun b r => Reader.number_eq_ok_iff) fun e r => hn.atValue.number_innocent
  simp only [readNumber, bind_assoc]
  exact .ofKind (g := c.ofNumber?) hn hx (fun _ _ _ => Iff.rfl) (fun _ _ h => Tree.number.inj h)
    (fun _ h => h) (fun _ _ => rfl) (fun _ => iff_true_intro (Tree.asksOnly_scalar c)) hc
    (fun _ hj => Tree.kind_eq_iff.1 hj) fun text s' => ends_ofNumber c text

/-- A scalar reads what a value of its kind stands for. -/
theorem Scalar.read_refines (c : Scalar) (hv : s.registry.Valid P) (h : AtValue s.stream) :
    Refines P T (.value (.scalar c)) s c.read s := by
  refine .unlessNull (fun _ _ _ => Iff.rfl) hv h rfl (Tree.asksOnly_scalar c) fun s₁ hn => ?_
  have hv₁ : s₁.registry.Valid P := hn.registry ▸ hv
  -- scalars ask for no adapter
  have hopen (j : Tree) : (Passage.value (.scalar c)).Open s.registry j ↔ True :=
    iff_true_intro (Tree.asksOnly_scalar c)
  cases hc : c with
  | bool =>
    have hx := Refines.ofStep (P := P) (T := T) .bool Reader.bool hv₁
      (fun b r => ⟨fun hs => ⟨hs, trivial⟩, fun hs => hs.1⟩) fun e r => hn.atValue.bool_innocent
    exact .ofKind hn hx (fun _ _ _ => Iff.rfl) (fun _ _ h => Tree.bool.inj h) (fun _ h => h)
      (fun _ _ => rfl) (fun _ => hc ▸ hopen _) rfl (fun _ hj => Tree.kind_eq_iff.1 hj)
      fun b s' => ends_pure_some rfl
  | string =>
    have hx := Refines.ofStep (P := P) (T := T) .string Reader.string hv₁
      (fun b r => ⟨fun hs => ⟨hs, trivial⟩, fun hs => hs.1⟩) fun e r => hn.atValue.string_innocent
    exact .ofKind hn hx (fun _ _ _ => Iff.rfl) (fun _ _ h => Tree.string.inj h) (fun _ h => h)
      (fun _ _ => rfl) (fun _ => hc ▸ hopen _) rfl (fun _ hj => Tree.kind_eq_iff.1 hj)
      fun b s' => ends_pure_some rfl
  | signed | unsigned | single | double => exact readNumber_refines _ rfl hn hv₁

/-! ## Parts of values -/

/-- Reading a value that must be present. -/
def Passage.present (t : Ty) : Passage Tree Value :=
  ⟨Passes, Tree.Supported, fun S j => (j.decode S t).join,
    fun p S j => p t ∧ Tree.AsksOnly p S t j⟩

/-- Reading the rest of an array. -/
def Passage.items (t : Ty) : Passage (List Tree) (List Value) :=
  ⟨PassesItems, Tree.SupportedItems, fun S js => Tree.decodeItems S js t,
    fun p S js => ∀ j ∈ js, p t ∧ Tree.AsksOnly p S t j⟩

/-- Reading the rest of an object as a map, after some entries. -/
def Passage.entries (t : Ty) (entries : List (String × Value)) :
    Passage (List (String × Tree)) (List (String × Value)) :=
  ⟨PassesMembers, Tree.SupportedMembers, fun S ms =>
    (Tree.decodeEntries S ms t).map fun es =>
      es.foldl (fun m e => Value.putEntry e.1 e.2 m) entries,
    fun p S ms => ∀ m ∈ ms, p t ∧ Tree.AsksOnly p S t m.2⟩

/-- Reading the rest of an object as members of a record, after some members. -/
def Passage.members (r : Record) (values : Assignments) :
    Passage (List (String × Tree)) Assignments :=
  ⟨PassesMembers, Tree.SupportedMembers, fun S ms =>
    (Tree.decodeMembers S ms r).map fun as => as.foldl assign values,
    fun p S ms => ∀ m ∈ ms, ∀ x, r.counted? m = some x → p x.2 ∧ Tree.AsksOnly p S x.2 m.2⟩

/-- Reading the value of one member of a record. -/
def Passage.member (r : Record) (name : String) (values : Assignments) :
    Passage Tree Assignments :=
  ⟨Passes, Tree.Supported, fun S j =>
    (Tree.decodeMembers S [(name, j)] r).map fun as => as.foldl assign values,
    fun p S j => ∀ x, r.counted? (name, j) = some x → p x.2 ∧ Tree.AsksOnly p S x.2 j⟩

/-- What an amount of fuel is good for, with registries that admit `P`, on the way to values of type
`T`. -/
structure ReadsAt (P : Schema → CustomCodec → Prop) (T : Ty) (fuel : Nat) : Prop where
  value {s : Session Reader} {id : AdapterId} {t : Ty} : s.registry.Valid P →
    s.registry.serves id t = true → s.registry.schema.Needs T t → AtValue s.stream →
    Enough fuel T s (t.depth + 1) → Refines P T (.value t) s (read fuel id) s
  items {s : Session Reader} {id : AdapterId} {c : Codec} {t : Ty} : s.registry.Valid P →
    s.registry.Moves id c → t ∈ c.parts → s.registry.schema.Needs T t → BeforeItem s.stream →
    Enough fuel T s (s.registry.schema.nesting T + 2) →
    Refines P T (.items t) s (readItems fuel id t) s
  entries {s : Session Reader} {id : AdapterId} {c : Codec} {t : Ty}
    {m : List (String × Value)} : s.registry.Valid P → s.registry.Moves id c → t ∈ c.parts →
    s.registry.schema.Needs T t → BeforeName s.stream →
    Enough fuel T s (s.registry.schema.nesting T + 2) →
    Refines P T (.entries t m) s (readEntries fuel id t m) s
  members {s : Session Reader} {id : AdapterId} {r : Record} {values : Assignments} :
    s.registry.Valid P → s.registry.Moves id (.record r) →
    (∀ t ∈ r.slots, s.registry.schema.Needs T t) → BeforeName s.stream →
    Enough fuel T s (s.registry.schema.nesting T + 3) →
    Refines P T (.members r values) s (readMembers fuel id r values) s
  member {s : Session Reader} {id : AdapterId} {r : Record} (name : String)
    (values : Assignments) : s.registry.Valid P → s.registry.Moves id (.record r) →
    (∀ t ∈ r.slots, s.registry.schema.Needs T t) → AtValue s.stream →
    Enough fuel T s (s.registry.schema.nesting T + 2) →
    Refines P T (.member r name values) s (readMember fuel id r name values) s

namespace ReadsAt

variable {fuel : Nat} {id : AdapterId} {c : Codec}

theorem requirePresent_ends (o : Option Value) : Ends (requirePresent t o) s
    (fun v s' => s' = s ∧ o = some v) (fun e s' => s' = s ∧ e.Innocent s'.registry ∧ o = none) := by
  cases o with
  | some v => exact .of_ok rfl ⟨rfl, rfl⟩
  | none => exact .of_error rfl ⟨rfl, trivial, rfl⟩

/-- A part that must be present is read by the adapter of the part. -/
theorem present (h : ReadsAt P T fuel) (hv : s.registry.Valid P) (hm : s.registry.Moves id c)
    (ht : t ∈ c.parts) (hn : s.registry.schema.Needs T t) (hr : AtValue s.stream)
    (he : Enough fuel T s (t.depth + 1)) :
    Refines P T (.present t) s (do
      let inner ← onRegistry (Registry.part id t)
      requirePresent t (← read fuel inner)) s := by
  refine .ofPart (fun o => o) hv (.refl _) hm ht (fun _ _ => Iff.rfl) (fun _ h => h)
    (fun _ _ _ => rfl) (fun _ _ _ => Iff.rfl) (fun inner s₂ hstream hv₂ hg₂ hs₂ => ?_)
    fun o s' => requirePresent_ends o
  exact h.value hv₂ hs₂ (hg₂.schema ▸ hn) (hstream ▸ hr)
    (he.stay hg₂.schema (hstream ▸ Nat.le_refl _))

/-- One more item of an array, or its end. -/
theorem readItems_refines (h : ReadsAt P T fuel) (hv : s.registry.Valid P)
    (hm : s.registry.Moves id c) (ht : t ∈ c.parts) (hn : s.registry.schema.Needs T t)
    (hb : BeforeItem s.stream) (he : Enough (fuel + 1) T s (s.registry.schema.nesting T + 2)) :
    Refines P T (.items t) s (readItems (fuel + 1) id t) s := by
  rw [readItems]
  refine .step (fun b r hmore => ?_) fun e r hmore => ?_
  · cases b with
    | false => exact .pure ⟨hv, .refl _, [], hmore, fun _ => ⟨rfl, fun _ => List.forall_mem_nil _⟩⟩
    | true =>
      obtain ⟨lead, rest, hrest, -, hr, p, m, hrm⟩ := hb.more_sound hmore
      have harray : r.inArray = true := by
        rw [hrm]
        exact hb.inArray
      have hle : r.rest.length ≤ s.stream.rest.length := by
        simp [hrm, hrest, Reader.seen]
      -- the call for the item was paid before; the item pays for the rest of the array
      have hitem := h.present (s := s.at r) hv hm ht hn hr (he.call rfl hle (by
        have := hn.depth_le
        omega))
      have hitems := Refines.seq (s := s) (R := .items t) (fun j js => j :: js) PassesItems
        Tree.SupportedItems (fun v S js => (Tree.decodeItems S js t).map (v :: ·))
        (Passage.items t).asksOnly
        (f := fun v => readItems fuel id t >>= fun vs => pure (v :: vs)) hitem (.refl _)
        (fun v s₂ ha => ?_) (fun j k a b => Reader.Passes.unique) (fun js r' => ?_)
        (fun j js h => h) (fun S j js => ?_) fun _ _ _ _ => List.forall_mem_cons
      · simpa only [if_true, bind_assoc] using hitems
      · obtain ⟨j, hj, -⟩ := ha.passed
        have hS := ha.grows.schema
        refine (h.items ha.valid (hm.grows ha.grows) ht (hS ▸ hn) (hj.beforeItem hr harray).1
          ?_).andThen (fun vs => some (v :: vs)) (.refl _) (fun _ _ => Iff.rfl)
          (fun y z a b hy hz => (hy.unique hz).1) (fun _ _ _ h => h) (fun _ _ _ => ?_)
          (fun _ _ _ h => h) (fun _ _ _ _ h => h) fun vs s' => .pure ⟨rfl, rfl⟩
        · exact he.next hS (Nat.lt_of_lt_of_le (hj.rest_lt hr) hle)
        · exact Option.map_eq_bind
      · exact Reader.passesItems_iff_of_more hmore
      · exact Tree.decodeItems_cons
  · refine failed_of_read hv (.refl _) (hb.more_innocent hmore) fun js r' hjs => ?_
    obtain ⟨r₁, hmore'⟩ := PassesItems.more hjs
    cases hmore.symm.trans hmore'

/-- One more entry of a map, or its end. -/
theorem readEntries_refines {m : List (String × Value)} (h : ReadsAt P T fuel)
    (hv : s.registry.Valid P) (hm : s.registry.Moves id c) (ht : t ∈ c.parts)
    (hn : s.registry.schema.Needs T t) (hb : BeforeName s.stream)
    (he : Enough (fuel + 1) T s (s.registry.schema.nesting T + 2)) :
    Refines P T (.entries t m) s (readEntries (fuel + 1) id t m) s := by
  rw [readEntries]
  refine .nextMember (fun _ _ _ => Iff.rfl) hv hb (fun key r hr hwithin hle hmembers => ?_)
    fun r hr => .pure ⟨hv, .refl _, [], hr, fun _ => ⟨rfl, fun _ => List.forall_mem_nil _⟩⟩
  obtain ⟨n, fs, hframes⟩ := hwithin
  have hvalue := h.present (s := s.at r) hv hm ht hn hr (he.call rfl hle (by
    have := hn.depth_le
    omega))
  -- the entries are this one, if its value is there, and those after it
  have hentries := Refines.seq (s := s) (R := .entries t m) (fun j ms => (key, j) :: ms)
    PassesMembers Tree.SupportedMembers
    (fun v S ms => (Tree.decodeEntries S ms t).map fun es =>
      es.foldl (fun m e => Value.putEntry e.1 e.2 m) (Value.putEntry key v m))
    (Passage.entries t m).asksOnly
    (f := fun v => readEntries fuel id t (Value.putEntry key v m)) hvalue (.refl _)
    (fun v s₂ ha => ?_) (fun j k a b => Reader.Passes.unique) hmembers (fun j ms h => h)
    (fun S j ms => ?_) fun _ _ _ _ => List.forall_mem_cons
  · simpa only [bind_assoc] using hentries
  · obtain ⟨j, hj, -⟩ := ha.passed
    have hS := ha.grows.schema
    exact h.entries ha.valid (hm.grows ha.grows) ht (hS ▸ hn)
      (hj.beforeName hr hframes).1 (he.next hS (Nat.lt_of_lt_of_le (hj.rest_lt hr) hle))
  · simp only [Passage.entries, Passage.present, Tree.decodeEntries_cons, Option.map_bind,
      Option.map_map, Function.comp_def, List.foldl_cons]

/-- One more member of a record, or its end. -/
theorem readMembers_refines {r : Record} {values : Assignments} (h : ReadsAt P T fuel)
    (hv : s.registry.Valid P) (hm : s.registry.Moves id (.record r))
    (hn : ∀ t ∈ r.slots, s.registry.schema.Needs T t) (hb : BeforeName s.stream)
    (he : Enough (fuel + 1) T s (s.registry.schema.nesting T + 3)) :
    Refines P T (.members r values) s (readMembers (fuel + 1) id r values) s := by
  rw [readMembers]
  refine .nextMember (fun _ _ _ => Iff.rfl) hv hb
    (fun key stream hr hwithin hle hmembers => ?_)
    fun r hr => .pure ⟨hv, .refl _, [], hr, fun _ => ⟨rfl, fun _ => List.forall_mem_nil _⟩⟩
  obtain ⟨n, fs, hframes⟩ := hwithin
  have hmember := h.member (s := s.at stream) key values hv hm hn hr
    (he.call rfl hle (Nat.lt_succ_self _))
  refine Refines.seq (s := s) (R := .members r values) (fun j ms => (key, j) :: ms) PassesMembers
    Tree.SupportedMembers
    (fun values S ms => (Tree.decodeMembers S ms r).map fun as => as.foldl assign values)
    (Passage.members r values).asksOnly hmember (.refl _) (fun values s₂ ha => ?_)
    (fun j k a b => Reader.Passes.unique) hmembers (fun j ms h => h) (fun S j ms => ?_)
    fun _ _ _ _ => List.forall_mem_cons
  · obtain ⟨j, hj, -⟩ := ha.passed
    have hS := ha.grows.schema
    exact h.members ha.valid (hm.grows ha.grows) (hS ▸ hn)
      (hj.beforeName hr hframes).1 (he.next hS (Nat.lt_of_lt_of_le (hj.rest_lt hr) hle))
  · change (Tree.decodeMembers S ((key, j) :: ms) r).map _ =
      ((Tree.decodeMembers S [(key, j)] r).map _).bind _
    rw [Tree.decodeMembers_cons]
    cases Tree.decodeMembers S [(key, j)] r with
    | none => rfl
    | some as => cases Tree.decodeMembers S ms r <;> simp

/-- A member for a field is read by the adapter of the field. -/
theorem readField_refines {s₁ : Session Reader} {r : Record} {name : String} {values : Assignments}
    {i : Nat} {f : Field} (h : ReadsAt P T fuel) (hs₁ : NotNull s s₁) (hv : s₁.registry.Valid P)
    (hm : s₁.registry.Moves id (.record r)) (hn : s.registry.schema.Needs T f.type)
    (hslot : f.type ∈ r.slots) (htarget : r.target? name = some (i, f.type))
    (he : Enough (fuel + 1) T s (s.registry.schema.nesting T + 2)) :
    Refines P T (.member r name values) s (do
      let inner ← onRegistry (Registry.part id f.type)
      let v ← read fuel inner
      return values.set i (some v)) s₁ := by
  have hg₁ := hs₁.grows
  have hn₁ : s₁.registry.schema.Needs T f.type := hs₁.registry ▸ hn
  refine .ofPart (fun o => some (values.set i (some o))) hv hg₁ hm hslot hs₁.passes (fun _ h => h)
    (fun j stream hj => ?_) (fun j stream hj => ?_) (fun inner s₂ hstream hv₂ hg₂ hs₂ => ?_)
    fun o s' => .pure ⟨rfl, rfl⟩
  · have hj := hs₁.kind j stream hj
    simp only [Passage.member, Tree.decodeMembers, hj, if_false, htarget]
    -- no value but `null` is read as the absent one
    cases hd : j.decode s.registry.schema f.type with
    | none => rfl
    | some o =>
      obtain ⟨w, rfl⟩ := Tree.decode_eq_some hj hd
      rfl
  · have hcounted : r.counted? (name, j) = some (i, f.type) := by
      rw [Record.counted?, if_neg (hs₁.kind j stream hj), htarget]
    simp [Passage.Open, Passage.member, Passage.value, hcounted]
  · refine h.value hv₂ hs₂ (hg₂.schema ▸ hn₁) (hstream ▸ hs₁.atValue)
      (he.call (hg₁.trans hg₂).schema ?_ ?_)
    · rw [hstream]
      exact hs₁.rest
    · have := hn.depth_le
      omega

/-- A member counts for its field, or not at all. -/
theorem readMember_refines {r : Record} {name : String} {values : Assignments}
    (h : ReadsAt P T fuel) (hv : s.registry.Valid P) (hm : s.registry.Moves id (.record r))
    (hn : ∀ t ∈ r.slots, s.registry.schema.Needs T t) (hr : AtValue s.stream)
    (he : Enough (fuel + 1) T s (s.registry.schema.nesting T + 2)) :
    Refines P T (.member r name values) s (readMember (fuel + 1) id r name values) s := by
  have hskip (hname : r.target? name = none) (j : Tree) :
      (Passage.member r name values).means s.registry.schema j = some values := by
    simp only [Passage.member, Tree.decodeMembers, hname]
    split <;> rfl
  have hunasked {j : Tree} (h : r.counted? (name, j) = none) :
      (Passage.member r name values).Open s.registry j := by
    intro x hx
    cases h.symm.trans hx
  have hcounted (hname : r.target? name = none) (j : Tree) : r.counted? (name, j) = none := by
    rw [Record.counted?, hname, ite_self]
  rw [readMember]
  -- members of a record without fields are not even looked at
  by_cases hempty : r.fields.isEmpty = true
  · have hname : r.target? name = none := by
      rw [Record.target?, Record.fieldIndex?, List.isEmpty_iff.1 hempty]
      rfl
    rw [if_pos hempty]
    exact .skip (fun _ _ _ => Iff.rfl) hv (.refl _) hr (fun _ _ => Iff.rfl)
      (fun j _ _ => hskip hname j) fun j _ _ => hunasked (hcounted hname j)
  · rw [if_neg hempty]
    refine .unlessNull (fun _ _ _ => Iff.rfl) hv hr rfl (hunasked rfl) fun s₁ hs₁ => ?_
    have hv₁ : s₁.registry.Valid P := hs₁.registry ▸ hv
    have hg₁ := hs₁.grows
    cases hi : r.fieldIndex? name with
    | none =>
      have hname : r.target? name = none := by
        rw [Record.target?, hi]
        rfl
      exact .skip (fun _ _ _ => Iff.rfl) hv₁ hg₁ hs₁.atValue hs₁.passes
        (fun j _ _ => hskip hname j) fun j _ _ => hunasked (hcounted hname j)
    | some i =>
      obtain ⟨f, hf⟩ : ∃ f, r.fields[i]? = some f := by
        obtain ⟨hlt, -⟩ := List.findIdx?_eq_some_iff_getElem.1 hi
        exact ⟨_, List.getElem?_eq_getElem hlt⟩
      have hslot : f.type ∈ r.slots := Record.mem_slots.2 ⟨f, List.mem_of_getElem? hf, rfl⟩
      have htarget : r.target? name = some (i, f.type) := by
        rw [Record.target?, hi, Option.bind_some, hf, Option.map_some]
      simp only [hf]
      exact h.readField_refines hs₁ hv₁ (hm.grows hg₁) (hn f.type hslot) hslot htarget he

variable {s₁ : Session Reader}

/-- A vector is read from an array of its items. -/
theorem readVec_refines (h : ReadsAt P T fuel) (hs₁ : NotNull s s₁) (hv : s₁.registry.Valid P)
    (hm : s₁.registry.Moves id (.vec t)) (hn : s₁.registry.schema.Needs T t)
    (he : Enough (fuel + 1) T s₁ 1) :
    Refines P T (.value (.vec t)) s (do
      onReader Reader.enterArray
      let items ← readItems fuel id t
      onReader Reader.leaveArray
      return some (.vec items)) s₁ := by
  refine .ofArray (R := .items t) (g := fun items => some (.vec items)) hs₁ hv rfl
    (fun _ _ _ => Iff.rfl) (fun _ h => h) (fun r hr hlt => ?_) (fun _ js => ?_)
    (fun js => Tree.asksOnly_vec) fun items s' => ends_pure_some rfl
  · refine h.items (s := s₁.at r) hv hm (List.mem_singleton.2 rfl) hn hr (he.pass rfl hlt ?_)
    rw [Session.at_registry]
    omega
  · rw [Tree.decode_vec, Option.map_eq_bind (x := Tree.decodeItems _ js t)]
    rfl

/-- A map is read from an object of its entries. -/
theorem readMap_refines {u : Ty} (h : ReadsAt P T fuel) (hs₁ : NotNull s s₁)
    (hv : s₁.registry.Valid P) (hm : s₁.registry.Moves id c) (ht : t ∈ c.parts)
    (hu : u = .hashMap t ∨ u = .treeMap t) (hn : s₁.registry.schema.Needs T t)
    (he : Enough (fuel + 1) T s₁ 1) :
    Refines P T (.value u) s (do
      onReader Reader.enterObject
      let entries ← readEntries fuel id t []
      onReader Reader.leaveObject
      return some (.map entries)) s₁ := by
  have hkind : u.kind? = some .object := by
    obtain rfl | rfl := hu <;> rfl
  refine .ofObject (R := .entries t []) (g := fun entries => some (.map entries)) hs₁ hv hkind
    (fun _ _ _ => Iff.rfl) (fun _ h => h) (fun r hr hlt => ?_) (fun _ ms => ?_)
    (fun ms => Tree.asksOnly_map hu) fun items s' => ends_pure_some rfl
  · refine h.entries (s := s₁.at r) hv hm ht hn hr (he.pass rfl hlt ?_)
    rw [Session.at_registry]
    omega
  · rw [Tree.decode_map hu, Passage.entries, Option.map_eq_bind (x := Tree.decodeEntries _ ms t),
      Option.bind_map]
    rfl

/-- A record is read from an object of its members. -/
theorem readRecord_refines {r : Record} (h : ReadsAt P T fuel) (hs₁ : NotNull s s₁)
    (hv : s₁.registry.Valid P) (hm : s₁.registry.Moves id (.record r))
    (hn : ∀ t ∈ r.slots, s₁.registry.schema.Needs T t) (he : Enough (fuel + 1) T s₁ 1) :
    Refines P T (.value (.record r.id)) s (do
      onReader Reader.enterObject
      let values ← readMembers fuel id r r.unassigned
      onReader Reader.leaveObject
      match r.ofMembers values with
      | .ok v => return some v
      | .error e => AdapterM.fail e) s₁ := by
  have hfind : s.registry.schema.find? r.id = some r := hs₁.registry ▸ hm.fits hv
  refine .ofObject (R := .members r r.unassigned) (g := fun values => (r.ofMembers values).toOption)
    hs₁ hv rfl (fun _ _ _ => Iff.rfl) (fun _ h => h) (fun stream hr hlt => ?_) (fun hp ms => ?_)
    (fun ms => Tree.asksOnly_record hfind) fun values s' => ?_
  · refine h.members (s := s₁.at stream) hv hm hn hr (he.pass rfl hlt ?_)
    rw [Session.at_registry]
    omega
  -- the table of what was noted down gives the same record as the list of members
  · have hmembers (as : List (Nat × Value)) :
        (r.ofMembers (as.foldl assign r.unassigned)).toOption = r.assemble as := by
      refine Option.ext fun v => ?_
      rw [← Record.ofMembers_eq_ok_iff fun d => hp.1 r.id r d hfind]
      cases r.ofMembers (as.foldl assign r.unassigned) <;> simp [Except.toOption]
    rw [Tree.decode_record hfind, Passage.members, Option.bind_map]
    simp only [Function.comp_def, hmembers]
  · cases ho : r.ofMembers values with
    | ok v => exact .of_ok rfl ⟨rfl, v, rfl, rfl⟩
    | error e =>
      obtain ⟨f, -, rfl⟩ := Record.ofMembers_error ho
      exact .of_error rfl ⟨rfl, trivial, rfl⟩

/-- The adapter of a part, at the value that its owner is at. -/
theorem readInner {inner : AdapterId} {s₂ : Session Reader} (h : ReadsAt P T fuel)
    (hn : s.registry.schema.Needs T t) (hS : s₂.registry.schema = s.registry.schema)
    (hv : s₂.registry.Valid P) (hs : s₂.registry.serves inner t = true) (hr : AtValue s₂.stream)
    (hle : s₂.stream.rest.length ≤ s.stream.rest.length)
    (he : Enough (fuel + 1) T s (t.depth + 2)) :
    Refines P T (.value t) s₂ (JsonAdapters.read fuel inner) s₂ :=
  h.value hv hs (hS ▸ hn) hr (he.call hS hle (Nat.lt_succ_self _))

/-- An optional value is read as its content. -/
theorem readOption_refines (h : ReadsAt P T fuel) (hs₁ : NotNull s s₁)
    (hv : s₁.registry.Valid P) (hm : s₁.registry.Moves id (.option t))
    (hn : s₁.registry.schema.Needs T t) (he : Enough (fuel + 1) T s₁ (t.depth + 2)) :
    Refines P T (.value (.option t)) s (do
      let inner ← onRegistry (Registry.part id t)
      match ← JsonAdapters.read fuel inner with
      | some v => return some (.just v)
      | none => return some .nothing) s₁ := by
  refine .ofPart (fun o => some (some (o.elim .nothing .just))) hv hs₁.grows hm
    (List.mem_singleton.2 rfl) hs₁.passes (fun _ h => h) (fun j r hj => ?_)
    (fun j r hj => Tree.asksOnly_option (hs₁.kind j r hj))
    (fun inner s₂ hstream hv₂ hg₂ hs₂ => h.readInner hn hg₂.schema hv₂ hs₂
      (hstream ▸ hs₁.atValue) (hstream ▸ Nat.le_refl _) he) fun o s' => ?_
  · simp only [Passage.value, Tree.decode_option (hs₁.kind j r hj)]
    cases hd : j.decode s.registry.schema t with
    | none => rfl
    | some o =>
      obtain ⟨w, rfl⟩ := Tree.decode_eq_some (hs₁.kind j r hj) hd
      rfl
  · cases o with
    | none => exact .pure ⟨rfl, rfl⟩
    | some v => exact .pure ⟨rfl, rfl⟩

/-- A boxed value is read as its content. -/
theorem readBox_refines (h : ReadsAt P T fuel) (hr : AtValue s.stream) (hv : s.registry.Valid P)
    (hm : s.registry.Moves id (.box t)) (hn : s.registry.schema.Needs T t)
    (he : Enough (fuel + 1) T s (t.depth + 2)) :
    Refines P T (.value (.box t)) s (do
      let inner ← onRegistry (Registry.part id t)
      let v ← JsonAdapters.read fuel inner
      return v.map .box) s := by
  refine .ofPart (fun o => some (o.map .box)) hv (.refl _) hm (List.mem_singleton.2 rfl)
    (fun _ _ => Iff.rfl) (fun _ h => h) (fun j r hj => ?_) (fun j r _ => Tree.asksOnly_box)
    (fun inner s₂ hstream hv₂ hg₂ hs₂ => h.readInner hn hg₂.schema hv₂ hs₂ (hstream ▸ hr)
      (hstream ▸ Nat.le_refl _) he) fun o s' => .pure ⟨rfl, rfl⟩
  simp only [Passage.value, Tree.decode_box]
  exact Option.map_eq_bind

/-- Another adapter passes a value. What that stands for is not said. -/
theorem readCustom_refines {c : CustomCodec} (hv : s.registry.Valid P) (hr : AtValue s.stream)
    (hc : c.ReadsLawfully) (hp : ¬Plain P s.registry.schema T) :
    Refines P T (.value t) s (onReader c.read) s := by
  have hends := hc s.stream hr
  cases hread : c.read s.stream with
  | ok v r =>
    have hrun : onReader c.read s = .ok v (s.at r) := by
      simp only [onReader, hread]
      rfl
    obtain ⟨j, hj⟩ := hends.ok hread
    exact .of_ok hrun ⟨hv, .refl _, j, hj, fun h => absurd h hp⟩
  | error e r =>
    have hrun : onReader c.read s = .error (.ofRead e) (s.at r) := by
      simp only [onReader, hread]
      rfl
    exact .of_error hrun ⟨hv, .refl _, AdapterFailure.ofRead_innocent (hends.error hread),
      fun h => absurd h hp⟩

/-- Adapters of all kinds read what a value of their type stands for. -/
theorem read_refines (hP : ∀ S c, P S c → S.Needs T c.serves → c.ReadsLawfully)
    (h : ReadsAt P T fuel) (hv : s.registry.Valid P) (hs : s.registry.serves id t = true)
    (hn : s.registry.schema.Needs T t) (hr : AtValue s.stream)
    (he : Enough (fuel + 1) T s (t.depth + 1)) :
    Refines P T (.value t) s (JsonAdapters.read (fuel + 1) id) s := by
  obtain ⟨a, ha, rfl⟩ := Registry.serves_iff.1 hs
  have hm : s.registry.Moves id a.codec := ⟨a, ha, rfl⟩
  have hfits := hm.fits hv
  have hparts (u : Ty) (hu : u ∈ a.codec.parts) : s.registry.schema.Needs T u :=
    .part hn (hfits.parts_subset hu)
  -- looking for `null` changes nothing on which the adapter relies
  have hstay {s₁ : Session Reader} (hs₁ : NotNull s s₁) : s₁.registry.Valid P ∧
      s₁.registry.Moves id a.codec ∧ (∀ u ∈ a.codec.parts, s₁.registry.schema.Needs T u) ∧
      Enough (fuel + 1) T s₁ (a.codec.serves.depth + 1) := by
    have he₁ := he.stay (congrArg (·.schema) hs₁.registry) hs₁.rest
    rw [hs₁.registry]
    exact ⟨hv, hm, hparts, he₁⟩
  rw [JsonAdapters.read]
  refine .congr (bind_of_ok (codecOf_moves hm)) ?_
  cases hc : a.codec with
  | scalar c => exact c.read_refines hv hr
  | custom c =>
    rw [hc] at hfits hn
    exact readCustom_refines hv hr (hP _ c hfits hn) fun hp => hp.2 c hfits hn
  | vec u =>
    rw [hc] at hstay
    refine Refines.unlessNull (fun _ _ _ => Iff.rfl) hv hr rfl
      (Tree.asksOnly_null (by simp [Codec.serves])) fun s₁ hs₁ => ?_
    obtain ⟨hv₁, hm₁, hparts₁, he₁⟩ := hstay hs₁
    exact h.readVec_refines hs₁ hv₁ hm₁ (hparts₁ u (List.mem_singleton.2 rfl))
      (he₁.mono (Nat.le_add_left ..))
  | hashMap u | treeMap u =>
    rw [hc] at hstay
    refine Refines.unlessNull (fun _ _ _ => Iff.rfl) hv hr rfl
      (Tree.asksOnly_null (by simp [Codec.serves])) fun s₁ hs₁ => ?_
    obtain ⟨hv₁, hm₁, hparts₁, he₁⟩ := hstay hs₁
    have hu := List.mem_singleton.2 (Eq.refl u)
    exact h.readMap_refines hs₁ hv₁ hm₁ hu (by simp [Codec.serves]) (hparts₁ u hu)
      (he₁.mono (Nat.le_add_left ..))
  | option u =>
    rw [hc] at hstay
    refine Refines.unlessNull (fun _ _ _ => Iff.rfl) hv hr rfl
      (Tree.asksOnly_null (by simp [Codec.serves])) fun s₁ hs₁ => ?_
    obtain ⟨hv₁, hm₁, hparts₁, he₁⟩ := hstay hs₁
    exact h.readOption_refines hs₁ hv₁ hm₁ (hparts₁ u (List.mem_singleton.2 rfl)) he₁
  | box u =>
    rw [hc] at hm hparts he
    exact h.readBox_refines hr hv hm (hparts u (List.mem_singleton.2 rfl)) he
  | record r =>
    rw [hc] at hstay
    refine Refines.unlessNull (fun _ _ _ => Iff.rfl) hv hr rfl
      (Tree.asksOnly_null (by simp [Codec.serves])) fun s₁ hs₁ => ?_
    obtain ⟨hv₁, hm₁, hparts₁, he₁⟩ := hstay hs₁
    exact h.readRecord_refines hs₁ hv₁ hm₁ hparts₁ (he₁.mono (Nat.le_add_left ..))

end ReadsAt

/-- Any amount of fuel is good for what it should buy. -/
theorem readsAt (hP : ∀ S c, P S c → S.Needs T c.serves → c.ReadsLawfully) :
    ∀ fuel, ReadsAt P T fuel
  | 0 =>
    ⟨fun _ _ _ _ he => absurd he not_enough_zero, fun _ _ _ _ _ he => absurd he not_enough_zero,
      fun _ _ _ _ _ he => absurd he not_enough_zero, fun _ _ _ _ he => absurd he not_enough_zero,
      fun _ _ _ _ _ _ he => absurd he not_enough_zero⟩
  | fuel + 1 => by
    have h := readsAt hP fuel
    exact ⟨h.read_refines hP, h.readItems_refines, h.readEntries_refines, h.readMembers_refines,
      fun _ _ => h.readMember_refines⟩

/-- The fuel that a document gets is enough. -/
theorem enough_readFuel (t : Ty) (s : Session Reader) :
    Enough (readFuel s.registry.schema t s.stream) t s (t.depth + 1) := by
  have hle : t.depth ≤ s.registry.schema.nesting t := Nat.le_max_right ..
  have hfuel : readFuel s.registry.schema t s.stream =
      s.stream.rest.length * (s.registry.schema.nesting t + 3) +
        2 * (s.registry.schema.nesting t + 3) := Nat.add_mul ..
  unfold Enough
  omega

/-- With the fuel that a document gets, a value is read as what it stands for. -/
theorem readWith_refines {id : AdapterId} (hP : ∀ S c, P S c → S.Needs t c.serves → c.ReadsLawfully)
    (hv : s.registry.Valid P) (hs : s.registry.serves id t = true) (hr : AtValue s.stream) :
    Refines P t (.value t) s (readWith id t) s :=
  .congr (get_bind_run _) ((readsAt hP _).value hv hs .self hr (enough_readFuel t s))

end JsonAdapters
