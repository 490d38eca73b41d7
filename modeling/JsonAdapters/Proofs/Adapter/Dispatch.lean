import JsonAdapters.Proofs.Adapter.Tables

/-!
# Dispatch among tables

A registry asks its dispatch tables in the order in which they were registered, and the first table
that answers decides. A table answers for the records that it lists, and also for records that
extend one of these. The second kind of answer is of no use for a typed request, but it hides the
table that lists the record itself, if that one comes later.

## Main definitions

* `Registry.ofTables`: a registry whose factories are dispatch tables.
* `Registry.requests`: what requests leave behind.
* `Registry.Chosen`: adapters have the codecs that the factories choose.

## Main statements

* `Registry.adapter_listed`: requests for a record that one of the tables lists.
-/

namespace JsonAdapters

open Outcome

/-! ## One table -/

namespace FactoryTable

variable {S : Schema} {rs : List Record} {R : Record} {t : TypeToken Ty}

/-- A table answers for a record that it lists with the record's own codec. -/
theorem create_of_mem (hS : S.Acyclic) (hfound : ∀ x ∈ rs, S.find? x.id = some x) (hR : R ∈ rs)
    (ht : S.token R.id = some t) : (of S rs).factory.create t = some (some (.record R)) := by
  simp only [factory, find?_of_mem hS hfound hR ht]
  rfl

/-- A table that does not list the record answers with the first listed record that this one
extends, if there is one. -/
theorem create_of_ne (hS : S.Acyclic) (hR : ∀ x ∈ rs, x.id ≠ R.id) (ht : S.token R.id = some t) :
    (of S rs).factory.create t =
      some ((rs.find? fun x => .record x.id ∈ t.supertypes).map .record) := by
  simp only [factory, find?_of_ne hS hR ht]
  cases rs.find? fun x => .record x.id ∈ t.supertypes <;> rfl

end FactoryTable

namespace Registry

variable {P : Schema → CustomCodec → Prop} {r r' : Registry} {t : Ty} {token : TypeToken Ty}

/-! ## Requests -/

/-- What a request leaves behind, answered or not. -/
def request (r : Registry) (t : Ty) : Registry :=
  match adapter t r with
  | .ok _ r' | .error _ r' => r'

/-- What requests leave behind. -/
def requests (r : Registry) (ts : List Ty) : Registry := ts.foldl request r

/-- Every adapter moves values with the codec that is chosen for its type. -/
def Chosen (r : Registry) : Prop :=
  ∀ (id : AdapterId) a, r.adapters[id]? = some a → ∃ token b,
    a.codec.serves.token r.schema = some token ∧ r.choose a.codec.serves token = .ok b ∧
      b.codec = a.codec

/-- A request adds no adapter but the chosen one. -/
theorem Chosen.adapterOf {id : AdapterId} (h : r.Chosen) (ht : t.token r.schema = some token)
    (ha : adapterOf t token r = .ok id r') : r'.Chosen := by
  obtain ⟨-, hrun⟩ | ⟨-, ⟨known, -, hrun⟩ | ⟨-, ⟨f, -, hrun⟩ | ⟨a, hc, hrun⟩⟩⟩ :=
    adapterOf_cases r t token
  · cases hrun.symm.trans ha
  · cases hrun.symm.trans ha
    exact h
  · cases hrun.symm.trans ha
  · cases hrun.symm.trans ha
    have hkeeps := (keeps_instantiate r a).trans (keeps_handOut _ t (r.instantiate a).1)
    -- the new adapter is the chosen one, and the others are as they were
    intro k b hb
    rw [adapters_handOut] at hb
    obtain rfl | hb := adapters_of_instantiate hb
    · rw [hkeeps.schema, serves_of_choose hc]
      exact ⟨token, b, ht, (hkeeps.choose ..).trans hc, rfl⟩
    · obtain ⟨token', b', htoken, hb', hcodec⟩ := h k b hb
      exact ⟨token', b', hkeeps.schema ▸ htoken, (hkeeps.choose ..).trans hb', hcodec⟩

/-- A request for a type is answered by an adapter with the chosen codec, and refused, without a
change, if none is chosen. -/
theorem Chosen.adapter_ends (h : r.Chosen) (hv : r.Valid P) (ht : t.token r.schema = some token) :
    Ends (adapter t) r
      (fun id r' => r'.Chosen ∧ ∃ a, r.choose t token = .ok a ∧ r'.Moves id a.codec)
      (fun f r' => r' = r ∧ r.choose t token = .error f) := by
  have hrun : adapter t r = Registry.adapterOf t token r := by simp only [adapter, ht]
  refine .intro (fun id r' ha => ?_) fun f r' ha => ?_
  · obtain ⟨-, hg, hs, -⟩ := (hv.adapter_ends t).ok ha
    -- the adapter that is handed out was chosen, now or before, by the same token
    have hchosen : r'.Chosen := h.adapterOf ht (hrun.symm.trans ha)
    obtain ⟨a, hid, rfl⟩ := serves_iff.1 hs
    obtain ⟨token', b, htoken, hb, hcodec⟩ := hchosen id a hid
    rw [hg.schema] at htoken
    cases ht.symm.trans htoken
    exact ⟨hchosen, b, (hg.choose ..).symm.trans hb, a, hid, hcodec.symm⟩
  · rw [hrun] at ha
    obtain ⟨hd, -⟩ | ⟨-, ⟨known, -, hends⟩ | ⟨-, ⟨f', hc, hends⟩ | ⟨a, -, hends⟩⟩⟩ :=
      adapterOf_cases r t token
    · cases hd.symm.trans (Ty.describes_of_token ht)
    · cases hends.symm.trans ha
    · cases hends.symm.trans ha
      exact ⟨rfl, hc⟩
    · cases hends.symm.trans ha

/-- Requests for a type are answered with the codec that is chosen for it. -/
theorem Chosen.adapter_of_choose {a : Adapter} (h : r.Chosen) (hv : r.Valid P)
    (ht : t.token r.schema = some token) (hc : r.choose t token = .ok a) :
    ∃ id r', adapter t r = .ok id r' ∧ r'.Moves id a.codec := by
  have hends := h.adapter_ends hv ht
  cases ha : adapter t r with
  | ok id r' =>
    obtain ⟨-, b, hb, hm⟩ := hends.ok ha
    cases hc.symm.trans hb
    exact ⟨id, r', rfl, hm⟩
  | error f r' => cases hc.symm.trans (hends.error ha).2

/-- Requests for a type for which no adapter is chosen are refused. -/
theorem Chosen.adapter_of_refused {f : AdapterFailure} (h : r.Chosen) (hv : r.Valid P)
    (ht : t.token r.schema = some token) (hc : r.choose t token = .error f) :
    adapter t r = .error f r := by
  have hends := h.adapter_ends hv ht
  cases ha : adapter t r with
  | ok id r' =>
    obtain ⟨-, b, hb, -⟩ := hends.ok ha
    cases hc.symm.trans hb
  | error f' r' =>
    obtain ⟨rfl, hc'⟩ := hends.error ha
    cases hc.symm.trans hc'
    rfl

theorem Chosen.request (h : r.Chosen) (hv : r.Valid P) (t : Ty) :
    (r.request t).Chosen ∧ (r.request t).Valid P ∧ Grows r (r.request t) := by
  have hends := hv.adapter_ends t
  unfold Registry.request
  cases ha : adapter t r with
  | ok id r' =>
    obtain ⟨hv', hg, -⟩ := hends.ok ha
    obtain ⟨token, ht, -⟩ := exists_token_of_adapter ha
    exact ⟨((h.adapter_ends hv ht).ok ha).1, hv', hg⟩
  | error f r' =>
    obtain rfl := (hends.error ha).unchanged
    exact ⟨h, hv, .refl r'⟩

/-- So do any number of requests. -/
theorem Chosen.requests (h : r.Chosen) (hv : r.Valid P) (ts : List Ty) :
    (r.requests ts).Chosen ∧ (r.requests ts).Valid P ∧ Grows r (r.requests ts) := by
  induction ts generalizing r with
  | nil => exact ⟨h, hv, .refl r⟩
  | cons t ts ih =>
    obtain ⟨hchosen, hv', hg⟩ := h.request hv t
    obtain ⟨hchosen', hv'', hg'⟩ := ih hchosen hv'
    exact ⟨hchosen', hv'', hg.trans hg'⟩

/-! ## Several tables -/

/-- A registry whose factories are the dispatch tables of these records, in this order. -/
def ofTables (S : Schema) (tables : List (List Record)) : Registry :=
  { schema := S, factories := tables.map fun rs => (FactoryTable.of S rs).factory }

variable {S : Schema} {tables before after : List (List Record)} {own : List Record} {R : Record}

/-- The tables list records of the schema. -/
def Lists (S : Schema) (tables : List (List Record)) : Prop :=
  ∀ rs ∈ tables, ∀ x ∈ rs, S.find? x.id = some x

/-- No two tables list the same record. -/
def Apart (tables : List (List Record)) : Prop :=
  tables.Pairwise fun a b => ∀ x ∈ a, ∀ y ∈ b, x.id ≠ y.id

theorem ofTables_chosen : (ofTables S tables).Chosen := by
  intro id a ha
  simp [ofTables] at ha

theorem ofTables_valid (hS : Lists S tables) : (ofTables S tables).Valid P := by
  refine valid_of_new fun f hf token c hc => ?_
  obtain ⟨rs, hrs, rfl⟩ := List.mem_map.1 hf
  refine FactoryTable.fits (fun e he => ?_) hc
  obtain ⟨x, hx, rfl⟩ := List.mem_map.1 he
  exact hS rs hrs x hx

/-- Tables in front of a record's own table list other records. -/
theorem Apart.ne_own (h : Apart (before ++ own :: after)) (hR : R ∈ own) :
    ∀ rs ∈ before, ∀ x ∈ rs, x.id ≠ R.id :=
  fun rs hrs x hx => (List.pairwise_append.1 h).2.2 rs hrs own (List.mem_cons_self ..) x hx R hR

/-- Tables come to an answer when no record extends itself. -/
theorem ofTables_conclusive (hS : S.Acyclic) : (ofTables S tables).Conclusive := by
  refine ⟨hS.exists_token, fun f hf token => ?_⟩
  obtain ⟨rs, -, rfl⟩ := List.mem_map.1 hf
  exact FactoryTable.exists_create hS rs token

/-- The own adapter is chosen when no table in front of the record's own one answers. -/
theorem choose_own (hS : S.Acyclic) (hlists : Lists S (before ++ own :: after))
    (hapart : Apart (before ++ own :: after)) (hR : R ∈ own) (ht : S.token R.id = some token)
    (hno : ∀ rs ∈ before, ∀ x ∈ rs, ¬S.Extends R.id x.id) : ∃ a, a.codec = .record R ∧
      (ofTables S (before ++ own :: after)).choose (.record R.id) token = .ok a := by
  have hanswer : (ofTables S (before ++ own :: after)).answer token = some (some (.record R)) := by
    -- no list before has the record or one that it extends
    have hbefore : (before.map fun rs => (FactoryTable.of S rs).factory).findSomeM?
        (fun f => f.create token) = some none := by
      refine findSomeM?_eq_none fun f hf => ?_
      obtain ⟨rs, hrs, rfl⟩ := List.mem_map.1 hf
      rw [FactoryTable.create_of_ne hS (hapart.ne_own hR rs hrs) ht, List.find?_eq_none.2,
        Option.map_none]
      intro x hx hmem
      exact hno rs hrs x hx ((Schema.mem_supertypes_iff ht).1 (of_decide_eq_true hmem))
    have hown := FactoryTable.create_of_mem hS (hlists own (by simp)) hR ht
    rw [answer, ofTables, List.map_append, findSomeM?_append_of_none hbefore, List.map_cons,
      List.findSomeM?, hown]
    rfl
  obtain ⟨a, ha⟩ := (ofTables_conclusive hS).exists_build (.record R)
  refine ⟨a, (build_eq_some ha).1, ?_⟩
  rw [choose_of_answer hanswer, ha]
  exact if_pos rfl

/-- The answer of a table in front of the record's own one is chosen, and of no use. -/
theorem choose_hidden (hS : S.Acyclic) (hapart : Apart (before ++ own :: after)) (hR : R ∈ own)
    (ht : S.token R.id = some token) (hyes : ∃ rs ∈ before, ∃ x ∈ rs, S.Extends R.id x.id) :
    ∃ rs ∈ before, ∃ x ∈ rs, S.Extends R.id x.id ∧ ∃ provided, S.token x.id = some provided ∧
      (ofTables S (before ++ own :: after)).choose (.record R.id) token =
        .error (.error (.incompatibleAdapter token.text provided.text)) := by
  induction before with
  | nil =>
    obtain ⟨rs, hrs, -⟩ := hyes
    cases hrs
  | cons rs before ih =>
    have hne := hapart.ne_own hR
    have hcreate := FactoryTable.create_of_ne hS (hne rs List.mem_cons_self) ht
    cases hfind : rs.find? fun x => .record x.id ∈ token.supertypes with
    -- the first table has nothing to answer, and the next one is asked
    | none =>
      have hrest : ∃ rs' ∈ before, ∃ x ∈ rs', S.Extends R.id x.id := by
        obtain ⟨rs', hrs', x, hx, hextends⟩ := hyes
        obtain rfl | hrs' := List.mem_cons.1 hrs'
        · exact absurd (decide_eq_true ((Schema.mem_supertypes_iff ht).2 hextends))
            (List.find?_eq_none.1 hfind x hx)
        · exact ⟨rs', hrs', x, hx, hextends⟩
      obtain ⟨rs', hrs', x, hx, hextends, provided, hprovided, hchoose⟩ :=
        ih (List.pairwise_cons.1 hapart).2 hrest
      refine ⟨rs', List.mem_cons_of_mem rs hrs', x, hx, hextends, provided, hprovided, ?_⟩
      have hanswer : (ofTables S (rs :: before ++ own :: after)).answer token =
          (ofTables S (before ++ own :: after)).answer token := by
        rw [answer, ofTables, List.cons_append, List.map_cons, List.findSomeM?, hcreate, hfind]
        rfl
      rw [choose, hanswer]
      exact hchoose
    -- the first table answers with another record
    | some x =>
      have hx := List.mem_of_find?_eq_some hfind
      have hmem : .record x.id ∈ token.supertypes := by simpa using List.find?_some hfind
      have hanswer : (ofTables S (rs :: before ++ own :: after)).answer token =
          some (some (.record x)) := by
        rw [answer, ofTables, List.cons_append, List.map_cons, List.findSomeM?, hcreate, hfind]
        rfl
      have hconclusive : (ofTables S (rs :: before ++ own :: after)).Conclusive :=
        ofTables_conclusive hS
      obtain ⟨a, ha⟩ := hconclusive.exists_build (.record x)
      have hserves : ¬Codec.serves (.record x) = .record R.id := fun h =>
        hne rs List.mem_cons_self x hx (Ty.record.inj h)
      refine ⟨rs, List.mem_cons_self, x, hx, (Schema.mem_supertypes_iff ht).1 hmem, a.token,
        (build_eq_some ha).2.1, ?_⟩
      rw [choose_of_answer hanswer, ha]
      exact if_neg hserves

theorem Apart.perm {tables' : List (List Record)} (h : Apart tables) (hp : tables'.Perm tables) :
    Apart tables' :=
  (hp.pairwise_iff fun hab x hx y hy => (hab y hy x hx).symm).2 h

/-- Let no record extend itself. A request for a listed record, after any other requests, is
answered by the record's own adapter exactly when no table in front of the record's own one lists a
record that this one extends. When no other table does, the order of the tables does not matter. -/
theorem adapter_listed (hS : S.Acyclic) (hlists : Lists S (before ++ own :: after))
    (hapart : Apart (before ++ own :: after)) (hR : R ∈ own) (earlier : List Ty) :
    let r := (ofTables S (before ++ own :: after)).requests earlier
    ((∀ rs ∈ before, ∀ x ∈ rs, ¬S.Extends R.id x.id) →
      ∃ id r', adapter (.record R.id) r = .ok id r' ∧ r'.Moves id (.record R)) ∧
    ((∃ rs ∈ before, ∃ x ∈ rs, S.Extends R.id x.id) →
      ∃ rs ∈ before, ∃ x ∈ rs, S.Extends R.id x.id ∧ ∃ requested provided,
        S.token R.id = some requested ∧ S.token x.id = some provided ∧
        adapter (.record R.id) r =
          .error (.error (.incompatibleAdapter requested.text provided.text)) r) ∧
    ((∀ rs ∈ before ++ after, ∀ x ∈ rs, ¬S.Extends R.id x.id) →
      ∀ tables, tables.Perm (before ++ own :: after) → ∀ earlier,
        ∃ id r', adapter (.record R.id) ((ofTables S tables).requests earlier) = .ok id r' ∧
          r'.Moves id (.record R)) := by
  obtain ⟨token, ht⟩ : ∃ token, S.token R.id = some token := hS.exists_token (.record R.id)
  -- earlier requests have made adapters, and changed no choice
  have hstate {tables : List (List Record)} (hlists : Lists S tables) (earlier : List Ty) :=
    (ofTables_chosen (S := S)).requests (ofTables_valid (P := fun _ _ => True) hlists) earlier
  have hown {before after : List (List Record)} (hlists : Lists S (before ++ own :: after))
      (hapart : Apart (before ++ own :: after)) (earlier : List Ty)
      (hno : ∀ rs ∈ before, ∀ x ∈ rs, ¬S.Extends R.id x.id) :
      ∃ id r', adapter (.record R.id) ((ofTables S (before ++ own :: after)).requests earlier) =
        .ok id r' ∧ r'.Moves id (.record R) := by
    obtain ⟨hchosen, hv, hg⟩ := hstate hlists earlier
    obtain ⟨a, hcodec, hc⟩ := choose_own hS hlists hapart hR ht hno
    exact hcodec ▸ hchosen.adapter_of_choose hv (hg.schema ▸ ht) ((hg.choose ..).trans hc)
  refine ⟨hown hlists hapart earlier, fun hyes => ?_, fun hno tables hp earlier => ?_⟩
  · obtain ⟨rs, hrs, x, hx, hextends, provided, hprovided, hc⟩ := choose_hidden hS hapart hR ht hyes
    obtain ⟨hchosen, hv, hg⟩ := hstate hlists earlier
    exact ⟨rs, hrs, x, hx, hextends, token, provided, ht, hprovided,
      hchosen.adapter_of_refused hv (hg.schema ▸ ht) ((hg.choose ..).trans hc)⟩
  -- other tables stand in front now, and none of them answers
  · have hmem : own ∈ tables := hp.mem_iff.2 (by simp)
    obtain ⟨before', after', rfl⟩ := List.append_of_mem hmem
    have hapart' := hapart.perm hp
    refine hown (fun rs hrs => hlists rs (hp.mem_iff.1 hrs)) hapart' earlier fun rs hrs => hno rs ?_
    have hrs' : rs ∈ before ++ own :: after := hp.mem_iff.1 (List.mem_append_left _ hrs)
    have hne : rs ≠ own := by
      rintro rfl
      exact hapart'.ne_own hR rs hrs R hR rfl
    simpa [hne] using hrs'

end Registry

namespace Samples

open Registry (Apart Lists adapter ofTables)

theorem lists_of_subset {tables : List (List Record)} (h : ∀ rs ∈ tables, rs ⊆ schema.records) :
    Lists schema tables :=
  fun rs hrs _ hx => Schema.find?_of_mem schema_ids_nodup (h rs hrs hx)

/-- Squares extend shapes: the table of squares serves them only when it comes first. -/
theorem adapter_listed_square :
    (∃ id r', adapter (.record squareId)
        ((ofTables schema [[square], [shape, polygon]]).requests [.record shapeId]) = .ok id r' ∧
      r'.Moves id (.record square)) ∧
    ∃ rs ∈ [[shape, polygon]], ∃ x ∈ rs, schema.Extends squareId x.id ∧ ∃ requested provided,
      schema.token squareId = some requested ∧ schema.token x.id = some provided ∧
      adapter (.record squareId) (ofTables schema [[shape, polygon], [square]]) =
        .error (.error (.incompatibleAdapter requested.text provided.text))
          (ofTables schema [[shape, polygon], [square]]) := by
  have hfirst : Lists schema ([] ++ [square] :: [[shape, polygon]]) :=
    lists_of_subset (by simp [schema])
  have hlast : Lists schema ([[shape, polygon]] ++ [square] :: []) :=
    lists_of_subset (by simp [schema])
  have hsquare : square ∈ [square] := List.mem_singleton.2 rfl
  have hextends : schema.Extends square.id shape.id := .tail (.single (by rfl)) (by rfl)
  constructor
  · exact (Registry.adapter_listed schema_acyclic hfirst (by unfold Apart; decide) hsquare
      [.record shapeId]).1 (List.forall_mem_nil _)
  · exact (Registry.adapter_listed schema_acyclic hlast (by unfold Apart; decide) hsquare []).2.1
      ⟨_, List.mem_singleton.2 rfl, shape, List.mem_cons_self .., hextends⟩

/-- It is not enough that one of the tables lists the record. -/
theorem not_adapter_of_listed : ¬∀ (S : Schema) (tables : List (List Record)) (R : Record),
    Lists S tables → Apart tables → (∃ rs ∈ tables, R ∈ rs) →
    ∃ id r', adapter (.record R.id) (ofTables S tables) = .ok id r' ∧ r'.Moves id (.record R) := by
  intro h
  obtain ⟨id, r', ha, -⟩ := h schema [[shape, polygon], [square]] square
    (lists_of_subset (by simp [schema])) (by unfold Apart; decide)
    ⟨[square], by simp, List.mem_singleton.2 rfl⟩
  have hrefused : adapter (.record square.id) (ofTables schema [[shape, polygon], [square]]) =
      .error (.error (.incompatibleAdapter "Square" "Shape"))
        (ofTables schema [[shape, polygon], [square]]) := rfl
  cases hrefused.symm.trans ha

end Samples

end JsonAdapters
