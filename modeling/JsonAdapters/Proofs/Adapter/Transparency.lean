import JsonAdapters.Proofs.Adapter.Dispatch
import JsonAdapters.Proofs.Adapter.Requests

/-!
# What the cache of a registry shows

A registry looks a type up by its identity alone, while its factories see the whole token: which
table answers also depends on the supertypes that a token lists. Tokens of one type that factories
tell apart make the cache visible, because a type that was once served by one of them is served by
all of them from then on. Between tokens that the factories treat alike, it cannot be seen.

## Main definitions

* `AdapterFailure.kind?`: the kind of a failure, if it is an error.
* `Registry.refusal?`: the failure with which a request is refused.
* `Registry.ask`, `Registry.askAll`: what requests leave behind.
* `Registry.Grants`: an adapter is chosen for a request.
* `Registry.TreatsAlike`: tokens that the factories do not tell apart.

## Main statements

* `Registry.Remembers.askAll`: the types that are known after requests.
* `Registry.refusal?_askAll`: what is refused after requests, compared to a new registry.
-/

namespace JsonAdapters

open Outcome

/-- A table does not tell tokens of one type apart that list the same supertypes. -/
theorem FactoryTable.create_congr {a b : TypeToken Ty} (T : FactoryTable)
    (htype : a.sameType b = true) (hsupertypes : ∀ t, t ∈ a.supertypes ↔ t ∈ b.supertypes) :
    T.factory.create a = T.factory.create b := by
  have hid : a.id = b.id := by simpa [TypeToken.sameType] using htype
  have hsame (t : TypeToken Ty) : t.sameType a = t.sameType b := by
    rw [TypeToken.sameType, TypeToken.sameType, hid]
  have hsub (t : TypeToken Ty) : a.isSubtypeOf t = b.isSubtypeOf t := by
    simp only [TypeToken.isSubtypeOf, hid, hsupertypes]
  simp only [FactoryTable.factory, FactoryTable.find?, hsame, hsub]

/-- The kind of an error. Two failures that are no errors are of one kind. -/
def AdapterFailure.kind? : AdapterFailure → Option ErrorKind
  | .error e => some e.kind
  | .misuse | .stalled | .endless => none

namespace Registry

/-- The failure with which a request is refused, and none when it is answered. -/
def refusal? (r : Registry) (q : Request) : Option AdapterFailure :=
  match adapterOf q.type q.token r with
  | .ok _ _ => none
  | .error f _ => some f

/-- What a request by any token leaves behind, answered or not. -/
def ask (r : Registry) (q : Request) : Registry :=
  match adapterOf q.type q.token r with
  | .ok _ r' | .error _ r' => r'

def askAll (r : Registry) (qs : List Request) : Registry := qs.foldl ask r

/-- The token describes the type, and an adapter is chosen for it. -/
def Grants (r : Registry) (q : Request) : Prop :=
  q.token.describes q.type = true ∧ ∃ a, r.choose q.type q.token = .ok a

/-- No factory tells the two tokens apart. -/
def TreatsAlike (r : Registry) (a b : TypeToken Ty) : Prop :=
  ∀ f ∈ r.factories, f.create a = f.create b

variable {r r' : Registry} {q p : Request} {t u : Ty} {a b : TypeToken Ty}

/-! ## Choices -/

theorem Keeps.grants_iff (h : Keeps r r') : r'.Grants q ↔ r.Grants q := by
  rw [Grants, Grants, h.choose]

theorem Keeps.treatsAlike (h : Keeps r r') (halike : r.TreatsAlike a b) : r'.TreatsAlike a b := by
  rw [TreatsAlike, h.factories]
  exact halike

/-- For tokens that are treated alike the same adapter is chosen, or none for the same kind of
reason. -/
theorem TreatsAlike.choose (h : r.TreatsAlike a b) (t : Ty) :
    (∃ adapter, r.choose t a = .ok adapter ∧ r.choose t b = .ok adapter) ∨
      ∃ f f', r.choose t a = .error f ∧ r.choose t b = .error f' ∧ f.kind? = f'.kind? := by
  -- the factories answer alike, and nothing after them looks at the token
  have hanswer : r.answer a = r.answer b := findSomeM?_congr h
  cases hb : r.answer b with
  | none =>
    exact .inr ⟨_, _, choose_of_unanswered (hanswer.trans hb), choose_of_unanswered hb, rfl⟩
  | some answer =>
    cases answer with
    | some c =>
      rw [choose_of_answer (hanswer.trans hb), choose_of_answer hb]
      cases r.build c with
      | none => exact .inr ⟨_, _, rfl, rfl, rfl⟩
      | some adapter =>
        by_cases hc : c.serves = t
        · exact .inl ⟨adapter, if_pos hc, if_pos hc⟩
        · exact .inr ⟨_, _, if_neg hc, if_neg hc, rfl⟩
    | none =>
      rw [choose_of_no_answer (hanswer.trans hb), choose_of_no_answer hb]
      cases Codec.builtin? t with
      | none => exact .inr ⟨_, _, rfl, rfl, rfl⟩
      | some c =>
        dsimp only
        cases r.build c with
        | none => exact .inr ⟨_, _, rfl, rfl, rfl⟩
        | some adapter => exact .inl ⟨adapter, rfl, rfl⟩

theorem sameType_of_describes (ha : a.describes t = true) (hb : b.describes t = true) :
    a.sameType b = true := by
  simp only [TypeToken.describes, decide_eq_true_eq] at ha hb
  simp [TypeToken.sameType, ha, hb]

theorem treatsAlike_of_tables {tables : List FactoryTable}
    (htables : r.factories = tables.map (·.factory)) (htype : a.sameType b = true)
    (hsupertypes : ∀ t, t ∈ a.supertypes ↔ t ∈ b.supertypes) : r.TreatsAlike a b := by
  intro f hf
  rw [htables] at hf
  obtain ⟨T, -, rfl⟩ := List.mem_map.1 hf
  exact T.create_congr htype hsupertypes

/-! ## One request -/

theorem refusal?_of_known (hq : q.token.describes q.type = true)
    (h : (r.known? q.type).isSome = true) : r.refusal? q = none := by
  obtain ⟨id, hid⟩ := Option.isSome_iff_exists.1 h
  simp [refusal?, adapterOf, hq, hid]

/-- What is not known is refused for the reason why no adapter is chosen. -/
theorem refusal?_of_unknown (hq : q.token.describes q.type = true) (h : r.known? q.type = none) :
    r.refusal? q = match r.choose q.type q.token with
      | .ok _ => none
      | .error f => some f := by
  simp only [refusal?, adapterOf, hq, h, Bool.not_true, Bool.false_eq_true, if_false]
  cases r.choose q.type q.token <;> rfl

/-- A request for a type that is not known is answered when an adapter is chosen. -/
theorem refusal?_eq_none_iff (h : r.known? q.type = none) : r.refusal? q = none ↔ r.Grants q := by
  cases hq : q.token.describes q.type with
  | false => simp [refusal?, adapterOf, Grants, hq]
  | true =>
    rw [refusal?_of_unknown hq h, Grants]
    cases r.choose q.type q.token <;> simp [hq]

/-- Tokens that are treated alike are answered alike, or refused for the same kind of reason. -/
theorem TreatsAlike.refusal?_kind (h : r.TreatsAlike q.token a)
    (hq : q.token.describes q.type = true) (ha : a.describes q.type = true) :
    (r.refusal? q).map (·.kind?) = (r.refusal? ⟨q.type, a⟩).map (·.kind?) := by
  cases hk : r.known? q.type with
  | some id =>
    rw [refusal?_of_known hq (hk ▸ rfl), refusal?_of_known (q := ⟨q.type, a⟩) ha (hk ▸ rfl)]
  | none =>
    rw [refusal?_of_unknown hq hk, refusal?_of_unknown (q := ⟨q.type, a⟩) ha hk]
    obtain ⟨c, hc, hc'⟩ | ⟨e, e', he, he', hkind⟩ := h.choose q.type
    · simp only [hc, hc']
    · simp only [he, he', Option.map_some, hkind]

/-- What a request leaves behind: the same registry, or one with the chosen adapter. -/
theorem ask_cases (r : Registry) (q : Request) :
    (r.ask q = r ∧ (r.Grants q → (r.known? q.type).isSome = true)) ∨
      ∃ a, r.Grants q ∧ r.choose q.type q.token = .ok a ∧
        r.ask q = ((r.instantiate a).2.handOut q.type (r.instantiate a).1).2 := by
  unfold ask
  obtain ⟨hd, hrun⟩ | ⟨hd, ⟨id, hk, hrun⟩ | ⟨-, ⟨e, hc, hrun⟩ | ⟨c, hc, hrun⟩⟩⟩ :=
    adapterOf_cases r q.type q.token
  · rw [hrun]
    refine .inl ⟨rfl, fun h => ?_⟩
    cases h.1.symm.trans hd
  · rw [hrun, hk]
    exact .inl ⟨rfl, fun _ => rfl⟩
  · rw [hrun]
    refine .inl ⟨rfl, ?_⟩
    rintro ⟨-, c, hc'⟩
    cases hc'.symm.trans hc
  · rw [hrun]
    exact .inr ⟨c, ⟨hd, c, hc⟩, hc, rfl⟩

/-- A request adds its type to what is known if an adapter is chosen for it, and nothing else. -/
theorem Remembers.ask (h : r.Remembers) (q : Request) :
    (r.ask q).Remembers ∧ Keeps r (r.ask q) ∧ ∀ u,
      ((r.ask q).known? u).isSome = true ↔
        (r.known? u).isSome = true ∨ (q.type = u ∧ r.Grants q) := by
  obtain ⟨hsame, hknown⟩ | ⟨a, hgrants, hc, hnew⟩ := r.ask_cases q
  · rw [hsame]
    refine ⟨h, .refl r, fun u => ⟨.inl, ?_⟩⟩
    rintro (hu | ⟨rfl, hgrants⟩)
    · exact hu
    · exact hknown hgrants
  · have hremembers := (h.instantiate hc).handOut (serves_instantiate_of_choose hc)
    rw [hnew]
    refine ⟨hremembers, (keeps_instantiate r a).trans (keeps_handOut ..), fun u => ⟨?_, ?_⟩⟩
    · intro hu
      -- a type becomes known when its adapter is made or handed out
      obtain hu | rfl := known?_of_handOut hu
      · obtain hu | rfl := known?_of_instantiate hu
        · exact .inl hu
        · exact .inr ⟨(serves_of_choose hc).symm, hgrants⟩
      · exact .inr ⟨rfl, hgrants⟩
    · rintro (hu | ⟨rfl, -⟩)
      · exact known?_handOut_of_known (known?_instantiate_of_known hu)
      · exact known?_handOut hremembers

/-! ## Any number of requests -/

/-- The types that are known after requests: those known before, and those that were asked for with
a token for which there is a codec. -/
theorem Remembers.askAll (h : r.Remembers) (qs : List Request) :
    (r.askAll qs).Remembers ∧ Keeps r (r.askAll qs) ∧ ∀ u,
      ((r.askAll qs).known? u).isSome = true ↔
        (r.known? u).isSome = true ∨ ∃ p ∈ qs, p.type = u ∧ r.Grants p := by
  induction qs generalizing r with
  | nil => exact ⟨h, .refl r, fun u => by simp [Registry.askAll]⟩
  | cons q qs ih =>
    obtain ⟨hremembers, hkeeps, hknown⟩ := h.ask q
    obtain ⟨hremembers', hkeeps', hknown'⟩ := ih hremembers
    refine ⟨hremembers', hkeeps.trans hkeeps', fun u => ?_⟩
    rw [show r.askAll (q :: qs) = (r.ask q).askAll qs from rfl, hknown', hknown, or_assoc]
    simp only [hkeeps.grants_iff, List.mem_cons, exists_eq_or_imp]

/-- After any requests, a request is answered if an earlier one for its type would be answered by a
new registry, and otherwise it ends as it would with a new registry. So tokens of one type that no
factory tells apart are answered alike, or refused for the same kind of reason, and when the earlier
requests for the type came with such tokens, the cache cannot be seen. Dispatch tables do not tell
tokens of one type apart that list the same supertypes. -/
theorem refusal?_askAll (S : Schema) (fs : List Factory) (earlier : List Request) (q : Request)
    (hq : q.token.describes q.type = true) :
    let fresh : Registry := { schema := S, factories := fs }
    let r := fresh.askAll earlier
    ((∃ p ∈ earlier, p.type = q.type ∧ fresh.refusal? p = none) → r.refusal? q = none) ∧
    ((¬∃ p ∈ earlier, p.type = q.type ∧ fresh.refusal? p = none) →
      r.refusal? q = fresh.refusal? q) ∧
    (∀ token, token.describes q.type = true → fresh.TreatsAlike q.token token →
      (r.refusal? q).map (·.kind?) = (r.refusal? ⟨q.type, token⟩).map (·.kind?)) ∧
    ((∀ p ∈ earlier, p.type = q.type → p.token.describes p.type = true →
        fresh.TreatsAlike p.token q.token) →
      r.refusal? q = fresh.refusal? q) ∧
    ∀ tables : List FactoryTable, fs = tables.map (·.factory) → ∀ token,
      token.describes q.type = true → (∀ t, t ∈ q.token.supertypes ↔ t ∈ token.supertypes) →
      fresh.TreatsAlike q.token token := by
  intro fresh r
  have hremembers : fresh.Remembers := remembers_of_new
  obtain ⟨-, hkeeps, hknown⟩ := hremembers.askAll earlier
  have hnew (u : Ty) : fresh.known? u = none := rfl
  have hserved : (r.known? q.type).isSome = true ↔
      ∃ p ∈ earlier, p.type = q.type ∧ fresh.refusal? p = none := by
    rw [hknown]
    simp [hnew, refusal?_eq_none_iff (hnew _), fresh]
  have hfresh : r.known? q.type = none → r.refusal? q = fresh.refusal? q := by
    intro hnone
    rw [refusal?_of_unknown hq hnone, refusal?_of_unknown hq (hnew _), hkeeps.choose]
  refine ⟨fun h => refusal?_of_known hq (hserved.2 h), fun h => hfresh ?_,
    fun token htoken halike => (hkeeps.treatsAlike halike).refusal?_kind hq htoken, ?_, ?_⟩
  · exact Option.not_isSome_iff_eq_none.1 fun hsome => h (hserved.1 hsome)
  · intro halike
    cases hk : r.known? q.type with
    | none => exact hfresh hk
    | some id =>
      obtain ⟨p, hp, htype, hnone⟩ := hserved.1 (hk ▸ rfl)
      -- the earlier request was granted an adapter, which is the one of this request
      obtain ⟨hdescribes, c, hc⟩ := (refusal?_eq_none_iff (hnew _)).1 hnone
      rw [htype] at hc
      obtain ⟨c', -, hc'⟩ | ⟨e, e', he, -⟩ := (halike p hp htype hdescribes).choose q.type
      · rw [refusal?_of_known hq (hk ▸ rfl), refusal?_of_unknown hq (hnew _), hc']
      · cases hc.symm.trans he
  · rintro tables rfl token htoken hsupertypes
    exact treatsAlike_of_tables rfl (sameType_of_describes hq htoken) hsupertypes

end Registry

namespace Samples

open Registry (ofTables)

/-- A request for squares by a token that lists no supertypes. -/
def plainSquare : Request := ⟨.record squareId, .named (.record squareId) "Square"⟩

/-- A request for squares by their own token, which lists polygons and shapes. -/
def ownSquare : Request :=
  ⟨.record squareId, ⟨.record squareId, "Square", [], [.record polygonId, .record shapeId]⟩⟩

/-- Once squares were served by the plain token, they are served by their own token too. -/
theorem refusal?_askAll_ownSquare :
    ((ofTables schema [[shape, polygon], [square]]).askAll [plainSquare]).refusal? ownSquare =
      none :=
  (Registry.refusal?_askAll schema
    ([[shape, polygon], [square]].map fun rs => (FactoryTable.of schema rs).factory) [plainSquare]
    ownSquare (by decide)).1 ⟨plainSquare, List.mem_singleton.2 rfl, rfl, by rfl⟩

/-- Equal tokens are told apart, and requests change what is answered: the table of shapes hides the
table of squares from their own token, but not from the plain one. -/
theorem not_refusal?_eq_of_sameType :
    let fresh := ofTables schema [[shape, polygon], [square]]
    schema.token squareId = some ownSquare.token ∧
    (plainSquare.token.sameType ownSquare.token = true ∧
      plainSquare.token.describes (.record squareId) = true ∧
      ownSquare.token.describes (.record squareId) = true) ∧
    ¬(fresh.refusal? ownSquare).map (·.kind?) = (fresh.refusal? plainSquare).map (·.kind?) ∧
    ¬((fresh.askAll [plainSquare]).refusal? ownSquare = none ↔
      fresh.refusal? ownSquare = none) := by
  intro fresh
  have hown : fresh.refusal? ownSquare = some (.error (.incompatibleAdapter "Square" "Shape")) := by
    rfl
  have hplain : fresh.refusal? plainSquare = none := by rfl
  -- once an adapter is known, the supertypes of a token play no part
  have hlater : (fresh.askAll [plainSquare]).refusal? ownSquare = none := by rfl
  refine ⟨by rfl, by decide, ?_, ?_⟩
  · rw [hown, hplain]
    exact nofun
  · rw [hown, hlater]
    exact fun h => nomatch h.1 rfl

end Samples

end JsonAdapters
