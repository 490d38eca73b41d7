/-!
# Outcomes of computations

Computations of streams and adapters carry a state and may fail. This module splits an outcome of a
sequence of steps into outcomes of its steps, and packages the two ways to use that: what holds of
every outcome of a run (`Ends`), and which failures a computation can have at all (`FailsOnly`).
Computations without a state that fail just where a condition does not hold are summed up by that
condition and the result (`Gives`). Walks along a list whose steps may have no end, which is the
outcome `none`, are those of `List` when all steps do have one.

## Main definitions

* `Outcome.Ends`: each outcome of a run has the property of its kind.
* `Outcome.FailsOnly`: all failures of a computation, from any state, are of one sort.
* `Outcome.Gives`: a computation without a state succeeds on a condition, with one result.

## Main statements

* `Outcome.findM?_of_ends`, `Outcome.findSomeM?_of_ends`, `Outcome.exists_mapM_of_ends`: walks whose
  steps all have an end.
-/

namespace JsonAdapters.Outcome

variable {ε σ α β : Type} {s s' : σ} {e : ε}

/-! ## Splitting outcomes -/

/-- A sequence ends well when both of its parts do. -/
theorem bind_eq_ok {x : EStateM ε σ α} {f : α → EStateM ε σ β} {b : β} :
    (x >>= f) s = .ok b s' ↔ ∃ a s₁, x s = .ok a s₁ ∧ f a s₁ = .ok b s' := by
  change EStateM.bind x f s = _ ↔ _
  rw [EStateM.bind]
  cases h : x s with
  | ok a s₁ => exact ⟨fun hb => ⟨a, s₁, rfl, hb⟩, by rintro ⟨_, _, ⟨rfl, rfl⟩, hb⟩; exact hb⟩
  | error e s₁ => exact ⟨nofun, by rintro ⟨_, _, ha, -⟩; cases ha⟩

/-- A sequence fails in its first part or in its second. -/
theorem bind_eq_error {x : EStateM ε σ α} {f : α → EStateM ε σ β} :
    (x >>= f) s = .error e s' ↔
      x s = .error e s' ∨ ∃ a s₁, x s = .ok a s₁ ∧ f a s₁ = .error e s' := by
  change EStateM.bind x f s = _ ↔ _
  rw [EStateM.bind]
  cases h : x s with
  | ok a s₁ =>
    refine ⟨fun hb => .inr ⟨a, s₁, rfl, hb⟩, ?_⟩
    rintro (ha | ⟨_, _, ⟨rfl, rfl⟩, hb⟩)
    · cases ha
    · exact hb
  | error e s₁ =>
    refine ⟨by rintro ⟨⟩; exact .inl rfl, ?_⟩
    rintro (⟨⟨⟩⟩ | ⟨_, _, ha, -⟩)
    · rfl
    · cases ha

/-- The second part of a sequence goes on where the first ended. -/
theorem bind_of_ok {x : EStateM ε σ α} {f : α → EStateM ε σ β} {a : α} {s₁ : σ}
    (h : x s = .ok a s₁) : (x >>= f) s = f a s₁ := by
  change EStateM.bind x f s = _
  rw [EStateM.bind, h]

/-- A sequence fails as its first part does. -/
theorem bind_of_error {x : EStateM ε σ α} {f : α → EStateM ε σ β} (h : x s = .error e s') :
    (x >>= f) s = .error e s' :=
  bind_eq_error.2 (.inl h)

@[simp] theorem pure_run (a : α) : (pure a : EStateM ε σ α) s = .ok a s := rfl

@[simp] theorem throw_run (e : ε) : (throw e : EStateM ε σ α) s = .error e s := rfl

@[simp] theorem get_run : (get : EStateM ε σ σ) s = .ok s s := rfl

@[simp] theorem set_run (t : σ) : (set t : EStateM ε σ PUnit) s = .ok ⟨⟩ t := rfl

@[simp] theorem modify_run (f : σ → σ) : (modify f : EStateM ε σ PUnit) s = .ok ⟨⟩ (f s) := rfl

/-- A choice is made before the run. -/
@[simp] theorem ite_run {c : Prop} [Decidable c] (x y : EStateM ε σ α) :
    (if c then x else y) s = if c then x s else y s := by
  split <;> rfl

/-! ## Steps that cannot fail, in front of others -/

@[simp] theorem pure_bind_run (a : α) (f : α → EStateM ε σ β) :
    ((pure a : EStateM ε σ α) >>= f) s = f a s := rfl

@[simp] theorem throw_bind_run (e : ε) (f : α → EStateM ε σ β) :
    ((throw e : EStateM ε σ α) >>= f) s = .error e s := rfl

@[simp] theorem get_bind_run (f : σ → EStateM ε σ β) :
    ((get : EStateM ε σ σ) >>= f) s = f s s := rfl

@[simp] theorem set_bind_run (t : σ) (f : PUnit → EStateM ε σ β) :
    ((set t : EStateM ε σ PUnit) >>= f) s = f ⟨⟩ t := rfl

@[simp] theorem modify_bind_run (g : σ → σ) (f : PUnit → EStateM ε σ β) :
    ((modify g : EStateM ε σ PUnit) >>= f) s = f ⟨⟩ (g s) := rfl

@[simp] theorem ite_bind_run {c : Prop} [Decidable c] (x y : EStateM ε σ α)
    (f : α → EStateM ε σ β) :
    ((if c then x else y) >>= f) s = if c then (x >>= f) s else (y >>= f) s := by
  split <;> rfl

/-- Whether the computation ends well from `s`. -/
def succeeds (x : EStateM ε σ α) (s : σ) : Bool :=
  match x s with
  | .ok _ _ => true
  | .error _ _ => false

/-- A run that succeeds has a result. -/
theorem exists_ok_of_succeeds {x : EStateM ε σ α} (h : succeeds x s = true) :
    ∃ a s', x s = .ok a s' := by
  unfold succeeds at h
  cases hx : x s with
  | ok a s' => exact ⟨a, s', rfl⟩
  | error e s' => simp [hx] at h

/-- A run that does not succeed has a fault. -/
theorem exists_error_of_succeeds {x : EStateM ε σ α} (h : succeeds x s = false) :
    ∃ e s', x s = .error e s' := by
  unfold succeeds at h
  cases hx : x s with
  | ok a s' => simp [hx] at h
  | error e s' => exact ⟨e, s', rfl⟩

/-! ## What holds of every outcome -/

/-- Run from `s`, the computation ends well as `post` says or fails as `fault` says. -/
structure Ends (x : EStateM ε σ α) (s : σ) (post : α → σ → Prop) (fault : ε → σ → Prop) : Prop where
  ok : ∀ {a s'}, x s = .ok a s' → post a s'
  error : ∀ {e s'}, x s = .error e s' → fault e s'

variable {post : α → σ → Prop} {fault : ε → σ → Prop}

/-- How a run ends is said for results and for faults apart. -/
theorem Ends.intro {x : EStateM ε σ α} (hok : ∀ a s', x s = .ok a s' → post a s')
    (herror : ∀ e s', x s = .error e s' → fault e s') : Ends x s post fault :=
  ⟨fun hx => hok _ _ hx, fun hx => herror _ _ hx⟩

theorem Ends.of_ok {x : EStateM ε σ α} {a : α} (hx : x s = .ok a s') (h : post a s') :
    Ends x s post fault := by
  refine .intro (fun _ _ ha => ?_) fun _ _ he => ?_
  · cases hx.symm.trans ha
    exact h
  · cases hx.symm.trans he

theorem Ends.of_error {x : EStateM ε σ α} (hx : x s = .error e s') (h : fault e s') :
    Ends x s post fault := by
  refine .intro (fun _ _ ha => ?_) fun _ _ he => ?_
  · cases hx.symm.trans ha
  · cases hx.symm.trans he
    exact h

/-- How a computation ends depends only on its outcome. -/
theorem Ends.congr {x y : EStateM ε σ α} {t : σ} (hxy : x s = y t) (h : Ends y t post fault) :
    Ends x s post fault :=
  ⟨fun hx => h.ok (hxy.symm.trans hx), fun hx => h.error (hxy.symm.trans hx)⟩

/-- Both properties may be weakened. -/
theorem Ends.mono {x : EStateM ε σ α} {post' : α → σ → Prop} {fault' : ε → σ → Prop}
    (h : Ends x s post fault) (hpost : ∀ a s', x s = .ok a s' → post a s' → post' a s')
    (hfault : ∀ e s', fault e s' → fault' e s') : Ends x s post' fault' :=
  .intro (fun a s' hx => hpost a s' hx (h.ok hx)) (fun e s' hx => hfault e s' (h.error hx))

theorem Ends.pure {a : α} (h : post a s) : Ends (pure a) s post fault := .of_ok rfl h

theorem Ends.throw (h : fault e s) : Ends (throw e) s post fault := .of_error rfl h

/-- A sequence ends as its second part does from every state in which the first can end. -/
theorem Ends.bind {x : EStateM ε σ α} {f : α → EStateM ε σ β} {post' : β → σ → Prop}
    (hx : Ends x s post fault)
    (hf : ∀ a s₁, x s = .ok a s₁ → post a s₁ → Ends (f a) s₁ post' fault) :
    Ends (x >>= f) s post' fault := by
  refine .intro (fun b s' h => ?_) (fun e s' h => ?_)
  · obtain ⟨a, s₁, ha, hb⟩ := bind_eq_ok.1 h
    exact (hf a s₁ ha (hx.ok ha)).ok hb
  · obtain ha | ⟨a, s₁, ha, hb⟩ := bind_eq_error.1 h
    · exact hx.error ha
    · exact (hf a s₁ ha (hx.ok ha)).error hb

/-- With a handler, a computation ends as it would, or as the handler does after its failure. -/
theorem Ends.tryCatch {x : EStateM ε σ α} {handler : ε → EStateM ε σ α} {fault' : ε → σ → Prop}
    (hx : Ends x s post fault)
    (hhandler : ∀ e s₁, fault e s₁ → Ends (handler e) s₁ post fault') :
    Ends (tryCatch x handler) s post fault' := by
  cases h : x s with
  | ok a s₁ =>
    have hrun : EStateM.tryCatch x handler s = .ok a s₁ := by
      delta EStateM.tryCatch
      rw [h]
    exact .of_ok hrun (hx.ok h)
  | error e s₁ =>
    have hrun : EStateM.tryCatch x handler s = handler e s₁ := by
      delta EStateM.tryCatch
      rw [h]
      rfl
    exact .congr hrun (hhandler e s₁ (hx.error h))

/-! ## Which failures there are -/

/-- All failures of the computation are of the sort `p`. -/
def FailsOnly (p : ε → Prop) (x : EStateM ε σ α) : Prop :=
  ∀ s e s', x s = .error e s' → p e

namespace FailsOnly

variable {p : ε → Prop}

theorem pure (a : α) : FailsOnly p (pure a : EStateM ε σ α) :=
  fun _ _ _ h => nomatch h

theorem throw (h : p e) : FailsOnly p (throw e : EStateM ε σ α) := by
  intro s e' s' h'
  cases h'
  exact h

theorem get : FailsOnly p (get : EStateM ε σ σ) :=
  fun _ _ _ h => nomatch h

theorem set (t : σ) : FailsOnly p (set t : EStateM ε σ PUnit) :=
  fun _ _ _ h => nomatch h

theorem modify (f : σ → σ) : FailsOnly p (modify f : EStateM ε σ PUnit) :=
  fun _ _ _ h => nomatch h

theorem bind {x : EStateM ε σ α} {f : α → EStateM ε σ β} (hx : FailsOnly p x)
    (hf : ∀ a, FailsOnly p (f a)) : FailsOnly p (x >>= f) := by
  intro s e s' h
  obtain h | ⟨a, s₁, -, h⟩ := bind_eq_error.1 h
  · exact hx s e s' h
  · exact hf a s₁ e s' h

/-- A choice fails only with the faults of what is chosen. -/
theorem ite {c : Prop} [Decidable c] {x y : EStateM ε σ α} (hx : c → FailsOnly p x)
    (hy : ¬c → FailsOnly p y) : FailsOnly p (if c then x else y) := by
  split
  · next h => exact hx h
  · next h => exact hy h

end FailsOnly

/-! ## Computations without a state -/

theorem toOption_eq_some {x : Except ε α} {a : α} : x.toOption = some a ↔ x = .ok a := by
  cases x <;> simp [Except.toOption]

/-- A result stays when faults are renamed. -/
theorem mapError_eq_ok {ε' : Type} {x : Except ε α} {f : ε → ε'} {a : α} :
    x.mapError f = .ok a ↔ x = .ok a := by
  cases x with
  | error e => constructor <;> nofun
  | ok a' =>
    constructor <;>
    · rintro ⟨⟩
      rfl

/-- The result of a map comes from a result. -/
theorem map_eq_ok {x : Except ε α} {f : α → β} {b : β} :
    x.map f = .ok b ↔ ∃ a, x = .ok a ∧ f a = b := by
  cases x <;> simp [Except.map]

/-- A sequence succeeds when both of its parts do. -/
theorem except_bind_eq_ok {x : Except ε α} {f : α → Except ε β} {b : β} :
    (x >>= f) = .ok b ↔ ∃ a, x = .ok a ∧ f a = .ok b := by
  cases x <;> simp [Bind.bind, Except.bind]

/-- The computation gives `b` if the condition holds, and fails if it does not. -/
def Gives (x : Except ε β) (p : Prop) (b : β) : Prop := ∀ b', x = .ok b' ↔ p ∧ b' = b

namespace Gives

variable {p q : Prop} {a : α} {b : β}

theorem pure (b : β) : Gives (Pure.pure b : Except ε β) True b := by
  intro b'
  constructor
  · intro h
    exact ⟨trivial, (Except.ok.inj h).symm⟩
  · rintro ⟨-, rfl⟩
    rfl

theorem congr {x : Except ε β} (h : Gives x p b) (hpq : p ↔ q) : Gives x q b :=
  fun b' => (h b').trans (and_congr_left' hpq)

/-- There is a result just if the condition holds. -/
theorem exists_ok {x : Except ε β} (h : Gives x p b) : (∃ b', x = .ok b') ↔ p := by
  constructor
  · rintro ⟨b', hb⟩
    exact ((h b').1 hb).1
  · intro hp
    exact ⟨b, (h b).2 ⟨hp, rfl⟩⟩

/-- A sequence succeeds if both of its parts do. -/
theorem bind {x : Except ε α} {f : α → Except ε β} (hx : Gives x p a) (hf : Gives (f a) q b) :
    Gives (x >>= f) (p ∧ q) b := by
  intro b'
  rw [except_bind_eq_ok]
  constructor
  · rintro ⟨a', ha, hb⟩
    obtain ⟨hp, rfl⟩ := (hx a').1 ha
    obtain ⟨hq, rfl⟩ := (hf b').1 hb
    exact ⟨⟨hp, hq⟩, rfl⟩
  · rintro ⟨⟨hp, hq⟩, rfl⟩
    exact ⟨a, (hx a).2 ⟨hp, rfl⟩, (hf b').2 ⟨hq, rfl⟩⟩

/-- A check gives what it checks. -/
theorem check (c : Prop) [Decidable c] (b : β) (e : ε) :
    Gives (if c then .ok b else .error e) c b := by
  intro b'
  by_cases h : c
  · simp [h, eq_comm]
  · simp [h]

theorem map {x : Except ε α} (f : α → β) (hx : Gives x p a) : Gives (f <$> x) p (f a) := by
  have hrun : f <$> x = (x >>= fun a => Pure.pure (f a)) := by cases x <;> rfl
  rw [hrun]
  exact (hx.bind (pure (f a))).congr (and_iff_left trivial)

/-- A run over a list has a result just if all its members have one. -/
theorem mapM {f : α → Except ε β} {c : α → Prop} {g : α → β} (hf : ∀ a, Gives (f a) (c a) (g a))
    (as : List α) : Gives (as.mapM f) (∀ a ∈ as, c a) (as.map g) := by
  induction as with
  | nil =>
    rw [List.mapM_nil]
    exact (pure []).congr (by simp)
  | cons a as ih =>
    have htail : Gives (do return g a :: (← as.mapM f)) ((∀ a ∈ as, c a) ∧ True)
        (g a :: as.map g) := ih.bind (pure _)
    rw [List.mapM_cons, List.map_cons]
    exact ((hf a).bind htail).congr (by simp)

end Gives

/-! ## Walks whose steps may have no end -/

variable {as : List α} {a : α}

/-- A search whose tests all end finds what it finds without ends to mind. -/
theorem findM?_of_ends {p : α → Option Bool} {q : α → Bool} (h : ∀ a ∈ as, p a = some (q a)) :
    as.findM? p = some (as.find? q) := by
  induction as with
  | nil => rfl
  | cons a as ih =>
    obtain ⟨ha, has⟩ := List.forall_mem_cons.1 h
    rw [List.findM?, ha, List.find?_cons]
    cases q a with
    | true => rfl
    | false => exact ih has

/-- What a search finds passed its test. -/
theorem mem_of_findM?_eq_some {p : α → Option Bool} (h : as.findM? p = some (some a)) :
    a ∈ as ∧ p a = some true := by
  induction as with
  | nil => cases h
  | cons b bs ih =>
    rw [List.findM?] at h
    obtain ⟨c, hb, h⟩ := Option.bind_eq_some_iff.1 h
    cases c with
    | true =>
      cases h
      exact ⟨List.mem_cons_self, hb⟩
    | false => exact (ih h).imp_left (List.mem_cons_of_mem b)

/-- A search whose tests all end ends. -/
theorem exists_findM?_of_ends {p : α → Option Bool} (h : ∀ a ∈ as, ∃ b, p a = some b) :
    ∃ o, as.findM? p = some o := by
  refine ⟨_, findM?_of_ends (q := fun a => (p a).getD false) fun a ha => ?_⟩
  obtain ⟨b, hb⟩ := h a ha
  rw [hb, Option.getD_some]

/-- A search for a value whose steps all end finds the first one. -/
theorem findSomeM?_of_ends {f : α → Option (Option β)} {g : α → Option β}
    (h : ∀ a ∈ as, f a = some (g a)) : as.findSomeM? f = some (as.findSome? g) := by
  induction as with
  | nil => rfl
  | cons a as ih =>
    obtain ⟨ha, has⟩ := List.forall_mem_cons.1 h
    rw [List.findSomeM?, ha, List.findSome?_cons]
    cases g a with
    | some b => rfl
    | none => exact ih has

/-- A search for a value whose steps all end ends. -/
theorem exists_findSomeM?_of_ends {f : α → Option (Option β)} (h : ∀ a ∈ as, ∃ o, f a = some o) :
    ∃ o, as.findSomeM? f = some o := by
  refine ⟨_, findSomeM?_of_ends (g := fun a => (f a).join) fun a ha => ?_⟩
  obtain ⟨o, ho⟩ := h a ha
  rw [ho, Option.join_some]

/-- What a search gives is the answer of one of the things that were asked. -/
theorem exists_of_findSomeM?_eq_some {f : α → Option (Option β)} {b : β}
    (h : as.findSomeM? f = some (some b)) : ∃ a ∈ as, f a = some (some b) := by
  induction as with
  | nil => cases h
  | cons a as ih =>
    rw [List.findSomeM?] at h
    obtain ⟨answer, ha, h⟩ := Option.bind_eq_some_iff.1 h
    cases answer with
    | some c =>
      cases h
      exact ⟨a, List.mem_cons_self, ha⟩
    | none =>
      obtain ⟨a', hmem, hfound⟩ := ih h
      exact ⟨a', List.mem_cons_of_mem a hmem, hfound⟩

theorem findSomeM?_congr {f g : α → Option (Option β)} (h : ∀ a ∈ as, f a = g a) :
    as.findSomeM? f = as.findSomeM? g := by
  induction as with
  | nil => rfl
  | cons a as ih =>
    obtain ⟨ha, has⟩ := List.forall_mem_cons.1 h
    rw [List.findSomeM?, List.findSomeM?, ha, ih has]

/-- Nothing is found where no step finds anything. -/
theorem findSomeM?_eq_none {f : α → Option (Option β)} (h : ∀ a ∈ as, f a = some none) :
    as.findSomeM? f = some none := by
  rw [findSomeM?_of_ends h, List.findSome?_eq_none_iff.2 fun _ _ => rfl]

/-- A search goes on behind what has nothing to answer. -/
theorem findSomeM?_append_of_none {f : α → Option (Option β)} {bs : List α}
    (h : as.findSomeM? f = some none) : (as ++ bs).findSomeM? f = bs.findSomeM? f := by
  induction as with
  | nil => rfl
  | cons a as ih =>
    rw [List.findSomeM?] at h
    obtain ⟨answer, ha, h⟩ := Option.bind_eq_some_iff.1 h
    rw [List.cons_append, List.findSomeM?, ha]
    cases answer with
    | some b => cases h
    | none => exact ih h

/-- A run over a list ends where it ends for all members. -/
theorem exists_mapM_of_ends {f : α → Option β} (h : ∀ a ∈ as, ∃ b, f a = some b) :
    ∃ bs, as.mapM f = some bs := by
  induction as with
  | nil => exact ⟨[], rfl⟩
  | cons a as ih =>
    obtain ⟨⟨b, hb⟩, has⟩ := List.forall_mem_cons.1 h
    obtain ⟨bs, hbs⟩ := ih has
    exact ⟨b :: bs, by rw [List.mapM_cons, hb, hbs]; rfl⟩

/-- What a walk gives are the answers of its steps. -/
theorem mem_of_mapM_eq_some {f : α → Option β} {bs : List β} (h : as.mapM f = some bs) :
    (∀ a ∈ as, ∃ b ∈ bs, f a = some b) ∧ ∀ b ∈ bs, ∃ a ∈ as, f a = some b := by
  induction as generalizing bs with
  | nil =>
    cases h
    exact ⟨nofun, nofun⟩
  | cons a as ih =>
    rw [List.mapM_cons] at h
    obtain ⟨b, hb, h⟩ := Option.bind_eq_some_iff.1 h
    obtain ⟨bs', hbs, h⟩ := Option.bind_eq_some_iff.1 h
    cases h
    obtain ⟨hto, hfrom⟩ := ih hbs
    constructor
    · refine List.forall_mem_cons.2 ⟨⟨b, List.mem_cons_self, hb⟩, fun x hx => ?_⟩
      obtain ⟨y, hy, hxy⟩ := hto x hx
      exact ⟨y, List.mem_cons_of_mem b hy, hxy⟩
    · refine List.forall_mem_cons.2 ⟨⟨a, List.mem_cons_self, hb⟩, fun y hy => ?_⟩
      obtain ⟨x, hx, hxy⟩ := hfrom y hy
      exact ⟨x, List.mem_cons_of_mem a hx, hxy⟩

end JsonAdapters.Outcome
