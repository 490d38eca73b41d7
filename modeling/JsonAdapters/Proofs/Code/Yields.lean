import JsonAdapters.Code.Grammar
import Mathlib.Tactic.Common

/-!
# Properties of what parsers read

A property of all that a parser reads, rule by rule: whatever is ahead, and whatever it leaves.
Where a parser looks ahead before it reads, the property is stated for the tokens ahead.

## Main definitions

* `Code.Parser.Yields`: what a parser reads has a property.
* `Code.Parser.Ensures`: what a parser reads of the tokens ahead, and what it leaves of them, have
  a property.
-/

namespace JsonAdapters.Code

/-- Whatever the parser reads has the property. -/
def Parser.Yields {α : Type} (p : Parser α) (Q : α → Prop) : Prop :=
  ∀ s a s', p s = some (a, s') → Q a

namespace Parser.Yields

variable {α β : Type} {Q : α → Prop} {R : β → Prop}

theorem pure {a : α} (h : Q a) : Yields (Pure.pure a) Q := by
  intro s b s' hb
  cases hb
  exact h

/-- A parser that fails yields nothing. -/
theorem failure : Yields (Alternative.failure : Parser α) Q := by
  intro s a s' h
  cases h

theorem bind {p : Parser α} {f : α → Parser β} (hp : Yields p Q) (hf : ∀ a, Q a → Yields (f a) R) :
    Yields (p >>= f) R := by
  intro s b s' hb
  cases hps : p s with
  | none => simp [Bind.bind, StateT.bind, hps] at hb
  | some r =>
    obtain ⟨a, s₁⟩ := r
    have hfa : f a s₁ = some (b, s') := by simpa [Bind.bind, StateT.bind, hps] using hb
    exact hf a (hp s a s₁ hps) s₁ b s' hfa

/-- What is read last has the property. -/
theorem last {p : Parser α} {f : α → Parser β} (hf : ∀ a, Yields (f a) R) : Yields (p >>= f) R :=
  bind (Q := fun _ => True) (fun _ _ _ _ => trivial) fun a _ => hf a

theorem ite {c : Prop} [Decidable c] {p q : Parser α} (hp : Yields p Q) (hq : Yields q Q) :
    Yields (if c then p else q) Q := by
  split
  · exact hp
  · exact hq

theorem within {p : Parser α} (d : Delimiter) (hp : Yields p Q) : Yields (Code.within d p) Q := by
  intro s a s' h
  unfold Code.within at h
  split at h
  · split at h
    · split at h
      · cases h
        exact hp _ _ _ ‹_›
      · cases h
    · cases h
  · cases h

theorem wordWith (q : String → Bool) : Yields (Code.wordWith q) fun n => q n := by
  intro s n s' h
  unfold Code.wordWith at h
  split at h
  · split at h
    · cases h
      assumption
    · cases h
  · cases h

theorem withTokens {p : Parser α} (hp : Yields p Q) :
    Yields (Code.withTokens p) fun r => Q r.1 := by
  intro s r s' h
  obtain ⟨⟨a, s₁⟩, hps, hr⟩ := Option.bind_eq_some_iff.1 h
  cases hr
  exact hp _ _ _ hps

/-- A row has what its parts yield. -/
theorem manyWhile {p : Parser α} {go : Sight} (hp : Yields p Q) :
    Yields (Code.manyWhile go p) fun as => ∀ a ∈ as, Q a := by
  have within (n : Nat) : Yields (manyWithin go p n) fun as => ∀ a ∈ as, Q a := by
    induction n with
    | zero => exact failure
    | succ n ih =>
      refine last fun more => ite ?_ (pure nofun)
      exact bind hp fun a ha => bind ih fun as has => pure (by simpa [ha] using has)
  exact last fun ts => within _

/-- A list has what its parts yield. -/
theorem commaListUntil {p : Parser α} {stop : Sight} (hp : Yields p Q) :
    Yields (Code.commaListUntil stop p) fun r => ∀ a ∈ r.1, Q a := by
  have within (n : Nat) :
      Yields (separatedWithin true "," stop p n) fun r => ∀ a ∈ r.1, Q a := by
    induction n with
    | zero => exact failure
    | succ n ih =>
      refine last fun ends => ite (pure nofun) (bind hp fun a ha => last fun ts => ?_)
      refine ite (pure (by simpa using ha)) (ite (last fun _ => bind ih fun r hr => ?_) ?_)
      · exact pure (by simpa [ha] using hr)
      · exact ite failure (pure (by simpa using ha))
  exact last fun ts => bind (within _) fun r hr => pure hr

/-- What is parsed from all tokens is yielded. -/
theorem of_runAll? {p : Parser α} {ts : Tokens} {a : α} (hp : Yields p Q)
    (h : p.runAll? ts = some a) : Q a := by
  unfold runAll? at h
  split at h
  · cases h
    exact hp _ _ _ ‹_›
  · cases h

end Parser.Yields

/-! ## With tokens ahead -/

/-- With the tokens ahead, what the parser reads and the tokens it leaves have the property. -/
def Parser.Ensures {α : Type} (p : Parser α) (ts : Tokens) (Q : α → Tokens → Prop) : Prop :=
  ∀ taken a s, p ⟨ts, taken⟩ = some (a, s) → Q a s.ahead

namespace Parser.Ensures

variable {α β : Type} {p q : Parser α} {ts : Tokens} {Q : α → Tokens → Prop}
  {R : β → Tokens → Prop}

/-- What a parser yields, it ensures from any tokens. -/
theorem of_yields {P : α → Prop} (h : p.Yields P) (ts : Tokens) : Ensures p ts fun a _ => P a :=
  fun taken a s ha => h ⟨ts, taken⟩ a s ha

/-- A parser ensures what follows from what it ensures. -/
theorem mono {Q' : α → Tokens → Prop} (hp : Ensures p ts Q) (h : ∀ a us, Q a us → Q' a us) :
    Ensures p ts Q' :=
  fun taken a s ha => h a s.ahead (hp taken a s ha)

theorem pure {a : α} (h : Q a ts) : Ensures (Pure.pure a) ts Q := by
  intro taken b s hb
  cases hb
  exact h

theorem bind {f : α → Parser β} (hp : Ensures p ts Q) (hf : ∀ a us, Q a us → Ensures (f a) us R) :
    Ensures (p >>= f) ts R := by
  intro taken b s hb
  cases hps : p ⟨ts, taken⟩ with
  | none => simp [Bind.bind, StateT.bind, hps] at hb
  | some r =>
    obtain ⟨a, us, taken₁⟩ := r
    have hfa : f a ⟨us, taken₁⟩ = some (b, s) := by simpa [Bind.bind, StateT.bind, hps] using hb
    exact hf a us (hp taken a _ hps) taken₁ b s hfa

theorem ite {c : Prop} [Decidable c] (hp : c → Ensures p ts Q) (hq : ¬ c → Ensures q ts Q) :
    Ensures (if c then p else q) ts Q := by
  split
  · exact hp ‹_›
  · exact hq ‹_›

/-- What is read last has the property, whatever is left for it. -/
theorem last {f : α → Parser β} (hf : ∀ a us, Ensures (f a) us R) : Ensures (p >>= f) ts R :=
  bind (Q := fun _ _ => True) (fun _ _ _ _ => trivial) fun a us _ => hf a us

/-- Looking ahead consumes nothing. -/
theorem ahead {f : Tokens → Parser β} (hf : Ensures (f ts) ts R) :
    Ensures (Code.ahead >>= f) ts R :=
  fun taken b s hb => hf taken b s hb

/-- A sight consumes nothing. -/
theorem sees {s : Sight} {f : Bool → Parser β} (hf : Ensures (f (s ts)) ts R) :
    Ensures (Code.sees s >>= f) ts R :=
  fun taken b s' hb => hf taken b s' hb

/-- A word that is read stood ahead. -/
theorem wordWith (w : String → Bool) :
    Ensures (Code.wordWith w) ts fun n us => w n ∧ ts = .ident n :: us := by
  intro taken n s h
  unfold Code.wordWith at h
  split at h
  · split at h
    · next heq hw =>
      cases h
      exact ⟨hw, heq⟩
    · cases h
  · cases h

theorem withTokens (hp : Ensures p ts Q) :
    Ensures (Code.withTokens p) ts fun r us => Q r.1 us := by
  intro taken r s h
  obtain ⟨⟨a, s₁⟩, hps, hr⟩ := Option.bind_eq_some_iff.1 h
  cases hr
  exact hp [] a s₁ hps

/-- If an operator is not taken, nothing is. -/
theorem markIf (m : String) : Ensures (Code.markIf m) ts fun b us => b = false → us = ts := by
  refine bind (Q := fun _ us => us = ts) (ahead (pure rfl)) fun b us hus => ite (fun _ => ?_) ?_
  · exact last fun _ _ => pure (by simp)
  · exact fun _ => pure fun _ => hus

end Parser.Ensures

/-- What a parser ensures from all tokens, it yields. -/
theorem Parser.Yields.of_ensures {α : Type} {p : Parser α} {P : α → Prop}
    (h : ∀ ts, p.Ensures ts fun a _ => P a) : p.Yields P :=
  fun s a s' ha => h s.ahead s.taken a s' ha

end JsonAdapters.Code
