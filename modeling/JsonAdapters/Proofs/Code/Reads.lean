import JsonAdapters.Code.Grammar
import Mathlib.Tactic.Common

/-!
# Runs of parsers

What a parser reads of the tokens ahead, and what it leaves, rule by rule. The tokens that it
keeps are left open.

## Main definitions

* `Code.Parser.Reads`: a parser succeeds on the tokens ahead, with a value and the tokens left.
* `Code.Parser.ReadsRow`, `Code.Parser.ReadsList`: it does so again and again, with commas between
  the values or without.

## Main statements

* `Code.Parser.Reads.bind`, `Code.Parser.Reads.withTokens`: parsers one after the other.
* `Code.Parser.ReadsRow.manyWhile`, `Code.Parser.ReadsList.commaListUntil`: values in a row, and
  values with commas between them.
* `Code.Parser.Reads.runAll?`: a parser that leaves nothing reads a whole text.
-/

namespace JsonAdapters.Code

/-- With the tokens `ts` ahead, the parser reads the value `a` and leaves the tokens `us`. -/
def Parser.Reads {α : Type} (p : Parser α) (ts : Tokens) (a : α) (us : Tokens) : Prop :=
  ∀ taken, ∃ taken', p ⟨ts, taken⟩ = some (a, ⟨us, taken'⟩)

namespace Parser.Reads

variable {α β : Type} {p q : Parser α} {f : α → Parser β} {a : α} {b : β} {ts us vs : Tokens}

/-! ## Runs -/

theorem pure (a : α) (ts : Tokens) : Reads (Pure.pure a) ts a ts := fun taken => ⟨taken, rfl⟩

theorem bind (hp : p.Reads ts a us) (hf : (f a).Reads us b vs) : Reads (p >>= f) ts b vs := by
  intro taken
  obtain ⟨taken₁, hp⟩ := hp taken
  obtain ⟨taken₂, hf⟩ := hf taken₁
  refine ⟨taken₂, ?_⟩
  simp [Bind.bind, StateT.bind, hp, hf]

theorem ite_pos {c : Prop} [Decidable c] (hc : c) (hp : p.Reads ts a us) :
    Reads (if c then p else q) ts a us := by
  rwa [if_pos hc]

theorem ite_neg {c : Prop} [Decidable c] (hc : ¬ c) (hq : q.Reads ts a us) :
    Reads (if c then p else q) ts a us := by
  rwa [if_neg hc]

/-- What a parser does may depend on the tokens ahead. -/
theorem ahead {f : Tokens → Parser β} (hf : (f ts).Reads ts b us) :
    Reads (Code.ahead >>= f) ts b us := by
  intro taken
  obtain ⟨taken', hf⟩ := hf taken
  exact ⟨taken', hf⟩

theorem sees (s : Sight) (ts : Tokens) : (Code.sees s).Reads ts (s ts) ts :=
  ahead (pure (s ts) ts)

/-- The tokens that are kept may be any. -/
theorem withTokens {f : α × Tokens → Parser β} (hp : p.Reads ts a us)
    (hf : ∀ kept, (f (a, kept)).Reads us b vs) : Reads (Code.withTokens p >>= f) ts b vs := by
  intro taken
  obtain ⟨kept, hp⟩ := hp []
  have hkept : (Code.withTokens p) ⟨ts, taken⟩ = some ((a, kept.reverse), ⟨us, kept ++ taken⟩) := by
    simp [Code.withTokens, hp]
  obtain ⟨taken', hf⟩ := hf kept.reverse (kept ++ taken)
  refine ⟨taken', ?_⟩
  simp [Bind.bind, StateT.bind, hkept, hf]

theorem runAll? (hp : p.Reads ts a []) : p.runAll? ts = some a := by
  obtain ⟨taken, hp⟩ := hp []
  simp [Parser.runAll?, StateT.run, hp]

/-! ## One thing -/

theorem wordWith {s : String → Bool} {n : String} (hn : s n = true) (ts : Tokens) :
    (Code.wordWith s).Reads (.ident n :: ts) n ts :=
  fun _ => ⟨_, by rw [Code.wordWith]; exact if_pos hn⟩

theorem mark_single {m : String} {c : Char} (hm : m.toList = [c]) (hc : c ≠ '\'') (joint : Bool)
    (ts : Tokens) : (mark m).Reads (.punct c joint :: ts) () ts := by
  intro taken
  rw [mark, hm]
  exact ⟨_, if_pos (by simp [hc])⟩

theorem mark_pathSep (ts : Tokens) : (mark "::").Reads (pathSep ++ ts) () ts :=
  fun _ => ⟨_, rfl⟩

theorem markIf_false {m : String} (h : startsMark m ts = false) : (markIf m).Reads ts false ts :=
  (sees _ ts).bind (ite_neg (by simp [h]) (pure false ts))

theorem markIf_true {m : String} (h : startsMark m ts = true) (hm : (mark m).Reads ts () us) :
    (markIf m).Reads ts true us :=
  (sees _ ts).bind (ite_pos h (hm.bind (pure true us)))

end Parser.Reads

/-! ## Several things -/

namespace Parser

variable {α : Type} {p : Parser α} {ts us vs : Tokens} {as : List α} {go stop : Sight}

/-- Values in a row: there is a next one as long as the condition holds, and it takes tokens. -/
inductive ReadsRow (go : Sight) (p : Parser α) : Tokens → List α → Tokens → Prop
  | stop {ts : Tokens} : go ts = false → ReadsRow go p ts [] ts
  | next {ts us vs : Tokens} {a : α} {as : List α} : go ts = true → p.Reads ts a us →
      us.length < ts.length → ReadsRow go p us as vs → ReadsRow go p ts (a :: as) vs

theorem ReadsRow.manyWhile (h : ReadsRow go p ts as us) :
    (Code.manyWhile go p).Reads ts as us := by
  -- The number of tokens ahead bounds the number of values.
  have within : ∀ n, ts.length ≤ n → (manyWithin go p (n + 1)).Reads ts as us := by
    induction h with
    | stop hgo => exact fun n _ => (Reads.sees _ _).bind (.ite_neg (by simp [hgo]) (.pure [] _))
    | @next ts us vs a as hgo hp hlt _ ih =>
      intro n hn
      obtain ⟨m, rfl⟩ : ∃ m, n = m + 1 := ⟨n - 1, by omega⟩
      have hmore := ih m (by omega)
      exact (Reads.sees _ ts).bind (.ite_pos hgo (hp.bind (hmore.bind (.pure (a :: as) vs))))
  exact .ahead (within _ (Nat.le_refl _))

/-- Values with commas between them, and none behind the last one. -/
inductive ReadsList (stop : Sight) (p : Parser α) : Tokens → List α → Tokens → Prop
  | last {ts us : Tokens} {a : α} : stop ts = false → p.Reads ts a us → stop us = true →
      ReadsList stop p ts [a] us
  | next {ts us vs : Tokens} {a : α} {as : List α} : stop ts = false →
      p.Reads ts a (.punct ',' false :: us) → stop (.punct ',' false :: us) = false →
      us.length < ts.length → ReadsList stop p us as vs → ReadsList stop p ts (a :: as) vs

theorem ReadsList.commaListUntil (h : ReadsList stop p ts as us) :
    (Code.commaListUntil stop p).Reads ts (as, false) us := by
  have within : ∀ n, ts.length ≤ n →
      (separatedWithin true "," stop p (n + 1)).Reads ts (as, false) us := by
    induction h with
    | @last ts us a hstop hp hend =>
      intro n _
      refine (Reads.sees _ ts).bind (.ite_neg (by simp [hstop]) (hp.bind (.ahead ?_)))
      exact .ite_pos (by simp [hend]) (.pure ([a], false) us)
    | @next ts us vs a as hstop hp hcomma hlt _ ih =>
      intro n hn
      obtain ⟨m, rfl⟩ : ∃ m, n = m + 1 := ⟨n - 1, by omega⟩
      refine (Reads.sees _ ts).bind (.ite_neg (by simp [hstop]) (hp.bind (.ahead ?_)))
      have hmark : (mark ",").Reads (.punct ',' false :: us) () us :=
        .mark_single rfl (by decide) false us
      refine .ite_neg (by simp [hcomma]) (.ite_pos rfl (hmark.bind ?_))
      exact (ih m (by omega)).bind (.pure (a :: as, false) vs)
  exact .ahead ((within _ (Nat.le_refl _)).bind (.pure (as, false) us))

end Parser

end JsonAdapters.Code
