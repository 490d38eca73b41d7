import JsonAdapters.Proofs.Text.SnakeCase
import JsonAdapters.Text.Identifier

/-!
# Identifiers in lower case

Identifiers stay identifiers in lower case: the small form of a character that may stand in an
identifier may stand there, too, and what may start an identifier becomes a start of one. Beyond
ASCII this is a comparison of two tables, run by run.

## Main definitions

* `coversSpan`, `avoidsSpan`: a range holds all numbers from one to another, or none holds any.
* `avoidsRanges`: no number is in ranges of two lists.

## Main statements

* `smallFormRuns_idents`: what the small forms of letters are in identifiers.
* `isIdentWord_lowerAfter`: identifiers stay identifiers in lower case.
-/

namespace JsonAdapters

/-! ## Ranges -/

/-- Whether one of the ranges holds all numbers from `a` to `b`. -/
def coversSpan : List Nat → Nat → Nat → Bool
  | lo :: hi :: rest, a, b => lo ≤ a && (b < hi || coversSpan rest a b)
  | _, _, _ => false

/-- Whether no range holds a number from `a` to `b`. -/
def avoidsSpan : List Nat → Nat → Nat → Bool
  | lo :: hi :: rest, a, b => b < lo || hi ≤ a && avoidsSpan rest a b
  | _, _, _ => true

/-- Whether no number is in ranges of both lists. -/
def avoidsRanges (bounds : List Nat) : List Nat → Bool
  | lo :: hi :: rest => avoidsSpan bounds lo (hi - 1) && avoidsRanges bounds rest
  | _ => true

variable {bounds : List Nat} {a b n : Nat}

theorem inRanges_of_coversSpan (h : coversSpan bounds a b) (ha : a ≤ n) (hb : n ≤ b) :
    inRanges bounds n := by
  fun_induction coversSpan bounds a b with
  | case1 lo hi rest a b ih =>
    simp only [Bool.and_eq_true, decide_eq_true_eq, Bool.or_eq_true] at h
    obtain ⟨hlo, hhi⟩ := h
    rw [inRanges, if_neg (by omega), Bool.or_eq_true, decide_eq_true_eq]
    exact hhi.imp (fun hlt => by omega) fun hrest => ih hrest ha hb
  | case2 => cases h

theorem notInRanges_of_avoidsSpan (h : avoidsSpan bounds a b) (ha : a ≤ n) (hb : n ≤ b) :
    inRanges bounds n = false := by
  fun_induction avoidsSpan bounds a b with
  | case1 lo hi rest a b ih =>
    simp only [Bool.or_eq_true, decide_eq_true_eq, Bool.and_eq_true] at h
    rw [inRanges]
    obtain hlo | ⟨hhi, hrest⟩ := h
    · rw [if_pos (by omega)]
    · rw [ih hrest ha hb, decide_eq_false (by omega)]
      exact ite_self _
  | case2 bounds a b hshort =>
    obtain - | ⟨lo, - | ⟨hi, rest⟩⟩ := bounds
    · rfl
    · rfl
    · exact absurd rfl (hshort lo hi rest)

/-- Ranges that avoid others hold none of their numbers. -/
theorem notInRanges_of_avoidsRanges {others : List Nat} (h : avoidsRanges bounds others)
    (hn : inRanges others n) : inRanges bounds n = false := by
  fun_induction avoidsRanges bounds others with
  | case1 lo hi rest ih =>
    obtain ⟨hspan, hrest⟩ := Bool.and_eq_true_iff.1 h
    rw [inRanges] at hn
    split at hn
    · cases hn
    · obtain hlt | hn := Bool.or_eq_true_iff.1 hn
      · exact notInRanges_of_avoidsSpan hspan (by omega) (Nat.le_pred_of_lt (of_decide_eq_true hlt))
      · exact ih hrest hn
  | case2 others hshort =>
    obtain - | ⟨lo, - | ⟨hi, rest⟩⟩ := others
    · cases hn
    · cases hn
    · exact absurd rfl (hshort lo hi rest)

/-! ## Small forms in identifiers -/

/-- Whether all small forms of the run are characters that an identifier may start with. -/
def StartsIdents (r : Run × Int) : Prop :=
  coversSpan identStartBounds (r.1.first + r.2).toNat (r.1.last + r.2).toNat = true ∧
    0x80 ≤ r.1.first + r.2 ∧ (r.1.last + r.2 < 0xd800 ∨ 0xdfff < r.1.first + r.2) ∧
      r.1.last + r.2 < 0x110000

/-- Whether no character of the run may stand in an identifier. -/
def OutsideIdents (r : Run × Int) : Prop :=
  avoidsSpan identStartBounds r.1.first r.1.last = true ∧
    avoidsSpan identExtraBounds r.1.first r.1.last = true

instance (r : Run × Int) : Decidable (StartsIdents r) :=
  inferInstanceAs (Decidable (_ ∧ _))

instance (r : Run × Int) : Decidable (OutsideIdents r) :=
  inferInstanceAs (Decidable (_ ∧ _))

/-- Letters beyond ASCII that may stand in identifiers have small forms that may start them. Only
the Kelvin sign has its small form within ASCII. -/
theorem smallFormRuns_idents : ∀ r ∈ smallFormRuns,
    StartsIdents r ∨ OutsideIdents r ∨ r = (⟨0x212a, 0x212a, 1⟩, -8383) := by
  decide +kernel

/-! ## Words -/

variable {c : Char} {cs ds : List Char}

theorem isIdentContinue_of_start (h : isIdentStart c) : isIdentContinue c :=
  Bool.or_eq_true_iff.2 (.inl h)

theorem isIdentWord_cons :
    isIdentWord (c :: cs) ↔ isIdentStart c ∧ ∀ d ∈ cs, isIdentContinue d := by
  rw [isIdentWord, Bool.and_eq_true, List.all_eq_true]

theorem isIdentContinue_of_word (h : isIdentWord cs) : ∀ c ∈ cs, isIdentContinue c := by
  match cs with
  | _ :: _ =>
    obtain ⟨hstart, hrest⟩ := isIdentWord_cons.1 h
    exact List.forall_mem_cons.2 ⟨isIdentContinue_of_start hstart, hrest⟩

/-- A word goes on with any characters that may continue it. -/
theorem isIdentWord_append (h : isIdentWord cs) (hds : ∀ d ∈ ds, isIdentContinue d) :
    isIdentWord (cs ++ ds) := by
  match cs with
  | _ :: _ =>
    obtain ⟨hstart, hrest⟩ := isIdentWord_cons.1 h
    exact isIdentWord_cons.2 ⟨hstart, List.forall_mem_append.2 ⟨hrest, hds⟩⟩

/-- Words with underscores between them are a word. -/
theorem isIdentWord_intercalate {ws : List (List Char)} (hne : ws ≠ [])
    (h : ∀ w ∈ ws, isIdentWord w) : isIdentWord (['_'].intercalate ws) := by
  match ws with
  | [w] => simpa using h
  | w :: v :: ws =>
    obtain ⟨hw, hrest⟩ := List.forall_mem_cons.1 h
    rw [List.intercalate_cons_cons, List.append_assoc]
    refine isIdentWord_append hw fun c hc => ?_
    rcases List.mem_cons.1 hc with rfl | hc
    · decide
    rcases mem_intercalate hc with rfl | ⟨u, hu, hcu⟩
    · decide
    · exact isIdentContinue_of_word (hrest u hu) c hcu

/-! ## Identifiers in lower case -/

theorem identChars_toLower (hc : c.toNat < 0x80) :
    (isIdentStart c → isIdentStart c.toLower) ∧ (isIdentContinue c → isIdentContinue c.toLower) :=
  ascii_induction
    (p := fun c => (isIdentStart c → isIdentStart c.toLower) ∧
      (isIdentContinue c → isIdentContinue c.toLower))
    (by decide) hc

/-- The mark above the dotted small i may stand in identifiers, and both small sigmas may start
them. -/
theorem identChars_special : isIdentContinue (Char.ofNat 0x307) ∧
    isIdentStart (Char.ofNat 0x3c2) ∧ isIdentStart (Char.ofNat 0x3c3) := by
  decide

/-- A letter in a run beyond ASCII that may stand in an identifier becomes one that may start
one. -/
theorem isIdentStart_shifted {r : Run × Int} (hr : r ∈ smallFormRuns) (hc : r.1.contains c.toNat)
    (hascii : ¬c.toNat < 0x80) (h : isIdentContinue c) :
    isIdentStart (Char.ofNat ((c.toNat : Int) + r.2).toNat) := by
  simp only [Run.contains, Bool.and_eq_true, decide_eq_true_eq] at hc
  obtain ⟨⟨hfirst, hlast⟩, -⟩ := hc
  rcases smallFormRuns_idents r hr with ⟨hcovers, hbeyond, hvalid, hmax⟩ | ⟨hstart, hextra⟩ | rfl
  · have hchar : ((c.toNat : Int) + r.2).toNat.isValidChar := by
      simp only [Nat.isValidChar]
      omega
    have hnat :
        (Char.ofNat ((c.toNat : Int) + r.2).toNat).toNat = ((c.toNat : Int) + r.2).toNat := by
      rw [Char.ofNat, dif_pos hchar]
      rfl
    rw [isIdentStart, hnat, if_neg (by omega)]
    exact inRanges_of_coversSpan hcovers (by omega) (by omega)
  · rw [isIdentContinue, isIdentStart, if_neg hascii, if_neg hascii,
      notInRanges_of_avoidsSpan hstart hfirst hlast,
      notInRanges_of_avoidsSpan hextra hfirst hlast] at h
    cases h
  · obtain hkelvin : c.toNat = 0x212a := Nat.le_antisymm hlast hfirst
    rw [hkelvin]
    decide

/-- The small form of a character that may stand in an identifier. -/
theorem smallForm_identChar (h : isIdentContinue c) :
    (isIdentStart c → isIdentWord (smallForm c)) ∧ ∀ d ∈ smallForm c, isIdentContinue d := by
  by_cases hascii : c.toNat < 0x80
  · obtain ⟨hstart, hcontinue⟩ := identChars_toLower hascii
    rw [smallForm_ascii hascii]
    exact ⟨fun hc => isIdentWord_cons.2 ⟨hstart hc, nofun⟩, by simpa using hcontinue h⟩
  have hword : isIdentWord (smallForm c) ∨ smallForm c = [c] := by
    unfold smallForm
    rw [if_neg hascii]
    by_cases hdotted : c.toNat = 0x130
    · rw [if_pos hdotted]
      exact .inl (isIdentWord_cons.2 ⟨by decide, by simpa using identChars_special.1⟩)
    rw [if_neg hdotted]
    split
    · next r δ hfind =>
      have hcontains := List.find?_some hfind
      have hshifted := isIdentStart_shifted (List.mem_of_find?_eq_some hfind) hcontains hascii h
      exact .inl (isIdentWord_cons.2 ⟨hshifted, nofun⟩)
    · exact .inr rfl
  rcases hword with hword | hsame
  · exact ⟨fun _ => hword, isIdentContinue_of_word hword⟩
  · rw [hsame]
    exact ⟨fun hc => isIdentWord_cons.2 ⟨hc, nofun⟩, by simpa using h⟩

/-- What a character of a text becomes in lower case: its small form, or a small sigma. -/
theorem lowerAfter_cons (before : List Char) (c : Char) (cs : List Char) :
    ∃ ds, lowerAfter before (c :: cs) = ds ++ lowerAfter (c :: before) cs ∧
      (ds = smallForm c ∨
        c.toNat = 0x3a3 ∧ (ds = [Char.ofNat 0x3c2] ∨ ds = [Char.ofNat 0x3c3])) := by
  refine ⟨_, rfl, ?_⟩
  split
  · next hsigma =>
    refine .inr ⟨hsigma, ?_⟩
    split
    · exact .inl rfl
    · exact .inr rfl
  · exact .inl rfl

theorem isIdentContinue_lowerAfter (before : List Char) (h : ∀ c ∈ cs, isIdentContinue c) :
    ∀ d ∈ lowerAfter before cs, isIdentContinue d := by
  induction cs generalizing before with
  | nil => nofun
  | cons c cs ih =>
    obtain ⟨hc, hcs⟩ := List.forall_mem_cons.1 h
    obtain ⟨ds, hlower, hds⟩ := lowerAfter_cons before c cs
    rw [hlower, List.forall_mem_append]
    refine ⟨?_, ih _ hcs⟩
    rcases hds with rfl | ⟨-, rfl | rfl⟩
    · exact (smallForm_identChar hc).2
    · simpa using isIdentContinue_of_start identChars_special.2.1
    · simpa using isIdentContinue_of_start identChars_special.2.2

/-- Identifiers stay identifiers in lower case. -/
theorem isIdentWord_lowerAfter (before : List Char) (h : isIdentWord cs) :
    isIdentWord (lowerAfter before cs) := by
  match cs with
  | c :: cs =>
    obtain ⟨hstart, hcs⟩ := isIdentWord_cons.1 h
    obtain ⟨ds, hlower, hds⟩ := lowerAfter_cons before c cs
    rw [hlower]
    refine isIdentWord_append ?_ (isIdentContinue_lowerAfter _ hcs)
    rcases hds with rfl | ⟨-, rfl | rfl⟩
    · exact (smallForm_identChar (isIdentContinue_of_start hstart)).1 hstart
    · exact isIdentWord_cons.2 ⟨identChars_special.2.1, nofun⟩
    · exact isIdentWord_cons.2 ⟨identChars_special.2.2, nofun⟩

/-- What has no case stays in a text in lower case. -/
theorem mem_lowerAfter_of_mem (before : List Char) (hc : c.toNat < 0x80) (hlower : c.toLower = c)
    (h : c ∈ cs) : c ∈ lowerAfter before cs := by
  induction cs generalizing before with
  | nil => cases h
  | cons d cs ih =>
    obtain ⟨ds, hds, hform⟩ := lowerAfter_cons before d cs
    rw [hds, List.mem_append]
    rcases List.mem_cons.1 h with rfl | h
    · left
      rcases hform with rfl | ⟨hsigma, -⟩
      · rw [smallForm_ascii hc, hlower]
        exact List.mem_singleton_self c
      · rw [hsigma] at hc
        exact absurd hc (by decide)
    · exact .inr (ih _ h)

end JsonAdapters
