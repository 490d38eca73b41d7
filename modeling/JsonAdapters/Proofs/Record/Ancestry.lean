import JsonAdapters.Proofs.Record.Descent
import JsonAdapters.Record.Schema

/-!
# Ancestry of records

A record names its parent, and the parents of parents are its ancestors. The ancestors of a record
stand in one line, the nearest first, and the token of the record lists exactly this line. If the
line comes to a record that is its own ancestor, it never ends, and neither does the token.

## Main definitions

* `Schema.Extends`: a record is an ancestor of another one.
* `Schema.Acyclic`: no record extends itself.

## Main statements

* `Schema.token_eq`: the token of a record extends the token of its parent.
* `Schema.tokenWithin_eq_none`, `Schema.token_eq_none_iff`: records whose tokens have no end.
* `Schema.mem_supertypes_iff`, `Schema.isSubtypeOf_iff`: subtypes are descendants.
* `Schema.Acyclic.exists_token`: types have tokens when no record extends itself.
-/

namespace JsonAdapters

open Relation

/-- Nothing is left out when all that is appended is new. -/
theorem TypeToken.addMissing_of_nodup {ι : Type} [DecidableEq ι] {known more : List ι}
    (h : (known ++ more).Nodup) : addMissing known more = known ++ more := by
  induction more generalizing known with
  | nil => simp [addMissing]
  | cons i more ih =>
    have hnew : i ∉ known := fun hi =>
      (List.nodup_append.1 h).2.2 i hi i (List.mem_cons_self ..) rfl
    have hrest : (known ++ [i] ++ more).Nodup := by simpa using h
    calc addMissing known (i :: more)
      _ = addMissing (known ++ [i]) more := by
        simp only [addMissing, List.foldl_cons, hnew, if_false]
      _ = known ++ i :: more := by simpa using ih hrest

namespace Schema

variable {S : Schema} {a b p : RecordId} {l : List RecordId} {n : Nat} {t u : TypeToken Ty}

/-- The first record extends the second one, directly or through others. -/
def Extends (S : Schema) : RecordId → RecordId → Prop := TransGen (Descends S.parent?)

/-- No record extends itself, directly or through others. -/
def Acyclic (S : Schema) : Prop := ∀ a, ¬S.Extends a a

/-! ## The line of ancestors -/

theorem mem_ids_of_parent? (h : S.parent? a = some p) : a ∈ S.records.map (·.id) := by
  obtain ⟨r, hr, -⟩ := Option.bind_eq_some_iff.1 h
  have hid : r.id = a := by simpa using List.find?_some hr
  exact List.mem_map.2 ⟨r, List.mem_of_find?_eq_some hr, hid⟩

/-- Only records of the schema have parents, so that a line that ends is no longer than the
schema. -/
theorem exists_lineage (h : FreeOfCycles S.parent? a) :
    ∃ l, Lineage S.parent? a l ∧ l.length ≤ S.records.length := by
  obtain ⟨l, hl, hle⟩ := h.exists_lineage fun _ _ _ h => mem_ids_of_parent? h
  exact ⟨l, hl, by simpa using hle⟩

theorem Acyclic.freeOfCycles (hS : S.Acyclic) (a : RecordId) : FreeOfCycles S.parent? a :=
  fun b _ => hS b

/-! ## Tokens of records -/

theorem record_injective : Function.Injective Ty.record := fun _ _ h => Ty.record.inj h

theorem tokenWithin_of_root (h : S.parent? a = none) :
    S.tokenWithin (n + 1) a = some (.named (.record a) a.ident) := by
  simp only [tokenWithin, h]

/-- One call asks for the token of the parent. -/
theorem tokenWithin_of_step (h : S.parent? a = some p) :
    S.tokenWithin (n + 1) a =
      (S.tokenWithin n p).map (TypeToken.named (.record a) a.ident).extending := by
  simp only [tokenWithin, h]

theorem id_of_tokenWithin (h : S.tokenWithin n a = some t) : t.id = .record a := by
  cases n with
  | zero => cases h
  | succ n =>
    cases hp : S.parent? a with
    | none =>
      rw [tokenWithin_of_root hp] at h
      cases h
      rfl
    | some p =>
      rw [tokenWithin_of_step hp] at h
      obtain ⟨u, -, rfl⟩ := Option.map_eq_some_iff.1 h
      rfl

/-- The token of a record is there as soon as the bound exceeds its line of ancestors, which are
what the token lists. -/
theorem tokenWithin_eq (h : Lineage S.parent? a l) : ∃ t : TypeToken Ty,
    t.supertypes = l.map .record ∧
      ∀ n, S.tokenWithin n a = if l.length < n then some t else none := by
  induction h with
  | @root a hp =>
    refine ⟨.named (.record a) a.ident, rfl, fun n => ?_⟩
    cases n with
    | zero => rfl
    | succ n => exact tokenWithin_of_root hp
  | @step a p l hp hl ih =>
    obtain ⟨t, hsupertypes, ht⟩ := ih
    have hid : t.id = .record p := id_of_tokenWithin ((ht _).trans (if_pos (Nat.lt_succ_self _)))
    refine ⟨(TypeToken.named (.record a) a.ident).extending t, ?_, fun n => ?_⟩
    · have hnodup : ([] ++ Ty.record p :: l.map .record).Nodup :=
        hl.nodup.map record_injective
      change TypeToken.addMissing [] (t.id :: t.supertypes) = _
      rw [hid, hsupertypes, TypeToken.addMissing_of_nodup hnodup]
      rfl
    · cases n with
      | zero => rfl
      | succ n =>
        rw [tokenWithin_of_step hp, ht n, List.length_cons]
        by_cases hn : l.length < n
        · rw [if_pos hn, if_pos (Nat.succ_lt_succ hn), Option.map_some]
        · rw [if_neg hn, if_neg (by omega), Option.map_none]

/-- A token that is there is that of a line that ends. -/
theorem exists_lineage_of_tokenWithin (h : S.tokenWithin n a = some t) :
    ∃ l, Lineage S.parent? a l := by
  induction n generalizing a t with
  | zero => cases h
  | succ n ih =>
    cases hp : S.parent? a with
    | none => exact ⟨[], .root hp⟩
    | some p =>
      rw [tokenWithin_of_step hp] at h
      obtain ⟨u, hu, -⟩ := Option.map_eq_some_iff.1 h
      obtain ⟨l, hl⟩ := ih hu
      exact ⟨p :: l, .step hp hl⟩

/-- What comes within any bound comes within that of the schema. -/
theorem token_of_tokenWithin (h : S.tokenWithin n a = some t) : S.token a = some t := by
  obtain ⟨_, hline⟩ := exists_lineage_of_tokenWithin h
  obtain ⟨l, hl, hle⟩ := exists_lineage hline.freeOfCycles
  obtain ⟨u, -, hu⟩ := tokenWithin_eq hl
  rw [hu] at h
  rw [token, hu, if_pos (Nat.lt_succ_of_le hle)]
  split at h
  · exact h
  · cases h

/-- No depth of calls is enough for a token that does not come within the bound of the schema. -/
theorem tokenWithin_eq_none (h : S.token a = none) (n : Nat) : S.tokenWithin n a = none := by
  refine Option.eq_none_iff_forall_ne_some.2 fun t ht => ?_
  cases h.symm.trans (token_of_tokenWithin ht)

/-- A record has a token exactly if neither it nor one of its ancestors extends itself. -/
theorem token_eq_none_iff : S.token a = none ↔ ¬FreeOfCycles S.parent? a := by
  constructor
  · intro hnone hfree
    obtain ⟨l, hl, hle⟩ := exists_lineage hfree
    obtain ⟨t, -, ht⟩ := tokenWithin_eq hl
    rw [token, ht, if_pos (Nat.lt_succ_of_le hle)] at hnone
    cases hnone
  · refine fun hnot => Option.eq_none_iff_forall_ne_some.2 fun t ht => hnot ?_
    obtain ⟨l, hl⟩ := exists_lineage_of_tokenWithin ht
    exact hl.freeOfCycles

/-- The token of a record is its own name, extended by the token of its parent; it has no end if
that one has none. -/
theorem token_eq (S : Schema) (a : RecordId) :
    S.token a = match S.parent? a with
      | none => some (.named (.record a) a.ident)
      | some p => (S.token p).map (TypeToken.named (.record a) a.ident).extending := by
  cases hp : S.parent? a with
  | none => exact tokenWithin_of_root hp
  | some p =>
    change S.token a = (S.token p).map _
    -- one call more or less does not matter
    cases hparent : S.token p with
    | none =>
      rw [token, tokenWithin_of_step hp, tokenWithin_eq_none hparent]
    | some u =>
      refine token_of_tokenWithin (n := S.records.length + 2) ?_
      rw [tokenWithin_of_step hp]
      exact congrArg (Option.map _) hparent

theorem id_of_token (h : S.token a = some t) : t.id = .record a := id_of_tokenWithin h

theorem exists_lineage_of_token (h : S.token a = some t) : ∃ l, Lineage S.parent? a l :=
  exists_lineage_of_tokenWithin h

/-- The token of a record lists its ancestors, nearest first. -/
theorem supertypes_of_token (h : S.token a = some t) (hl : Lineage S.parent? a l) :
    t.supertypes = l.map .record := by
  obtain ⟨u, hsupertypes, hu⟩ := tokenWithin_eq hl
  rw [token, hu] at h
  split at h
  · cases h
    exact hsupertypes
  · cases h

theorem mem_supertypes_iff (h : S.token a = some t) :
    .record b ∈ t.supertypes ↔ S.Extends a b := by
  obtain ⟨l, hl⟩ := exists_lineage_of_token h
  rw [supertypes_of_token h hl, Extends, ← hl.mem_iff]
  exact List.mem_map_of_injective record_injective

/-- A record is a subtype of itself and of its ancestors. -/
theorem isSubtypeOf_iff (ha : S.token a = some t) (hb : S.token b = some u) :
    t.isSubtypeOf u = true ↔ a = b ∨ S.Extends a b := by
  rw [TypeToken.isSubtypeOf, id_of_token ha, id_of_token hb, Bool.or_eq_true, decide_eq_true_eq,
    decide_eq_true_eq, mem_supertypes_iff ha, Ty.record.injEq]

theorem sameType_iff (ha : S.token a = some t) (hb : S.token b = some u) :
    t.sameType u = true ↔ a = b := by
  rw [TypeToken.sameType, id_of_token ha, id_of_token hb, decide_eq_true_eq, Ty.record.injEq]

end Schema

/-! ## Tokens of types -/

variable {S : Schema} {t : Ty} {token : TypeToken Ty}

/-- The token of a type describes the type. -/
theorem Ty.id_of_token (h : t.token S = some token) : token.id = t := by
  cases t with
  | scalar c =>
    cases h
    rfl
  | record id => exact Schema.id_of_token h
  | vec u | option u | box u | hashMap u | treeMap u =>
    obtain ⟨inner, -, hinner⟩ := Option.bind_eq_some_iff.1 h
    cases hinner
    rfl

theorem Ty.describes_of_token (h : t.token S = some token) : token.describes t = true := by
  rw [TypeToken.describes, id_of_token h]
  exact decide_eq_true rfl

/-- All types have tokens when no record extends itself. -/
theorem Schema.Acyclic.exists_token (hS : S.Acyclic) (t : Ty) :
    ∃ token, t.token S = some token := by
  induction t with
  | scalar c => exact ⟨c.token, rfl⟩
  | record id =>
    refine Option.isSome_iff_exists.1 (Option.isSome_iff_ne_none.2 fun hnone => ?_)
    exact Schema.token_eq_none_iff.1 hnone (hS.freeOfCycles id)
  | vec u ih | option u ih | box u ih | hashMap u ih | treeMap u ih =>
    obtain ⟨inner, hinner⟩ := ih
    exact ⟨_, Option.bind_eq_some_iff.2 ⟨inner, hinner, rfl⟩⟩

end JsonAdapters
