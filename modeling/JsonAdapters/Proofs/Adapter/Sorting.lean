import JsonAdapters.Proofs.Adapter.Encoding

/-!
# Maps in order

Maps are read in the order of their keys, and may be walked in any order when they are written. Two
values are the same up to that when they agree once all their maps are in order.

## Main definitions

* `Value.sorted`: a value with the entries of its maps in order.

## Main statements

* `Value.ofEntries_perm`: sorting a map only reorders it.
* `Value.sorted_sorted`: maps are put in order once.
* `Value.sorted_of_null`: what is written as `null` has no maps.
-/

namespace JsonAdapters

open Json (Tree)

namespace Value

mutual

/-- The value with the entries of all its maps in order of their keys. -/
def sorted : Value → Value
  | .vec vs => .vec (sortedAll vs)
  | .just v => .just (sorted v)
  | .box v => .box (sorted v)
  | .map es => .map (ofEntries (sortedEntries es))
  | .record vs skipped => .record (sortedAll vs) skipped
  | v => v

/-- The values, each with its maps in order. -/
def sortedAll : List Value → List Value
  | [] => []
  | v :: vs => sorted v :: sortedAll vs

/-- The entries, the value of each with its maps in order. -/
def sortedEntries : List (String × Value) → List (String × Value)
  | [] => []
  | (key, v) :: es => (key, sorted v) :: sortedEntries es

end

/-! ## Sorted maps -/

variable {es : List (String × Value)} {key : String}

theorem putEntry_perm {v : Value} (h : key ∉ es.map Prod.fst) :
    (putEntry key v es).Perm ((key, v) :: es) := by
  induction es with
  | nil => exact .refl _
  | cons e es ih =>
    obtain ⟨k, w⟩ := e
    obtain ⟨hne, hmem⟩ := not_or.1 (mt List.mem_cons.2 h)
    rw [putEntry, if_neg hne]
    split
    · exact .refl _
    · exact ((ih hmem).cons (k, w)).trans (.swap (key, v) (k, w) es)

/-- A map of entries with different keys has these entries. -/
theorem ofEntries_perm (h : (es.map Prod.fst).Nodup) : (ofEntries es).Perm es := by
  -- from a map that has some of the entries already
  have hgo (m : List (String × Value)) (hm : (m.map Prod.fst ++ es.map Prod.fst).Nodup) :
      (es.foldl (fun m e => putEntry e.1 e.2 m) m).Perm (m ++ es) := by
    induction es generalizing m with
    | nil => simp
    | cons e es ih =>
      have hput : (putEntry e.1 e.2 m).Perm (e :: m) := by
        refine putEntry_perm fun hmem => ?_
        exact (List.nodup_append.1 hm).2.2 e.1 hmem e.1 (List.mem_cons_self ..) rfl
      have hperm : ((putEntry e.1 e.2 m).map Prod.fst ++ es.map Prod.fst).Perm
          (m.map Prod.fst ++ (e :: es).map Prod.fst) :=
        ((hput.map Prod.fst).append_right _).trans List.perm_middle.symm
      have hrest := ih (List.nodup_cons.1 (List.nodup_append.1 hm).2.1).2 _ (hperm.nodup_iff.2 hm)
      exact hrest.trans ((hput.append_right es).trans List.perm_middle.symm)
  exact hgo [] h

theorem sortedEntries_keys : (es : List (String × Value)) →
    (sortedEntries es).map Prod.fst = es.map Prod.fst
  | [] => rfl
  | (key, _) :: es => congrArg (key :: ·) (sortedEntries_keys es)

/-- The entries of a map are only reordered. -/
theorem sorted_map_perm (h : (es.map Prod.fst).Nodup) :
    ∃ es', (Value.map es).sorted = .map es' ∧ es'.Perm (sortedEntries es) ∧ Ascending es' :=
  ⟨_, rfl, ofEntries_perm (sortedEntries_keys es ▸ h), ofEntries_ascending _⟩

/-- Keys that ascend are different. -/
theorem nodup_of_ascending (h : Ascending es) : (es.map Prod.fst).Nodup := by
  refine List.pairwise_map.2 (List.Pairwise.imp (fun {a b} hlt heq => ?_) h)
  rw [heq] at hlt
  exact String.lt_irrefl _ hlt

/-- A map whose keys ascend is in order already. -/
theorem ofEntries_of_ascending (h : Ascending es) : ofEntries es = es := by
  refine (ofEntries_perm (nodup_of_ascending h)).eq_of_pairwise (fun a b _ _ hab hba => ?_)
    (ofEntries_ascending es) h
  exact absurd (String.lt_trans hab hba) (String.lt_irrefl _)

/-- The order of entries with different keys has no say in the map. -/
theorem ofEntries_of_perm {fs : List (String × Value)} (h : (es.map Prod.fst).Nodup)
    (hperm : es.Perm fs) : ofEntries es = ofEntries fs := by
  have h' : (fs.map Prod.fst).Nodup := (hperm.map Prod.fst).nodup_iff.1 h
  have hsame := ((ofEntries_perm h).trans hperm).trans (ofEntries_perm h').symm
  refine hsame.eq_of_pairwise (fun a b _ _ hab hba => ?_) (ofEntries_ascending es)
    (ofEntries_ascending fs)
  exact absurd (String.lt_trans hab hba) (String.lt_irrefl _)

theorem mem_ofEntries {e : String × Value} (h : e ∈ ofEntries es) : e ∈ es := by
  -- into a map that has some entries already
  have hgo (es m : List (String × Value)) (h : e ∈ es.foldl (fun m e => putEntry e.1 e.2 m) m) :
      e ∈ m ∨ e ∈ es := by
    induction es generalizing m with
    | nil => exact .inl h
    | cons e' es ih =>
      obtain h | h := ih _ h
      · obtain rfl | h := mem_putEntry h
        · exact .inr List.mem_cons_self
        · exact .inl h
      · exact .inr (List.mem_cons_of_mem _ h)
  exact (hgo es [] h).resolve_left List.not_mem_nil

/-- Entries whose values are in order stay as they are. -/
theorem sortedEntries_of_sorted : {es : List (String × Value)} → (∀ e ∈ es, e.2.sorted = e.2) →
    sortedEntries es = es
  | [], _ => rfl
  | (key, v) :: es, h => by
    obtain ⟨hv, hes⟩ := List.forall_mem_cons.1 h
    rw [sortedEntries, hv, sortedEntries_of_sorted hes]

mutual

/-- A value whose maps are in order stays as it is. -/
theorem sorted_sorted : (v : Value) → v.sorted.sorted = v.sorted
  | .vec vs => congrArg vec (sortedAll_sortedAll vs)
  | .just v => congrArg just (sorted_sorted v)
  | .box v => congrArg box (sorted_sorted v)
  | .map es => by
    have hentries : sortedEntries (ofEntries (sortedEntries es)) = ofEntries (sortedEntries es) :=
      sortedEntries_of_sorted fun e he => sorted_of_mem es e (mem_ofEntries he)
    rw [sorted, sorted, hentries, ofEntries_of_ascending (ofEntries_ascending _)]
  | .record vs skipped => congrArg (record · skipped) (sortedAll_sortedAll vs)
  | .bool _ | .int _ | .single _ | .double _ | .string _ | .nothing => rfl

theorem sortedAll_sortedAll : (vs : List Value) → sortedAll (sortedAll vs) = sortedAll vs
  | [] => rfl
  | v :: vs => List.cons_eq_cons.2 ⟨sorted_sorted v, sortedAll_sortedAll vs⟩

theorem sorted_of_mem : (es : List (String × Value)) → ∀ e ∈ sortedEntries es, e.2.sorted = e.2
  | [], _, h => absurd h List.not_mem_nil
  | (_, v) :: es, e, h => by
    obtain rfl | h := List.mem_cons.1 h
    · exact sorted_sorted v
    · exact sorted_of_mem es e h

end

/-! ## Order and `null` -/

variable {S : Schema}

/-- The order of maps has no say in the kind of what is written. -/
theorem encode_sorted_kind : (v : Value) → (t : Ty) →
    (v.sorted.encode S t).kind = (v.encode S t).kind
  | .just v, .option t => encode_sorted_kind v t
  | .box v, .box t => encode_sorted_kind v t
  | .just _, .scalar _ | .just _, .vec _ | .just _, .box _ | .just _, .hashMap _
  | .just _, .treeMap _ | .just _, .record _ | .box _, .scalar _ | .box _, .vec _
  | .box _, .option _ | .box _, .hashMap _ | .box _, .treeMap _ | .box _, .record _ => rfl
  | .vec _, t | .map _, t | .record .., t => by cases t <;> rfl
  | .bool _, _ | .int _, _ | .single _, _ | .double _, _ | .string _, _ | .nothing, _ => rfl

/-- A value that is written as `null` has no maps. -/
theorem sorted_of_null : {v : Value} → {t : Ty} → v.HasType S t → (v.encode S t).kind = .null →
    v.sorted = v
  | .nothing, _, _, _ => rfl
  | .just _, .option _, htype, hnull => congrArg just (sorted_of_null htype hnull)
  | .box _, .box _, htype, hnull => congrArg box (sorted_of_null htype hnull)
  | .bool _, _, _, _ | .int _, _, _, _ | .single _, _, _, _ | .double _, _, _, _
  | .string _, _, _, _ => rfl
  | .vec _, .vec _, _, hnull => nomatch hnull
  | .map _, .hashMap _, _, hnull | .map _, .treeMap _, _, hnull => nomatch hnull
  | .record .., .record _, _, hnull => nomatch hnull

end Value

end JsonAdapters
