import JsonAdapters.Proofs.Adapter.Alike
import JsonAdapters.Proofs.Adapter.Documents

/-!
# Reading documents that are alike

A registry reads two documents that are alike with one outcome, in whichever order it is asked: both
are read or none is, and what is read is one value when their members are distinct. This is so even
when adapters are missing, since both documents ask for the same ones.

## Main statements

* `Registry.decode_alike`: two documents that are alike, read by one registry.
-/

namespace JsonAdapters

open Json (IsBlank IsDocument Source Spells Tree quote quote_spells)
open Samples (registryOf registryOf_valid_of_tables schema schema_sound string treeNode treeNodeId)

/-- Documents that are alike are both read or both refused, and they are read as one value when
their members are distinct. The second one is read by the same registry, before or after it read
the first one. -/
theorem Registry.decode_alike {T : Ty} {r r' : Registry} {source source' : Source} {j k : Tree}
    (hv : r.Valid fun S c => ¬S.Needs T c.serves) (hsound : r.schema.Sound)
    (halive : r.alive = true) (hremembers : r.Remembers)
    (hr' : r' = r ∨ r' = (r.decode T source).2) (hj : Holds source j) (hk : Holds source' k)
    (hj' : j.Supported) (hk' : k.Supported) (halike : Tree.Alike r.schema (some T) j k) :
    (∃ e e', (r.decode T source).1 = .error e ∧ (r'.decode T source').1 = .error e') ∨
      ∃ v w, (r.decode T source).1 = .ok v ∧ (r'.decode T source').1 = .ok w ∧
        (Tree.Unambiguous r.schema T j → v = w) := by
  have hP := Schema.readsLawfully_of_unneeded (T := T)
  have hp : Plain (fun S c => ¬S.Needs T c.serves) r.schema T := ⟨hsound, fun _ h => h⟩
  have hagree := halike.agree.2 T rfl
  obtain ⟨hv', hg⟩ : r'.Valid (fun S c => ¬S.Needs T c.serves) ∧ Grows r r' := by
    obtain rfl | rfl := hr'
    · exact ⟨hv, .refl r'⟩
    · exact Registry.decode_grows hP hv source
  have hfirst {v : Option Value} : (r.decode T source).1 = .ok v ↔
      r.AnswersAll T j ∧ j.decode r.schema T = some v :=
    Registry.decode_eq_ok_iff_answersAll hP hv hp halive hremembers hj hj'
  -- the second document makes the same requests, and they are answered as those of the first
  have hsecond {w : Option Value} : (r'.decode T source').1 = .ok w ↔
      r.AnswersAll T j ∧ k.decode r.schema T = some w := by
    rw [Registry.decode_eq_ok_iff_answersAll hP hv' (hp.of_grows hg) (hg.alive.trans halive)
      (hg.remembers hremembers) hk hk', AnswersAll, AnswersAll, hg.answers_eq, hg.schema,
      hagree.asksOnly]
  by_cases hread : r.AnswersAll T j ∧ ∃ v, j.decode r.schema T = some v
  · obtain ⟨hanswers, v, hd⟩ := hread
    obtain ⟨w, hw⟩ : ∃ w, k.decode r.schema T = some w := by
      refine Option.ne_none_iff_exists'.1 fun hnone => ?_
      cases hd.symm.trans (hagree.fails.2 hnone)
    refine .inr ⟨v, w, hfirst.2 ⟨hanswers, hd⟩, hsecond.2 ⟨hanswers, hw⟩, fun hu => ?_⟩
    exact Option.some.inj (hd.symm.trans ((hagree.decode hu).trans hw))
  · have herror {x : Except AdapterFailure (Option Value)} (h : ∀ v, x ≠ .ok v) :
        ∃ e, x = .error e := by
      cases x with
      | ok v => exact absurd rfl (h v)
      | error e => exact ⟨e, rfl⟩
    obtain ⟨e, he⟩ := herror fun v hok => hread ⟨(hfirst.1 hok).1, v, (hfirst.1 hok).2⟩
    obtain ⟨e', he'⟩ := herror fun w hok => by
      obtain ⟨hanswers, hw⟩ := hsecond.1 hok
      refine hread ⟨hanswers, Option.ne_none_iff_exists'.1 fun hnone => ?_⟩
      cases hw.symm.trans (hagree.fails.1 hnone)
    exact .inl ⟨e, e', he, he'⟩

namespace Samples

/-! ## Tree nodes -/

/-- A tree node with its members in the order of the fields. -/
def nodeTree (name : String) (children : List Tree) : Tree :=
  .object [("name", .string name), ("children", .array children)]

/-- A tree node in another order, with a member that is unknown. -/
def looseTree (name : String) (children : List Tree) : Tree :=
  .object [("children", .array children), ("zz", .null), ("name", .string name)]

theorem looseTree_alike (name : String) (children : List Tree) :
    Tree.Alike schema (some (.record treeNodeId)) (nodeTree name children)
      (looseTree name children) := by
  have hextra : Tree.Alike schema (some (.record treeNodeId))
      (.object ([("children", .array children)] ++ ("zz", .null) :: [("name", .string name)]))
      (.object ([("children", .array children)] ++ [("name", .string name)])) :=
    .uncounted (r := treeNode) rfl rfl rfl
  exact .trans (.permuted (.swap _ _ _)) hextra.symm

theorem nodeTree_alike (name : String) {j k : Tree}
    (h : Tree.Alike schema (some (.record treeNodeId)) j k) :
    Tree.Alike schema (some (.record treeNodeId)) (nodeTree name [j]) (nodeTree name [k]) := by
  have hmember : Tree.Alike schema (some (.record treeNodeId))
      (.object ([("name", .string name)] ++ ("children", .array ([] ++ j :: [])) :: []))
      (.object ([("name", .string name)] ++ ("children", .array ([] ++ k :: [])) :: [])) :=
    .member (.item h)
  exact hmember

theorem nodeTree_unambiguous (name : String) {children : List Tree}
    (h : ∀ j ∈ children, j.Unambiguous schema (.record treeNodeId)) :
    (nodeTree name children).Unambiguous schema (.record treeNodeId) := by
  have hnodup : ([0, 1] : List Nat).Nodup := by decide
  refine (Tree.unambiguous_record (r := treeNode) rfl).2 ⟨hnodup, fun m hm x hx => ?_⟩
  obtain rfl | rfl : m = ("name", .string name) ∨ m = ("children", .array children) := by
    simpa using hm
  · cases hx
    exact ⟨trivial, nofun⟩
  · cases hx
    exact Tree.unambiguous_vec.2 h

/-- A registry that read a nested record reads it again as the same value when its members stand in
another order, and more of them are unknown. -/
theorem decode_alike_treeNode :
    let text := "\x7b\"name\":\"x\",\"children\":[\x7b\"name\":\"y\",\"children\":[]\x7d]\x7d"
    let text' := "\x7b\"children\":[\x7b\"children\":[],\"zz\":null,\"name\":\"y\"\x7d]," ++
      "\"zz\":null,\"name\":\"x\"\x7d"
    let r' := ((registryOf ["provider"]).decode (.record treeNodeId) (.ofText text)).2
    (r'.decode (.record treeNodeId) (.ofText text')).1 =
      .ok (some (.record [.string "x", .vec [.record [.string "y", .vec []] []]] [])) := by
  intro text text' r'
  have hend : IsBlank [] := .nil
  have hempty : Spells (.array []) ['[', ']'] := ⟨[], rfl, hend⟩
  have hdoc : IsDocument (nodeTree "x" [nodeTree "y" []]) text.toList :=
    Spells.isDocument ⟨_, by decide, _, _, _, _, _, rfl, .none, quote_spells "name", .colon,
      quote_spells "x", _, _, _, _, _, rfl, .comma, quote_spells "children", .colon,
      ⟨_, rfl, _, _, _, rfl, .none, ⟨_, rfl, _, _, _, _, _, rfl, .none, quote_spells "name",
        .colon, quote_spells "y", _, _, _, _, _, rfl, .comma, quote_spells "children", .colon,
        hempty, hend⟩, hend⟩, hend⟩
  have hdoc' : IsDocument (looseTree "x" [looseTree "y" []]) text'.toList :=
    Spells.isDocument ⟨_, by decide, _, _, _, _, _, rfl, .none, quote_spells "children", .colon,
      ⟨_, rfl, _, _, _, rfl, .none, ⟨_, rfl, _, _, _, _, _, rfl, .none, quote_spells "children",
        .colon, hempty, _, _, _, _, _, rfl, .comma, quote_spells "zz", .colon, rfl,
        _, _, _, _, _, rfl, .comma, quote_spells "name", .colon, quote_spells "y", hend⟩,
        hend⟩,
      _, _, _, _, _, rfl, .comma, quote_spells "zz", .colon, rfl,
      _, _, _, _, _, rfl, .comma, quote_spells "name", .colon, quote_spells "x", hend⟩
  have hholds : Holds (.ofText text) (nodeTree "x" [nodeTree "y" []]) := ⟨hdoc, rfl, by decide⟩
  have hholds' : Holds (.ofText text') (looseTree "x" [looseTree "y" []]) :=
    ⟨hdoc', rfl, by decide⟩
  have hsupported : (nodeTree "x" [nodeTree "y" []]).Supported ∧
      (looseTree "x" [looseTree "y" []]).Supported := by
    simp [nodeTree, looseTree, Tree.Supported, Tree.SupportedMembers, Tree.SupportedItems]
  -- the inner node first, and then the outer one
  have halike : Tree.Alike schema (some (.record treeNodeId)) (nodeTree "x" [nodeTree "y" []])
      (looseTree "x" [looseTree "y" []]) :=
    (nodeTree_alike "x" (looseTree_alike "y" [])).trans (looseTree_alike "x" _)
  have hclear : (nodeTree "x" [nodeTree "y" []]).Unambiguous schema (.record treeNodeId) :=
    nodeTree_unambiguous "x" (List.forall_mem_singleton.2 (nodeTree_unambiguous "y" (by simp)))
  have hvalid : (registryOf ["provider"]).Valid fun S c => ¬S.Needs (.record treeNodeId) c.serves :=
    registryOf_valid_of_tables (by decide)
  have hserved : Served (registryOf ["provider"]) (.record treeNodeId) :=
    .of_closed (L := [.record treeNodeId, string, .vec (.record treeNodeId)]) rfl (by decide)
      (by decide) (by decide)
  have hread : ((registryOf ["provider"]).decode (.record treeNodeId) (.ofText text)).1 =
      .ok (some (.record [.string "x", .vec [.record [.string "y", .vec []] []]] [])) :=
    (Registry.decode_eq_ok_iff Schema.readsLawfully_of_unneeded hvalid
      ⟨schema_sound, fun _ h => h⟩ hserved hholds hsupported.1).2 rfl
  obtain ⟨e, e', he, -⟩ | ⟨v, w, hv, hw, hsame⟩ := Registry.decode_alike hvalid schema_sound rfl
    Registry.remembers_of_new (.inr rfl) hholds hholds' hsupported.1 hsupported.2 halike
  · cases hread.symm.trans he
  · rw [hw, ← hsame hclear]
    exact hv.symm.trans hread

end Samples

end JsonAdapters
