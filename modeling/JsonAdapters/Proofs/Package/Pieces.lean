import JsonAdapters.Proofs.Package.ModuleTree

/-!
# Pieces of adapter modules

A module of adapters is written as a sequence of pieces: imports, adapters, and the marks that open
and close the modules in it. Read from the front, each piece stands in the modules that are open
there.

## Main definitions

* `Piece`: a piece of a module.
* `placed`: pieces, each with the module in which it stands.
* `openedModules`, `unitsIn`: the modules that are opened, and the records whose adapters stand in
  one of them.
* `AdapterModule.pieces`: the pieces of a module.

## Main statements

* `AdapterModule.closed_pieces`: all modules that are opened are closed.
* `AdapterModule.mem_placed_pieces`: what stands where.
* `AdapterModule.mem_openedModules_pieces`, `AdapterModule.nodup_openedModules`: each module is
  opened once.
* `AdapterModule.unitsIn_pieces`: the adapters in a module.
-/

namespace JsonAdapters

open Code

/-! ## Pieces -/

/-- A piece of a module of adapters. -/
inductive Piece
  | use (u : UseItem)
  /-- The import of all that the module of a scope declares. -/
  | reexport (s : Scope)
  /-- The adapter of a record. -/
  | unit (r : RecordPlan)
  | opens (name : String)
  | closes

namespace Piece

/-- The record whose adapter the piece is. -/
def unit? : Piece → Option RecordPlan
  | unit r => some r
  | _ => none

/-- The name of the module that the piece opens. -/
def opens? : Piece → Option String
  | opens name => some name
  | _ => none

/-- The module in which the next piece stands; there is none behind a mark that closes no module. -/
def leadsFrom (m : List String) : Piece → Option (List String)
  | opens name => some (m ++ [name])
  | closes => if m = [] then none else some m.dropLast
  | use _ | reexport _ | unit _ => some m

end Piece

/-- Pieces from a module on, each with the module in which it stands. -/
def placed (m : List String) : List Piece → List (List String × Piece)
  | [] => []
  | p :: ps => (m, p) :: (p.leadsFrom m).elim [] fun m' => placed m' ps

/-- Every module that the pieces open is closed, and no other one. -/
def Closed (m : List String) (ps : List Piece) : Prop := ps.foldlM Piece.leadsFrom m = some m

/-- Modules that the pieces open, in their order. -/
def openedModules (m : List String) (ps : List Piece) : List (List String) :=
  (placed m ps).filterMap fun x => x.2.opens?.map fun name => x.1 ++ [name]

/-- Records whose adapters stand in the module at `path`, in their order. -/
def unitsIn (path m : List String) (ps : List Piece) : List RecordPlan :=
  ((placed m ps).filter (·.1 = path)).filterMap (·.2.unit?)

section Reading

variable {m m' : List String} {ps qs : List Piece}

/-- Pieces that follow others stand where those lead. -/
theorem placed_append (h : ps.foldlM Piece.leadsFrom m = some m') (qs : List Piece) :
    placed m (ps ++ qs) = placed m ps ++ placed m' qs := by
  induction ps generalizing m with
  | nil =>
    obtain rfl : m = m' := Option.some.inj h
    rfl
  | cons p ps ih =>
    rw [List.foldlM_cons] at h
    obtain ⟨m₁, hp, hps⟩ := Option.bind_eq_some_iff.1 h
    rw [List.cons_append, placed, placed, hp, Option.elim_some, Option.elim_some, ih hps,
      List.cons_append]

/-- Two closed sequences of pieces make a closed one. -/
theorem Closed.append (hp : Closed m ps) (hq : Closed m qs) : Closed m (ps ++ qs) := by
  rw [Closed, List.foldlM_append, hp]
  exact hq

/-- Pieces that open and close nothing are closed. -/
theorem closed_of_still (h : ∀ p ∈ ps, p.leadsFrom m = some m) : Closed m ps := by
  induction ps with
  | nil => rfl
  | cons p ps ih =>
    rw [Closed, List.foldlM_cons, h p List.mem_cons_self]
    exact ih fun q hq => h q (List.mem_cons_of_mem p hq)

/-- Pieces that open and close nothing all stand in one module. -/
theorem placed_of_still (h : ∀ p ∈ ps, p.leadsFrom m = some m) : placed m ps = ps.map (m, ·) := by
  induction ps with
  | nil => rfl
  | cons p ps ih =>
    rw [placed, h p List.mem_cons_self, Option.elim_some,
      ih fun q hq => h q (List.mem_cons_of_mem p hq), List.map_cons]

/-- Each piece is placed once, where every mark closes a module. -/
theorem map_snd_placed (h : ps.foldlM Piece.leadsFrom m = some m') :
    (placed m ps).map (·.2) = ps := by
  induction ps generalizing m with
  | nil => rfl
  | cons p ps ih =>
    rw [List.foldlM_cons] at h
    obtain ⟨m₁, hp, hps⟩ := Option.bind_eq_some_iff.1 h
    rw [placed, hp, Option.elim_some, List.map_cons, ih hps]

end Reading

/-! ## Pieces of a module -/

namespace AdapterModule

/-- The imports of the module at a path, for which a scope may be known. -/
def scopePieces (scopes : Scopes) (path : List String) (m : AdapterModule) : List Piece :=
  match scopes.lookup path with
  | none => []
  | some s => (m.uses s).map .use ++ [.reexport s]

mutual

/-- The pieces of the module at a path. -/
def pieces (scopes : Scopes) (path : List String) : AdapterModule → List Piece
  | mk rs cs =>
    scopePieces scopes path (mk rs cs) ++ rs.map .unit ++ childrenPieces scopes path cs

def childrenPieces (scopes : Scopes) (path : List String) :
    List (String × AdapterModule) → List Piece
  | [] => []
  | (name, m) :: rest =>
    .opens name :: pieces scopes (path ++ [name]) m ++ .closes :: childrenPieces scopes path rest

end

variable {scopes : Scopes} {path : List String} {m : AdapterModule}

/-- The pieces that stand directly in the module, before those that close the modules in it. -/
def ownPieces (scopes : Scopes) (path : List String) (m : AdapterModule) : List Piece :=
  scopePieces scopes path m ++ m.records.map .unit ++ m.children.map fun c => .opens c.1

/-- Before the adapters of a module stand its imports and the import of its declarations. -/
theorem mem_scopePieces {p : Piece} : p ∈ scopePieces scopes path m ↔
    ∃ s, scopes.lookup path = some s ∧ ((∃ u ∈ m.uses s, .use u = p) ∨ p = .reexport s) := by
  unfold scopePieces
  cases scopes.lookup path <;> simp

/-- Imports open and close nothing. -/
theorem leadsFrom_of_mem_scopePieces {p : Piece} (h : p ∈ scopePieces scopes path m)
    (here : List String) : p.leadsFrom here = some here := by
  obtain ⟨s, -, ⟨u, -, rfl⟩ | rfl⟩ := mem_scopePieces.1 h <;> rfl

/-- Neither imports nor adapters open or close a module. -/
theorem leadsFrom_of_mem_front {p : Piece} (rs : List RecordPlan)
    (h : p ∈ scopePieces scopes path m ++ rs.map .unit) (here : List String) :
    p.leadsFrom here = some here := by
  rcases List.mem_append.1 h with h | h
  · exact leadsFrom_of_mem_scopePieces h here
  · obtain ⟨r, -, rfl⟩ := List.mem_map.1 h
    rfl

mutual

theorem closed_pieces (here path : List String) :
    ∀ m : AdapterModule, Closed here (m.pieces scopes path)
  | mk rs cs => by
    rw [pieces]
    exact (closed_of_still fun p hp => leadsFrom_of_mem_front rs hp here).append
      (closed_childrenPieces here path cs)

/-- All modules that are opened within a module are closed. -/
theorem closed_childrenPieces (here path : List String) :
    ∀ cs : List (String × AdapterModule), Closed here (childrenPieces scopes path cs)
  | [] => rfl
  | (name, m) :: rest => by
    have hinner := closed_pieces (here ++ [name]) (path ++ [name]) m
    have hrest := closed_childrenPieces here path rest
    rw [Closed] at hinner hrest
    rw [childrenPieces, List.cons_append, Closed, List.foldlM_cons]
    simp only [Piece.leadsFrom, Option.bind_eq_bind, Option.bind_some, List.foldlM_append, hinner,
      List.foldlM_cons]
    simpa using hrest

end

/-- Imports and adapters of a module stand before the modules in it. -/
theorem placed_pieces (rs : List RecordPlan) (cs : List (String × AdapterModule)) :
    placed path ((mk rs cs).pieces scopes path) =
      (scopePieces scopes path (mk rs cs) ++ rs.map Piece.unit).map (path, ·) ++
        placed path (childrenPieces scopes path cs) := by
  have hstill {p : Piece} (hp : p ∈ scopePieces scopes path (mk rs cs) ++ rs.map .unit) :=
    leadsFrom_of_mem_front rs hp path
  rw [pieces, placed_append (closed_of_still fun p hp => hstill hp),
    placed_of_still fun p hp => hstill hp]

/-- A module within another stands between two marks. -/
theorem placed_childrenPieces (name : String) (m : AdapterModule)
    (rest : List (String × AdapterModule)) :
    placed path (childrenPieces scopes path ((name, m) :: rest)) =
      (path, .opens name) :: placed (path ++ [name]) (m.pieces scopes (path ++ [name])) ++
        (path ++ [name], .closes) :: placed path (childrenPieces scopes path rest) := by
  have hinner : Closed (path ++ [name]) (m.pieces scopes (path ++ [name])) := closed_pieces _ _ m
  rw [childrenPieces, List.cons_append, placed]
  simp only [Piece.leadsFrom, Option.elim_some]
  rw [placed_append hinner, placed]
  simp [Piece.leadsFrom]

/-! ## What stands where -/

theorem at?_cons (n : String) (q : List String) (rs : List RecordPlan)
    (cs : List (String × AdapterModule)) :
    (mk rs cs).at? (n :: q) = (cs.lookup n).bind (at? q) := rfl

mutual

/-- In the module at a path stand its own pieces, and the mark that closes it. -/
theorem mem_placed_pieces (path here : List String) (p : Piece) : ∀ m : AdapterModule, m.Ordered →
    ((here, p) ∈ placed path (m.pieces scopes path) ↔
      ∃ q sub, here = path ++ q ∧ m.at? q = some sub ∧
        (p ∈ ownPieces scopes here sub ∨ q ≠ [] ∧ p = .closes))
  | mk rs cs, hm => by
    have hcs : AllOrdered cs := hm
    rw [placed_pieces, List.mem_append, mem_placed_childrenPieces path here p cs hcs]
    constructor
    · rintro (h | ⟨rfl, h⟩ | ⟨n, q, sub, rfl, hsub, h⟩)
      · obtain ⟨p, hp, hpair⟩ := List.mem_map.1 h
        cases hpair
        exact ⟨[], _, (List.append_nil _).symm, rfl, .inl (List.mem_append_left _ hp)⟩
      · obtain ⟨c, hc, rfl⟩ := h
        refine ⟨[], _, (List.append_nil _).symm, rfl, .inl (List.mem_append_right _ ?_)⟩
        exact List.mem_map.2 ⟨c, hc, rfl⟩
      · exact ⟨n :: q, sub, rfl, hsub, h.imp_right fun h => ⟨List.cons_ne_nil n q, h⟩⟩
    -- the path tells the module itself, with nothing left, from those in it
    · rintro ⟨q, sub, rfl, hsub, h⟩
      cases q with
      | nil =>
        obtain rfl : mk rs cs = sub := Option.some.inj hsub
        obtain h | ⟨hne, -⟩ := h
        · rw [List.append_nil] at h ⊢
          rcases List.mem_append.1 h with h | h
          · exact .inl (List.mem_map.2 ⟨p, h, rfl⟩)
          · obtain ⟨c, hc, rfl⟩ := List.mem_map.1 h
            exact .inr (.inl ⟨rfl, c, hc, rfl⟩)
        · exact absurd rfl hne
      | cons n q => exact .inr (.inr ⟨n, q, sub, rfl, hsub, h.imp_right And.right⟩)

/-- A piece of the modules within another one opens one of them, or stands in one of them. -/
theorem mem_placed_childrenPieces (path here : List String) (p : Piece) :
    ∀ cs : List (String × AdapterModule), AllOrdered cs →
    ((here, p) ∈ placed path (childrenPieces scopes path cs) ↔
      (here = path ∧ ∃ c ∈ cs, p = .opens c.1) ∨
      ∃ n q sub, here = path ++ n :: q ∧ (cs.lookup n).bind (at? q) = some sub ∧
        (p ∈ ownPieces scopes here sub ∨ p = .closes))
  | [], _ => by simp [childrenPieces, placed]
  | (name, m) :: rest, ⟨hm, hlt, hrest⟩ => by
    have hinner := mem_placed_pieces (path ++ [name]) here p m hm
    have hothers := mem_placed_childrenPieces path here p rest hrest
    -- names grow, so the first module is not found again among the others
    have hnone : rest.lookup name = none := lookup_of_lt hlt
    have happend (q : List String) : path ++ [name] ++ q = path ++ name :: q := by simp
    rw [placed_childrenPieces, List.mem_append, List.mem_cons, List.mem_cons, hinner, hothers]
    constructor
    · rintro ((h | ⟨q, sub, rfl, hsub, h⟩) | h | ⟨rfl, c, hc, rfl⟩ | ⟨n, q, sub, rfl, hsub, h⟩)
      · cases h
        exact .inl ⟨rfl, _, List.mem_cons_self, rfl⟩
      · refine .inr ⟨name, q, sub, happend q, ?_, h.imp_right And.right⟩
        rw [lookup_cons_ite, if_pos rfl]
        exact hsub
      · cases h
        refine .inr ⟨name, [], m, rfl, ?_, .inr rfl⟩
        rw [lookup_cons_ite, if_pos rfl]
        rfl
      · exact .inl ⟨rfl, c, List.mem_cons_of_mem _ hc, rfl⟩
      · have hn : n ≠ name := by
          rintro rfl
          rw [hnone] at hsub
          cases hsub
        refine .inr ⟨n, q, sub, rfl, ?_, h⟩
        rwa [lookup_cons_ite, if_neg hn]
    · rintro (⟨rfl, c, hc, rfl⟩ | ⟨n, q, sub, rfl, hsub, h⟩)
      · rcases List.mem_cons.1 hc with rfl | hc
        · exact .inl (.inl rfl)
        · exact .inr (.inr (.inl ⟨rfl, c, hc, rfl⟩))
      · rw [lookup_cons_ite] at hsub
        by_cases hn : n = name
        · rw [if_pos hn] at hsub
          subst hn
          obtain h | rfl := h
          · exact .inl (.inr ⟨q, sub, (happend q).symm, hsub, .inl h⟩)
          · cases q with
            | nil => exact .inr (.inl rfl)
            | cons n' q =>
              exact .inl (.inr ⟨n' :: q, sub, (happend _).symm, hsub, .inr ⟨by simp, rfl⟩⟩)
        · rw [if_neg hn] at hsub
          exact .inr (.inr (.inr ⟨n, q, sub, rfl, hsub, h⟩))

end

/-- A module opens the modules in it. -/
theorem opens_mem_ownPieces {name : String} :
    .opens name ∈ ownPieces scopes path m ↔ ∃ c ∈ m.children, c.1 = name := by
  simp [ownPieces, mem_scopePieces]

/-- A module has the adapters of its own records. -/
theorem unit_mem_ownPieces {r : RecordPlan} :
    .unit r ∈ ownPieces scopes path m ↔ r ∈ m.records := by
  simp [ownPieces, mem_scopePieces]

/-- All that a module declares is imported, where there is a scope for it. -/
theorem reexport_mem_ownPieces {s : Scope} :
    .reexport s ∈ ownPieces scopes path m ↔ scopes.lookup path = some s := by
  simp [ownPieces, mem_scopePieces]

/-! ## Modules that are opened -/

/-- The last step to a module goes from the module around it. -/
theorem at?_concat (q : List String) (n : String) (m : AdapterModule) :
    m.at? (q ++ [n]) = (m.at? q).bind fun sub => sub.children.lookup n := by
  induction q generalizing m with
  | nil => simp [at?]
  | cons n' q ih =>
    obtain ⟨rs, cs⟩ := m
    rw [List.cons_append, at?_cons, at?_cons, Option.bind_assoc]
    exact congrArg _ (funext ih)

theorem isSome_lookup {n : String} {cs : List (String × AdapterModule)} :
    (cs.lookup n).isSome = true ↔ ∃ c ∈ cs, c.1 = n := by
  rw [← not_iff_not, Option.not_isSome_iff_eq_none, List.lookup_eq_none_iff]
  simp only [bne_iff_ne, not_exists, not_and]
  exact forall₂_congr fun c _ => not_congr eq_comm

/-- A module is opened where the mark that opens it stands. -/
theorem mem_openedModules {here : List String} {ps : List Piece} :
    here ∈ openedModules path ps ↔ ∃ m n, (m, .opens n) ∈ placed path ps ∧ here = m ++ [n] := by
  constructor
  · intro h
    obtain ⟨⟨m, p⟩, hp, heq⟩ := List.mem_filterMap.1 h
    cases p with
    | opens n => exact ⟨m, n, hp, (Option.some.inj heq).symm⟩
    | use _ | reexport _ | unit _ | closes => cases heq
  · rintro ⟨m, n, hp, rfl⟩
    exact List.mem_filterMap.2 ⟨_, hp, rfl⟩

/-- The modules that are opened in a module are those that it has at some path. -/
theorem mem_openedModules_pieces (hm : m.Ordered) {here : List String} :
    here ∈ openedModules path (m.pieces scopes path) ↔
      ∃ q ≠ [], here = path ++ q ∧ (m.at? q).isSome = true := by
  rw [mem_openedModules]
  constructor
  · rintro ⟨here, n, h, rfl⟩
    obtain ⟨q, sub, rfl, hsub, h | ⟨-, ⟨⟩⟩⟩ := (mem_placed_pieces path here _ m hm).1 h
    refine ⟨q ++ [n], by simp, by simp, ?_⟩
    rw [at?_concat, hsub]
    exact isSome_lookup.2 (opens_mem_ownPieces.1 h)
  · rintro ⟨q, hq, rfl, hsome⟩
    obtain ⟨q, n, rfl⟩ := (List.eq_nil_or_concat' q).resolve_left hq
    rw [at?_concat] at hsome
    cases hsub : m.at? q with
    | none => simp [hsub] at hsome
    | some sub =>
      rw [hsub] at hsome
      refine
        ⟨path ++ q, n, (mem_placed_pieces path _ _ m hm).2 ⟨q, sub, rfl, hsub, .inl ?_⟩, by simp⟩
      exact opens_mem_ownPieces.2 (isSome_lookup.1 hsome)

/-- Only modules in it are opened in a module. -/
theorem openedModules_pieces (rs : List RecordPlan) (cs : List (String × AdapterModule)) :
    openedModules path ((mk rs cs).pieces scopes path) =
      openedModules path (childrenPieces scopes path cs) := by
  have hfront : ((scopePieces scopes path (mk rs cs) ++ rs.map Piece.unit).map (path, ·)).filterMap
      (fun x => x.2.opens?.map fun name => x.1 ++ [name]) = [] := by
    rw [List.filterMap_eq_nil_iff]
    intro x hx
    obtain ⟨p, hp, rfl⟩ := List.mem_map.1 hx
    have hstill := leadsFrom_of_mem_front rs hp path
    cases p with
    | opens n => simp [Piece.leadsFrom] at hstill
    | use _ | reexport _ | unit _ | closes => rfl
  rw [openedModules, placed_pieces, List.filterMap_append, hfront, List.nil_append, openedModules]

mutual

/-- No module is opened twice. -/
theorem nodup_openedModules (path : List String) :
    ∀ m : AdapterModule, m.Ordered → (openedModules path (m.pieces scopes path)).Nodup
  | mk rs cs, hm => by
    rw [openedModules_pieces]
    exact nodup_openedChildren path cs hm

/-- No module is opened twice among those within another. -/
theorem nodup_openedChildren (path : List String) : ∀ cs : List (String × AdapterModule),
    AllOrdered cs → (openedModules path (childrenPieces scopes path cs)).Nodup
  | [], _ => List.nodup_nil
  | (name, m) :: rest, ⟨hm, hlt, hrest⟩ => by
    have hnone : rest.lookup name = none := lookup_of_lt hlt
    have heq : openedModules path (childrenPieces scopes path ((name, m) :: rest)) =
        (path ++ [name]) :: openedModules (path ++ [name]) (m.pieces scopes (path ++ [name])) ++
          openedModules path (childrenPieces scopes path rest) := by
      rw [openedModules, placed_childrenPieces, List.filterMap_append]
      simp [Piece.opens?, openedModules]
    have hothers {here : List String}
        (h : here ∈ openedModules path (childrenPieces scopes path rest)) (q : List String) :
        here ≠ path ++ name :: q := by
      rw [← openedModules_pieces [], mem_openedModules_pieces (m := mk [] rest) hrest] at h
      obtain ⟨q', hq', rfl, hsome⟩ := h
      intro heq
      rw [List.append_cancel_left heq, at?_cons, hnone] at hsome
      cases hsome
    rw [heq, List.nodup_append, List.nodup_cons]
    refine ⟨⟨?_, nodup_openedModules _ m hm⟩, nodup_openedChildren path rest hrest, ?_⟩
    · intro h
      obtain ⟨q, hq, heq, -⟩ := (mem_openedModules_pieces hm).1 h
      exact hq (List.self_eq_append_right.1 heq)
    · intro a ha b hb hab
      subst hab
      rcases List.mem_cons.1 ha with rfl | ha
      · exact hothers hb [] rfl
      · obtain ⟨q, -, rfl, -⟩ := (mem_openedModules_pieces hm).1 ha
        exact hothers hb q (by simp)

end

/-! ## Adapters of a module -/

/-- Where no adapter is placed, there is none. -/
theorem unitsIn_eq_nil {here : List String} {ps : List Piece}
    (h : ∀ r, (here, .unit r) ∉ placed path ps) : unitsIn here path ps = [] := by
  rw [unitsIn, List.filterMap_eq_nil_iff]
  rintro ⟨m, p⟩ hx
  obtain ⟨hmem, hm⟩ := List.mem_filter.1 hx
  obtain rfl : m = here := by simpa using hm
  cases p with
  | unit r => exact absurd hmem (h r)
  | use _ | reexport _ | opens _ | closes => rfl

theorem unit?_of_mem_scopePieces {p : Piece} (h : p ∈ scopePieces scopes path m) :
    p.unit? = none := by
  obtain ⟨s, -, ⟨u, -, rfl⟩ | rfl⟩ := mem_scopePieces.1 h <;> rfl

/-- Adapters of a module come from itself, or from the modules in it. -/
theorem unitsIn_pieces_split (here path : List String) (rs : List RecordPlan)
    (cs : List (String × AdapterModule)) : unitsIn here path ((mk rs cs).pieces scopes path) =
      (if here = path then rs else []) ++ unitsIn here path (childrenPieces scopes path cs) := by
  have hfront : ∀ x ∈ (scopePieces scopes path (mk rs cs) ++ rs.map Piece.unit).map (path, ·),
      x.1 = path := by
    intro x hx
    obtain ⟨p, -, rfl⟩ := List.mem_map.1 hx
    rfl
  rw [unitsIn, placed_pieces, List.filter_append, List.filterMap_append, ← unitsIn]
  congr 1
  by_cases h : here = path
  · have hscope : (scopePieces scopes path (mk rs cs)).filterMap Piece.unit? = [] :=
      List.filterMap_eq_nil_iff.2 fun p hp => unit?_of_mem_scopePieces hp
    have hunits : (rs.map Piece.unit).filterMap Piece.unit? = rs := by
      simp [List.filterMap_map, Function.comp_def, Piece.unit?]
    rw [if_pos h, List.filter_eq_self.2 fun x hx => decide_eq_true ((hfront x hx).trans h.symm),
      List.filterMap_map, List.filterMap_append]
    change List.filterMap Piece.unit? _ ++ List.filterMap Piece.unit? _ = rs
    rw [hscope, hunits, List.nil_append]
  · rw [if_neg h, List.filter_eq_nil_iff.2, List.filterMap_nil]
    intro x hx
    rw [hfront x hx]
    simpa using Ne.symm h

/-- Adapters within a module come from the first module in it or from the others. -/
theorem unitsIn_children_cons (here path : List String) (name : String) (m : AdapterModule)
    (rest : List (String × AdapterModule)) :
    unitsIn here path (childrenPieces scopes path ((name, m) :: rest)) =
      unitsIn here (path ++ [name]) (m.pieces scopes (path ++ [name])) ++
        unitsIn here path (childrenPieces scopes path rest) := by
  have hmark (m : List String) (p : Piece) (hp : p.unit? = none)
      (xs : List (List String × Piece)) :
      (((m, p) :: xs).filter (·.1 = here)).filterMap (·.2.unit?) =
        (xs.filter (·.1 = here)).filterMap (·.2.unit?) := by
    by_cases h : m = here <;> simp [h, hp]
  rw [unitsIn, placed_childrenPieces, List.filter_append, List.filterMap_append, hmark _ _ rfl,
    hmark _ _ rfl]
  rfl

mutual

/-- In each module stand the adapters of its records, in their order. -/
theorem unitsIn_pieces (path q : List String) : ∀ m : AdapterModule, m.Ordered →
    unitsIn (path ++ q) path (m.pieces scopes path) = m.recordsAt q
  | mk rs cs, hm => by
    have hcs : AllOrdered cs := hm
    rw [unitsIn_pieces_split]
    cases q with
    | nil =>
      have hinner : unitsIn path path (childrenPieces scopes path cs) = [] := by
        apply unitsIn_eq_nil
        intro r h
        obtain ⟨-, c, -, ⟨⟩⟩ | ⟨n, q, sub, heq, -⟩ :=
          (mem_placed_childrenPieces path _ _ cs hcs).1 h
        simp at heq
      rw [List.append_nil, if_pos rfl, hinner, List.append_nil]
      rfl
    | cons n q =>
      rw [if_neg (by simp), List.nil_append, unitsIn_childrenPieces path n q cs hcs, recordsAt,
        at?_cons]

/-- Adapters in a module below are those of the module at its path. -/
theorem unitsIn_childrenPieces (path : List String) (n : String) (q : List String) :
    ∀ cs : List (String × AdapterModule), AllOrdered cs →
    unitsIn (path ++ n :: q) path (childrenPieces scopes path cs) =
      ((cs.lookup n).bind (at? q)).elim [] records
  | [], _ => rfl
  | (name, m) :: rest, ⟨hm, hlt, hrest⟩ => by
    rw [unitsIn_children_cons, unitsIn_childrenPieces path n q rest hrest, lookup_cons_ite]
    by_cases hn : n = name
    · subst hn
      have hinner := unitsIn_pieces (path ++ [n]) q m hm
      rw [List.append_assoc, List.singleton_append] at hinner
      rw [hinner, lookup_of_lt hlt, if_pos rfl]
      simp [recordsAt]
    · have hinner : unitsIn (path ++ n :: q) (path ++ [name]) (m.pieces scopes (path ++ [name])) =
          [] := by
        apply unitsIn_eq_nil
        intro r h
        obtain ⟨q', sub, heq, -⟩ := (mem_placed_pieces _ _ _ m hm).1 h
        simp [hn] at heq
      rw [hinner, if_neg hn, List.nil_append]

end

end AdapterModule

end JsonAdapters
