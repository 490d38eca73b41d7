import JsonAdapters.Package.Generation
import JsonAdapters.Proofs.Emit.Parts
import JsonAdapters.Proofs.Emit.Table
import JsonAdapters.Proofs.Emit.Words
import JsonAdapters.Proofs.Outcome
import JsonAdapters.Proofs.Package.Pieces

/-!
# The file that holds all adapters

The text of the file is that of its pieces, one after the other. The file mirrors the modules of the
records: it has one module for each start of a path of a record, each module holds the adapters of
its own records in their order, and the factory lists the paths of all records. What the code of
adapters and of the factory says is read again from their tokens.

## Main definitions

* `RecordPlan.publicAdapter`, `adaptersFactory`: the code of an adapter and of the factory in the
  file.
* `Piece.text`: the text of a piece.
* `Mirrors`: what the pieces of the file fulfil.
* `Nameable`: all names in the file are identifiers.

## Main statements

* `AdapterModule.code_gives`: the code of a module is the text of its pieces.
* `unit_mem_placed`, `reexport_mem_placed`: where adapters and re-exports stand in the file.
* `mirrors_ofRecords`: the pieces mirror the modules of the records.
* `adaptersFile_gives`: the file is written if all names in it are identifiers.
-/

namespace JsonAdapters

open Code Emit Outcome

/-! ## Texts of pieces -/

/-- Code of the adapter of a record, which is seen everywhere. -/
def RecordPlan.publicAdapter (r : RecordPlan) : Tokens := (AdapterCode.mk r [.ident "pub"] []).items

namespace Piece

def text : Piece → String
  | use u => u.tokens.text
  | reexport s => words ["pub (crate)", s.glob.tokens.text]
  | unit r => r.publicAdapter.text
  | opens name => words ["pub (crate) mod", name, "\x7b"]
  | closes => "\x7d"

/-- Whether all names that the piece introduces are identifiers. -/
def IsNamed : Piece → Prop
  | reexport s => ∀ n ∈ s.path, isIdentifier n
  | unit r => ∀ f ∈ r.fields, isIdentWord f.adapter.toList
  | opens name => isIdentifier name
  | use _ | closes => True

end Piece

/-- An identifier is written if it is one. -/
theorem identifier_gives (name : String) : Gives (identifier name) (isIdentifier name) name :=
  .check _ _ _

/-- A plain identifier is written if it is no keyword or raw identifier. -/
theorem plainIdentifier_gives (name : String) :
    Gives (plainIdentifier name) (isIdentWord name.toList) name :=
  .check _ _ _

/-- A check in front of a result. -/
theorem checked_gives {α β : Type} {x : Except NotAnIdentifier α} {c : Prop} {a : α}
    (h : Gives x c a) (b : β) : Gives (do discard x; return b) c b := by
  have hresult : Gives (pure b : Except NotAnIdentifier β) True b := .pure b
  exact ((h.map (Function.const α PUnit.unit)).bind hresult).congr (and_iff_left trivial)

theorem Scope.globCode_gives (s : Scope) :
    Gives s.globCode (Piece.reexport s).IsNamed (Piece.reexport s).text :=
  checked_gives (Gives.mapM identifier_gives s.path) _

/-- The adapter of a record can be emitted if all of its parts can be named. -/
theorem Emit.AdapterCode.code_gives (u : AdapterCode) :
    Gives u.code (∀ f ∈ u.record.fields, isIdentWord f.adapter.toList) u.items := by
  have hnames := Gives.mapM (fun p : Part => plainIdentifier_gives p.name) u.parts
  refine (checked_gives hnames _).congr ?_
  have hparts : (∀ p ∈ u.parts, isIdentWord p.name.toList) ↔
      ∀ n ∈ (partsOf u.record.fields).map (·.name), isIdentWord n.toList := by
    simp [AdapterCode.parts]
  rw [hparts, partsOf_names]
  simp

/-- The adapter of a record is written in its module. -/
theorem unit_gives (r : RecordPlan) :
    Gives (AdapterCode.mk r [.ident "pub"] []).code (Piece.unit r).IsNamed r.publicAdapter :=
  AdapterCode.code_gives _

namespace AdapterModule

variable {scopes : Scopes} {path : List String}

/-- Whether all names in the pieces are identifiers. -/
def allNamed (ps : List Piece) : Prop := ∀ p ∈ ps, p.IsNamed

def textOf (ps : List Piece) : String := words (ps.map (·.text))

/-- Imports of a module are written before its adapters. -/
theorem scopeCode_gives (m : AdapterModule) : Gives (scopeCode scopes path m)
    (allNamed (scopePieces scopes path m)) (textOf (scopePieces scopes path m)) := by
  unfold scopeCode scopePieces
  cases scopes.lookup path with
  | none => exact (Gives.pure "").congr (by simp [allNamed])
  | some s =>
    have htext : textOf ((m.uses s).map .use ++ [.reexport s]) =
        words ((m.uses s).map (·.tokens.text) ++ [(Piece.reexport s).text]) := by
      simp [textOf, Piece.text, Function.comp_def]
    dsimp only
    rw [htext]
    have hrun : Gives (pure (words ((m.uses s).map (·.tokens.text) ++ [(Piece.reexport s).text])) :
        Except NotAnIdentifier String) True _ := .pure _
    refine (s.globCode_gives.bind hrun).congr ?_
    simp [allNamed, Piece.IsNamed, or_imp, forall_and]

mutual

/-- The code of a module is the text of its pieces. -/
theorem code_gives (path : List String) : ∀ m : AdapterModule,
    Gives (m.code scopes path) (allNamed (m.pieces scopes path)) (textOf (m.pieces scopes path))
  | mk rs cs => by
    have hscope : Gives (scopeCode scopes path (mk rs cs)) _ _ := scopeCode_gives _
    have hchildren := childrenCode_gives path cs
    have hrun : Gives ((mk rs cs).code scopes path)
        (allNamed (scopePieces scopes path (mk rs cs)) ∧ (∀ r ∈ rs, (Piece.unit r).IsNamed) ∧
          allNamed (childrenPieces scopes path cs) ∧ True)
        (words ([textOf (scopePieces scopes path (mk rs cs))] ++
          rs.map (fun r => (Piece.unit r).text) ++ [textOf (childrenPieces scopes path cs)])) := by
      have hunits := Gives.mapM unit_gives rs
      rw [code, units, List.mapM_map]
      refine hscope.bind (hunits.bind (hchildren.bind ?_))
      rw [List.map_map]
      exact .pure _
    have htext : words ([textOf (scopePieces scopes path (mk rs cs))] ++
        rs.map (fun r => (Piece.unit r).text) ++ [textOf (childrenPieces scopes path cs)]) =
        textOf ((mk rs cs).pieces scopes path) := by
      simp only [textOf, pieces, List.map_append, words_append, words_singleton, List.map_map,
        Function.comp_def]
    rw [← htext]
    refine hrun.congr ?_
    simp only [pieces, allNamed, List.forall_mem_append, List.forall_mem_map, and_true, and_assoc]

/-- Modules within a module are written as their pieces. -/
theorem childrenCode_gives (path : List String) : ∀ cs : List (String × AdapterModule),
    Gives (childrenCode scopes path cs) (allNamed (childrenPieces scopes path cs))
      (textOf (childrenPieces scopes path cs))
  | [] => (Gives.pure "").congr (by simp [allNamed, childrenPieces])
  | (name, m) :: rest => by
    have hinner := code_gives (path ++ [name]) m
    have hrest := childrenCode_gives path rest
    -- the name of a module is asked for after what is within it
    have hrun : Gives (childrenCode scopes path ((name, m) :: rest))
        (allNamed (m.pieces scopes (path ++ [name])) ∧ isIdentifier name ∧
          allNamed (childrenPieces scopes path rest) ∧ True)
        (words ["pub (crate) mod", name, braced [textOf (m.pieces scopes (path ++ [name]))],
          textOf (childrenPieces scopes path rest)]) := by
      rw [childrenCode]
      exact hinner.bind ((identifier_gives name).bind (hrest.bind (.pure _)))
    have htext : words ["pub (crate) mod", name,
        braced [textOf (m.pieces scopes (path ++ [name]))],
        textOf (childrenPieces scopes path rest)] =
        textOf (childrenPieces scopes path ((name, m) :: rest)) := by
      simp only [textOf, childrenPieces, List.cons_append, List.map_append, List.map_cons,
        Piece.text, braced, words_cons, words_append, words_nil, spaced_empty, spaced_assoc,
        List.nil_append]
    rw [← htext]
    refine hrun.congr ?_
    simp only [childrenPieces, allNamed, List.forall_mem_append, List.forall_mem_cons,
      Piece.IsNamed, true_and, and_true]
    tauto

end

end AdapterModule

/-! ## The file -/

/-- The module at a path stands in the file: it is the outermost one, or a record is in or below
it. -/
def IsMirrored (rs : List RecordPlan) (path : List String) : Prop :=
  path = [] ∨ ∃ r ∈ rs, path <+: r.module

/-- The pieces hold the adapters of the records in the modules of the records. -/
structure Mirrors (rs : List RecordPlan) (ps : List Piece) : Prop where
  closed : Closed [] ps
  opened : ∀ path, path ∈ openedModules [] ps ↔ path ≠ [] ∧ IsMirrored rs path
  nodup : (openedModules [] ps).Nodup
  units : ∀ path, unitsIn path [] ps = rs.filter (·.module = path)

/-- All names that the file is made of are identifiers. -/
structure Nameable (module : String) (scopes : Scopes) (rs : List RecordPlan) : Prop where
  wrapper : isIdentifier module
  modules : ∀ r ∈ rs, ∀ n ∈ r.module, isIdentifier n
  parts : ∀ r ∈ rs, ∀ f ∈ r.fields, isIdentWord f.adapter.toList
  scopes : ∀ path s, IsMirrored rs path → scopes.lookup path = some s →
    ∀ n ∈ s.path, isIdentifier n

/-- Names in the path of the record from the root of its package on. -/
def RecordPlan.crateNames (r : RecordPlan) : List String := "crate" :: r.module ++ [r.name]

def RecordPlan.cratePath (r : RecordPlan) : Path := .mk false (r.crateNames.map .plain)

/-- The factory that lists the records. -/
def adaptersFactory (rs : List RecordPlan) : FactoryCode :=
  ⟨adaptersFactoryName, rs.map (·.cratePath)⟩

/-- A file with the given pieces, and a factory for the records. -/
def mirrorFile (module : String) (ps : List Piece) (rs : List RecordPlan) : OutputFile :=
  .ofCode adaptersFileName <| words
    ["# [allow (unused_imports , clippy :: all , clippy :: pedantic , clippy :: nursery)]",
      "pub mod", module,
      braced (ps.map (·.text) ++
        [(adaptersFactory rs).code.text])]

section File

variable {module : String} {scopes : Scopes} {rs : List RecordPlan}

/-- The pieces that are written mirror the modules of the records. -/
theorem mirrors_ofRecords (scopes : Scopes) (rs : List RecordPlan) :
    Mirrors rs ((AdapterModule.ofRecords rs).pieces scopes []) where
  closed := AdapterModule.closed_pieces [] [] _
  opened := by
    intro path
    rw [AdapterModule.mem_openedModules_pieces (AdapterModule.ordered_ofRecords rs)]
    simp only [List.nil_append, AdapterModule.isSome_at?_ofRecords, IsMirrored]
    constructor
    · rintro ⟨q, hq, rfl, h⟩
      exact ⟨hq, h⟩
    · rintro ⟨hne, h⟩
      exact ⟨path, hne, rfl, h⟩
  nodup := AdapterModule.nodup_openedModules [] _ (AdapterModule.ordered_ofRecords rs)
  units := by
    intro path
    rw [← AdapterModule.recordsAt_ofRecords]
    exact AdapterModule.unitsIn_pieces [] path _ (AdapterModule.ordered_ofRecords rs)

/-- In a module of the file stand its own pieces, and the mark that closes it. -/
theorem mem_placed_ofRecords {path : List String} {p : Piece} :
    (path, p) ∈ placed [] ((AdapterModule.ofRecords rs).pieces scopes []) ↔
      ∃ m, (AdapterModule.ofRecords rs).at? path = some m ∧
        (p ∈ m.ownPieces scopes path ∨ path ≠ [] ∧ p = .closes) := by
  rw [AdapterModule.mem_placed_pieces [] path p _ (AdapterModule.ordered_ofRecords rs)]
  constructor
  · rintro ⟨path, m, rfl, h⟩
    exact ⟨m, h⟩
  · rintro ⟨m, h⟩
    exact ⟨path, m, rfl, h⟩

/-- Each piece stands in some module. -/
theorem mem_pieces_iff_placed {p : Piece} :
    p ∈ (AdapterModule.ofRecords rs).pieces scopes [] ↔
      ∃ path, (path, p) ∈ placed [] ((AdapterModule.ofRecords rs).pieces scopes []) := by
  have hclosed : Closed [] _ := (mirrors_ofRecords scopes rs).closed
  nth_rewrite 1 [← map_snd_placed hclosed]
  simp

/-- There is a module for each one on the way to a record. -/
theorem isMirrored_iff_exists_at? {path : List String} :
    IsMirrored rs path ↔ ∃ m, (AdapterModule.ofRecords rs).at? path = some m := by
  rw [IsMirrored, ← AdapterModule.isSome_at?_ofRecords, Option.isSome_iff_exists]

/-- Modules are opened for the paths of records. -/
theorem opens_mem_pieces {name : String} :
    .opens name ∈ (AdapterModule.ofRecords rs).pieces scopes [] ↔ ∃ r ∈ rs, name ∈ r.module := by
  have hmirrors := mirrors_ofRecords scopes rs
  rw [mem_pieces_iff_placed]
  constructor
  · rintro ⟨path, h⟩
    have hopened := AdapterModule.mem_openedModules.2 ⟨path, name, h, rfl⟩
    obtain ⟨-, hnil | ⟨r, hr, hpath⟩⟩ := (hmirrors.opened _).1 hopened
    · simp at hnil
    · exact ⟨r, hr, hpath.subset (by simp)⟩
  · rintro ⟨r, hr, hname⟩
    obtain ⟨before, behind, hsplit⟩ := List.append_of_mem hname
    have hpath : before ++ [name] <+: r.module := ⟨behind, by simp [hsplit]⟩
    have hopened := (hmirrors.opened (before ++ [name])).2 ⟨by simp, .inr ⟨r, hr, hpath⟩⟩
    obtain ⟨path, n, h, heq⟩ := AdapterModule.mem_openedModules.1 hopened
    obtain ⟨-, hn⟩ := List.append_inj' heq rfl
    obtain rfl : name = n := List.singleton_injective hn
    exact ⟨path, h⟩

/-- A module has the records of its path, in their order. -/
theorem records_of_at? {path : List String} {m : AdapterModule}
    (hm : (AdapterModule.ofRecords rs).at? path = some m) :
    m.records = rs.filter (·.module = path) := by
  rw [← AdapterModule.recordsAt_ofRecords, AdapterModule.recordsAt, hm]
  rfl

/-- The adapter of a record stands in the record's module. -/
theorem unit_mem_placed {path : List String} {r : RecordPlan} :
    (path, .unit r) ∈ placed [] ((AdapterModule.ofRecords rs).pieces scopes []) ↔
      r ∈ rs ∧ r.module = path := by
  rw [mem_placed_ofRecords]
  constructor
  · rintro ⟨m, hm, h | ⟨-, ⟨⟩⟩⟩
    rw [AdapterModule.unit_mem_ownPieces, records_of_at? hm, List.mem_filter] at h
    exact ⟨h.1, of_decide_eq_true h.2⟩
  · rintro ⟨hr, rfl⟩
    obtain ⟨m, hm⟩ := isMirrored_iff_exists_at?.1 (.inr ⟨r, hr, List.prefix_refl r.module⟩)
    refine ⟨m, hm, .inl ?_⟩
    rw [AdapterModule.unit_mem_ownPieces, records_of_at? hm]
    exact List.mem_filter.2 ⟨hr, decide_eq_true rfl⟩

/-- A module of the file passes on what the module of the scope at its path declares. -/
theorem reexport_mem_placed {path : List String} {s : Scope} :
    (path, .reexport s) ∈ placed [] ((AdapterModule.ofRecords rs).pieces scopes []) ↔
      IsMirrored rs path ∧ scopes.lookup path = some s := by
  rw [mem_placed_ofRecords, isMirrored_iff_exists_at?]
  constructor
  · rintro ⟨m, hm, h | ⟨-, ⟨⟩⟩⟩
    exact ⟨⟨m, hm⟩, AdapterModule.reexport_mem_ownPieces.1 h⟩
  · rintro ⟨⟨m, hm⟩, h⟩
    exact ⟨m, hm, .inl (AdapterModule.reexport_mem_ownPieces.2 h)⟩

/-- There is an adapter for each record. -/
theorem unit_mem_pieces {r : RecordPlan} :
    .unit r ∈ (AdapterModule.ofRecords rs).pieces scopes [] ↔ r ∈ rs := by
  simp [mem_pieces_iff_placed, unit_mem_placed]

/-- Declarations are imported in the modules that are mirrored and have a scope. -/
theorem reexport_mem_pieces {s : Scope} :
    .reexport s ∈ (AdapterModule.ofRecords rs).pieces scopes [] ↔
      ∃ path, IsMirrored rs path ∧ scopes.lookup path = some s := by
  simp [mem_pieces_iff_placed, reexport_mem_placed]

/-- All names can be written if those of the pieces are identifiers, and that of the module around
them. -/
theorem nameable_iff : Nameable module scopes rs ↔
    isIdentifier module ∧
      AdapterModule.allNamed ((AdapterModule.ofRecords rs).pieces scopes []) := by
  constructor
  · intro h
    refine ⟨h.wrapper, fun p hp => ?_⟩
    cases p with
    | use _ | closes => trivial
    | reexport s =>
      obtain ⟨path, hpath, hs⟩ := reexport_mem_pieces.1 hp
      exact h.scopes path s hpath hs
    | unit r => exact h.parts r (unit_mem_pieces.1 hp)
    | opens name =>
      obtain ⟨r, hr, hname⟩ := opens_mem_pieces.1 hp
      exact h.modules r hr name hname
  · rintro ⟨hmodule, hps⟩
    exact
      { wrapper := hmodule
        modules := fun r hr n hn => hps _ (opens_mem_pieces.2 ⟨r, hr, hn⟩)
        parts := fun r hr => hps _ (unit_mem_pieces.2 hr)
        scopes := fun path s hpath hs => hps _ (reexport_mem_pieces.2 ⟨path, hpath, hs⟩) }

/-- The path of a record is written from the root of the package. -/
theorem RecordPlan.fullPath_gives (r : RecordPlan) :
    Gives r.fullPath (∀ n ∈ r.module, isIdentifier n) r.cratePath := by
  have hnames := Gives.mapM identifier_gives r.module
  have hrun : Gives r.fullPath ((∀ n ∈ r.module, isIdentifier n) ∧ True)
      (.mk false (("crate" :: r.module.map id ++ [r.name]).map .plain)) :=
    hnames.bind (.pure _)
  rw [List.map_id] at hrun
  exact hrun.congr (and_iff_left trivial)

/-- A factory lists the paths of its records, in their order. -/
theorem FactoryCode.ofRecords_gives (name : String) (rs : List RecordPlan) :
    Gives (FactoryCode.ofRecords name rs) (∀ r ∈ rs, ∀ n ∈ r.module, isIdentifier n)
      ⟨name, rs.map (·.cratePath)⟩ := by
  have hrun : Gives (FactoryCode.ofRecords name rs)
      ((∀ r ∈ rs, ∀ n ∈ r.module, isIdentifier n) ∧ True) ⟨name, rs.map (·.cratePath)⟩ :=
    (Gives.mapM RecordPlan.fullPath_gives rs).bind (.pure _)
  exact hrun.congr (and_iff_left trivial)

/-- The file is written if all names in it are identifiers, and is then the mirror. -/
theorem adaptersFile_gives (module : String) (scopes : Scopes) (rs : List RecordPlan) :
    Gives (adaptersFile module scopes rs) (Nameable module scopes rs)
      (mirrorFile module ((AdapterModule.ofRecords rs).pieces scopes []) rs) := by
  have hadapters : Gives ((AdapterModule.ofRecords rs).code scopes []) _ _ :=
    AdapterModule.code_gives [] _
  have htext (ps : List Piece) (code : String) :
      braced (ps.map (·.text) ++ [code]) = braced [AdapterModule.textOf ps, code] := by
    simp only [braced, AdapterModule.textOf, words_append, words_cons, words_nil, spaced_empty]
  have hrun : Gives (adaptersFile module scopes rs)
      (isIdentifier module ∧
        AdapterModule.allNamed ((AdapterModule.ofRecords rs).pieces scopes []) ∧
        (∀ r ∈ rs, ∀ n ∈ r.module, isIdentifier n) ∧ True)
      (mirrorFile module ((AdapterModule.ofRecords rs).pieces scopes []) rs) := by
    rw [mirrorFile, htext]
    exact (identifier_gives module).bind
      (hadapters.bind ((FactoryCode.ofRecords_gives _ rs).bind (.pure _)))
  refine hrun.congr ?_
  constructor
  · rintro ⟨hmodule, hps, -⟩
    exact nameable_iff.2 ⟨hmodule, hps⟩
  · intro h
    obtain ⟨hmodule, hps⟩ := nameable_iff.1 h
    exact ⟨hmodule, hps, h.modules, trivial⟩

/-- The table of the factory has the paths of all records, in their order. -/
theorem factoryParser_adaptersFactory (rs : List RecordPlan) :
    factoryParser.runAll? (adaptersFactory rs).code =
      some (adaptersFactoryName, rs.map (·.crateNames)) := by
  have hentries : (adaptersFactory rs).entries =
      (rs.map (·.crateNames)).map FactoryCode.pathOf := by
    rw [List.map_map]
    rfl
  have hnames : ∀ names ∈ rs.map (·.crateNames), names ≠ [] := by simp [RecordPlan.crateNames]
  exact (FactoryCode.reads_code hentries hnames).runAll?

end File

end JsonAdapters
