import JsonAdapters.Emit.Factory
import JsonAdapters.Proofs.Code.NormalTypes
import JsonAdapters.Proofs.Emit.Contents

/-!
# Tables of emitted factories

The code of a factory is read again: its name, and the paths of the records in its table.

## Main definitions

* `Emit.factoryParser`: the name of a factory, and the names in each path of its table.

## Main statements

* `Emit.FactoryCode.reads_code`: the table has the paths for which it was emitted, in their order.
-/

namespace JsonAdapters.Emit

open Code

/-! ## Parsers -/

/-- The names in the path of a record. -/
def entryParser : Parser (List String) := do
  phrase ":: kson :: DispatchEntry :: of :: <"
  let first ← anyIdent
  let others ← manyWhile (startsMark "::") (do mark "::"; anyIdent)
  phrase "> ()"
  return first :: others

/-- The entries of the table, which the factory uses and shows. -/
def tableParser : Parser (List (List String)) := do
  phrase "const ENTRIES : & 'static [:: kson :: DispatchEntry] = &"
  let entries ← within .bracket (manyToEnd (entry entryParser))
  phrase "; # [doc = r\" Served records, in discovery order.\"] pub const TABLE"
  phrase ": :: kson :: DispatchTable = :: kson :: DispatchTable :: new (Self :: ENTRIES) ;"
  return entries

/-- The routine that looks for a token in the table. -/
def createParser : Parser Unit := do
  phrase "fn create (& self , kson : & :: kson :: Kson , token : & :: kson :: TypeToken ,)"
  phrase "->"
  phrase ":: core :: option :: Option <"
  phrase ":: kson :: ErasedAdapter"
  phrase ">"
  phrase "{ Self :: TABLE . create (kson , token) }"

def factoryParser : Parser (String × List (List String)) := do
  phrase "# [doc = r\" Generated type adapter factory.\"]"
  phrase "# [derive (Clone , Copy , Debug , Default)] pub struct"
  let name ← anyIdent
  phrase "; impl"
  let _ ← anyIdent
  let entries ← within .brace tableParser
  phrase "# [automatically_derived] impl :: kson :: TypeAdapterFactory for"
  let _ ← anyIdent
  within .brace createParser
  return (name, entries)

/-! ## Code -/

namespace FactoryCode

/-- A path of plain names. -/
def pathOf (names : List String) : Path := .mk false (names.map .plain)

theorem pathOf_cons_tokens (n : String) (names : List String) :
    (pathOf (n :: names)).tokens = word n ++ names.flatMap fun m => pathSep ++ word m := by
  rw [pathOf, Path.tokens, List.map_cons, segmentTokens_cons, Segment.tokens, List.flatMap_map]
  simp only [Segment.tokens]
  rfl

theorem reads_entry {names : List String} (h : names ≠ []) (us : Tokens) :
    entryParser.Reads (entryCode (pathOf names) ++ us) names us := by
  obtain ⟨n, names, rfl⟩ := List.exists_cons_of_ne_nil h
  have hclose : verbatim "> ()" = [.punct '>' false, .group .paren []] := by rfl
  have hend : startsMark "::" (verbatim "> ()" ++ us) = false := by
    rw [hclose]
    rfl
  have hothers : (manyWhile (startsMark "::") (do mark "::"; anyIdent)).Reads
      ((names.flatMap fun m => pathSep ++ word m) ++ (verbatim "> ()" ++ us)) names
      (verbatim "> ()" ++ us) := by
    refine .manyWhile rfl (fun _ _ _ => rfl) (fun m _ vs => ?_) hend
    rw [List.append_assoc]
    exact .bind (.mark_pathSep _) (.name m vs)
  simp only [entryCode, pathOf_cons_tokens, List.append_assoc]
  exact .bind (.phrase _ _) (.bind (.name n _) (.bind hothers (.bind (.phrase _ us) (.pure _ us))))

variable {u : FactoryCode} {paths : List (List String)}

theorem reads_table (hu : u.entries = paths.map pathOf) (hpaths : ∀ names ∈ paths, names ≠ []) :
    tableParser.Reads u.tableCode paths [] := by
  have hentries : (manyToEnd (entry entryParser)).Reads (listed (u.entries.map entryCode))
      (paths.map id) [] := by
    rw [hu, List.map_map]
    exact reads_listed fun names hnames us => reads_entry (hpaths names hnames) _
  rw [List.map_id] at hentries
  have htable : u.tableCode =
      verbatim "const ENTRIES : & 'static [:: kson :: DispatchEntry] = &" ++
        (.group .bracket (listed (u.entries.map entryCode)) ::
          (verbatim "; # [doc = r\" Served records, in discovery order.\"] pub const TABLE" ++
            (verbatim
              ": :: kson :: DispatchTable = :: kson :: DispatchTable :: new (Self :: ENTRIES) ;" ++
              []))) := by
    simp [tableCode]
  rw [htable]
  refine .bind (.phrase _ _) (.bind (.within hentries _) (.bind (.phrase _ _) ?_))
  exact .bind (.phrase _ []) (.pure _ [])

/-- The code of a factory has its name and the paths of its records, in their order. -/
theorem reads_code (hu : u.entries = paths.map pathOf) (hpaths : ∀ names ∈ paths, names ≠ []) :
    factoryParser.Reads u.code (u.name, paths) [] := by
  have hcreate : createParser.Reads
      (verbatim
          "fn create (& self , kson : & :: kson :: Kson , token : & :: kson :: TypeToken ,)" ++
        (verbatim "->" ++ (verbatim ":: core :: option :: Option <" ++
          (verbatim ":: kson :: ErasedAdapter" ++ (verbatim ">" ++
            verbatim "{ Self :: TABLE . create (kson , token) }"))))) () [] := by
    refine .bind (.phrase _ _) (.bind (.phrase _ _) (.bind (.phrase _ _) ?_))
    exact .bind (.phrase _ _) (.bind (.phrase _ _) (.last (.phrase _ [])))
  simp only [code, optionOf, List.append_assoc]
  refine .bind (.phrase _ _) (.bind (.phrase _ _) (.bind (.name u.name _) ?_))
  refine .bind (.phrase _ _) (.bind (.name u.name _) (.bind (.block (reads_table hu hpaths) _) ?_))
  refine .bind (.phrase _ _) (.bind (.name u.name _) ?_)
  exact .bind (.last (.block hcreate [])) (.pure _ [])

end FactoryCode

end JsonAdapters.Emit
