import JsonAdapters.Proofs.Code.Yields

/-!
# Names of modules

Every module of a file that can be read, at all depths, has a name that its file can have as well.

## Main definitions

* `Code.NamesModule`, `Code.Item.NamesModules`: a name of a module, and of all modules in an item.

## Main statements

* `Code.parseItems?_namesModules`.
-/

namespace JsonAdapters.Code

/-! ## Items -/

/-- A module can have the name, and so can its file: the name is not the word `mod` itself. -/
def NamesModule (name : String) : Prop := namesFile name ∧ name ≠ "mod"

theorem moduleName_namesModule : moduleName.Yields NamesModule := by
  intro s name s' h
  obtain ⟨hword, hfile⟩ := Bool.and_eq_true_iff.1 (Parser.Yields.wordWith _ s name s' h)
  refine ⟨hfile, ?_⟩
  rintro rfl
  exact absurd hword (by decide)

mutual

/-- Every module in the item has a name that modules can have. -/
def Item.NamesModules : Item → Prop
  | .module _ name none => NamesModule name
  | .module _ name (some items) => NamesModule name ∧ allNameModules items
  | .use _ | .type _ | .named _ _ | .other => True

def allNameModules : List Item → Prop
  | [] => True
  | i :: is => i.NamesModules ∧ allNameModules is

end

theorem allNameModules_iff {is : List Item} : allNameModules is ↔ ∀ i ∈ is, i.NamesModules := by
  induction is with
  | nil => simp [allNameModules]
  | cons i is ih => simp [allNameModules, ih]

variable {g : Grammar}

theorem moduleItem_namesModules (hg : g.item.Yields Item.NamesModules) (attrs : List Attribute) :
    (moduleItem g attrs).Yields Item.NamesModules := by
  refine .last fun _ => .last fun _ => .bind moduleName_namesModule fun name hname =>
    .last fun _ => .ite (.pure hname) (.within _ (.last fun inner => ?_))
  exact .bind (.manyWhile hg) fun items h => .pure ⟨hname, allNameModules_iff.2 h⟩

theorem namedIf_namesModules (attrs : List Attribute) (p : Parser (String × Bool)) :
    (namedIf attrs p).Yields Item.NamesModules := by
  refine .last fun r => .pure ?_
  split <;> trivial

theorem itemRule_namesModules (hg : g.item.Yields Item.NamesModules) :
    (itemRule g).Yields Item.NamesModules := by
  refine .last fun attrs => .last fun start => .last fun vis => .last fun ts => .last fun fn => ?_
  refine .ite ?function (.ite ?foreign (.ite ?use (.ite (namedIf_namesModules _ _)
    (.ite (namedIf_namesModules _ _) (.ite ?unsafeImpl (.ite ?unsafeForeign
    (.ite (moduleItem_namesModules hg _) (.ite (namedIf_namesModules _ _) (.ite ?type (.ite ?union
    (.ite ?trait (.ite ?impl (.ite ?definition (.ite ?call .failure))))))))))))))
  case function =>
    refine .last fun name => .last fun inner => ?_
    cases inner <;> exact .pure trivial
  case foreign => exact .ite (.last fun _ => .pure trivial) (.last fun _ => .pure trivial)
  case use =>
    refine .last fun _ => .last fun u => ?_
    cases u <;> exact .pure trivial
  case type | union => exact .last fun _ => .last fun _ => .pure trivial
  case trait =>
    refine .last fun t => ?_
    cases t <;> exact .pure trivial
  all_goals exact .last fun _ => .pure trivial

theorem grammar_namesModules (n : Nat) : (grammar n).item.Yields Item.NamesModules := by
  induction n with
  | zero => exact .failure
  | succ n ih => exact itemRule_namesModules ih

/-- Modules of a file that can be read have names that modules can have. -/
theorem parseItems?_namesModules {source : String} {is : List Item}
    (h : parseItems? source = some is) : ∀ i ∈ is, i.NamesModules := by
  obtain ⟨ts, -, hread⟩ := Option.bind_eq_some_iff.1 h
  have hrule : (fileItems (grammar (depthOf ts))).Yields fun is => ∀ i ∈ is, i.NamesModules :=
    .last fun _ => .manyWhile (itemRule_namesModules (grammar_namesModules _))
  exact hrule.of_runAll? hread

end JsonAdapters.Code
