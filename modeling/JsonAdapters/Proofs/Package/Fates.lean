import JsonAdapters.Proofs.Package.Paths
import JsonAdapters.Proofs.Package.Walking

/-!
# How walks end

A walk with a bound on files within files succeeds, fails, or is cut off at the bound. With a larger
bound it does the same, unless it was cut off. How it ends depends on the place of its first file,
and on the directory of that file's modules. If both come back in a chain of files, the walk is cut
off at every bound.

## Main definitions

* `Walk.Extends`: a walk does what another one does, unless that is cut off.
* `Fate`, `SourceFile.fate`: how a visit of a file ends.
* `SourceFile.Alike`: two files have one place, and one directory of their modules.
* `SourceFile.Comes`: a visit of a file comes to another file.
* `ComesBack`: a walk comes back to a file that is visited.

## Main statements

* `Walk.file_extends`: larger bounds.
* `SourceFile.Alike.fate_eq`: what fates depend on.
* `ComesBack.cutOff`: walks that come back are cut off at every bound.
* `exists_descent`: walks that are cut off come down to the bound.
-/

namespace JsonAdapters

open Code

/-! ## Larger bounds -/

namespace Walk

/-- From every start, the second walk does what the first one does, unless that is cut off. -/
def Extends (w w' : Walk Unit) : Prop := ∀ d, (∃ f, w d = .error (.endless f)) ∨ w' d = w d

namespace Extends

variable {w w' w'' v v' : Walk Unit}

theorem refl (w : Walk Unit) : Extends w w := fun _ => .inr rfl

/-- A walk that extends another one extends what that one extends. -/
theorem trans (h : Extends w w') (h' : Extends w' w'') : Extends w w'' := by
  intro d
  rcases h d with hcut | heq
  · exact .inl hcut
  · rw [← heq]
    exact h' d

/-- Walks that extend others, one after the other, extend those. -/
theorem bind (h : Extends w w') (hv : Extends v v') :
    Extends (w >>= fun _ => v) (w' >>= fun _ => v') := by
  intro d
  have hrun (w v : Walk Unit) : (w >>= fun _ => v) d = w d >>= fun x => v x.2 := rfl
  rw [hrun, hrun]
  rcases h d with ⟨f, hf⟩ | heq
  · exact .inl ⟨f, by rw [hf]; rfl⟩
  · rw [heq]
    cases w d with
    | error e => exact .inr rfl
    | ok x => exact hv x.2

end Extends

variable {tree : FileTree} {enter enter' : FilePath → FilePath → List String → Walk Unit}

mutual

/-- With more files within files, the visit of an item goes at least as far. -/
theorem item_extends (h : ∀ f dir module, Extends (enter f dir module) (enter' f dir module))
    (dir : FilePath) (module : List String) :
    ∀ i : Item, Extends (item tree enter dir module i) (item tree enter' dir module i)
  | .module attrs name none => by
    rw [item, item]
    split
    · exact h _ _ _
    · exact .refl _
  | .module attrs name (some is) => by
    rw [item, item]
    exact (itemList_extends h _ _ is).bind (.refl _)
  | .type _ | .use _ | .named _ _ | .other => by
    rw [item, item]
    exact .refl _

/-- With more files within files, the visit of items goes at least as far. -/
theorem itemList_extends (h : ∀ f dir module, Extends (enter f dir module) (enter' f dir module))
    (dir : FilePath) (module : List String) :
    ∀ is : List Item,
      Extends (itemList tree enter dir module is) (itemList tree enter' dir module is)
  | [] => by
    rw [itemList, itemList]
    exact .refl _
  | i :: is => by
    rw [itemList, itemList]
    split
    · exact itemList_extends h dir module is
    · exact (item_extends h dir module i).bind (itemList_extends h dir module is)

end

/-- With one more file within files, the visit of a file goes at least as far. -/
theorem file_extends_succ (n : Nat) (f dir : FilePath) (module : List String) :
    Extends (file tree n f dir module) (file tree (n + 1) f dir module) := by
  induction n generalizing f dir module with
  | zero => exact fun _ => .inl ⟨f, rfl⟩
  | succ n ih =>
    rw [file_succ, file_succ]
    split
    · exact .refl _
    · split
      · exact .refl _
      · exact .bind (.refl _) (.bind (itemList_extends ih _ _ _) (.refl _))

/-- With a larger bound, a walk does the same, unless it was cut off. -/
theorem file_extends {n k : Nat} (h : n ≤ k) (f dir : FilePath) (module : List String) :
    Extends (file tree n f dir module) (file tree k f dir module) := by
  induction k, h using Nat.le_induction with
  | base => exact .refl _
  | succ k _ ih => exact ih.trans (file_extends_succ k f dir module)

end Walk

/-! ## Fates -/

/-- How a walk ends. -/
inductive Fate
  | done
  | failed
  /-- The bound is reached. -/
  | cutOff
deriving DecidableEq

namespace Fate

def of {α : Type} : Except DiscoveryFault α → Fate
  | .ok _ => .done
  | .error (.endless _) => .cutOff
  | .error _ => .failed

/-- The second step is only made if the first one succeeds. -/
def andThen : Fate → Fate → Fate
  | .done, r => r
  | r, _ => r

def ofList {α : Type} (f : α → Fate) (as : List α) : Fate :=
  as.foldr (fun a r => (f a).andThen r) done

variable {α β : Type}

theorem ofList_cons (f : α → Fate) (a : α) (as : List α) :
    ofList f (a :: as) = (f a).andThen (ofList f as) := rfl

/-- A walk is cut off where its bound is reached. -/
theorem of_eq_cutOff {r : Except DiscoveryFault α} :
    of r = cutOff ↔ ∃ f, r = .error (.endless f) := by
  rcases r with e | a
  · cases e <;> simp [of]
  · simp [of]

/-- The second step decides, where the first one succeeds. -/
theorem of_bind (r : Except DiscoveryFault α) (f : α → Except DiscoveryFault β) :
    of (r >>= f) = match r with
      | .ok a => of (f a)
      | .error e => of (.error e : Except DiscoveryFault α) := by
  rcases r with e | a
  · cases e <;> rfl
  · rfl

/-- What is made of the result does not change how a walk ends. -/
theorem of_bind_pure (r : Except DiscoveryFault α) (g : α → β) :
    of (do return g (← r)) = of r := by
  rcases r with e | a
  · cases e <;> rfl
  · rfl

/-- Steps end as a list of steps does. -/
theorem of_mapM (f : α → Except DiscoveryFault β) (as : List α) :
    of (as.mapM f) = ofList (fun a => of (f a)) as := by
  induction as with
  | nil => rfl
  | cons a as ih =>
    rw [List.mapM_cons, of_bind, ofList_cons, ← ih]
    rcases f a with e | b
    · cases e <;> rfl
    · exact of_bind_pure (as.mapM f) (b :: ·)

/-- A list that is cut off is cut off at one of its members, and all members before succeed. -/
theorem exists_of_ofList {f : α → Fate} {as : List α} (h : ofList f as = cutOff) :
    ∃ before a after, as = before ++ a :: after ∧ (∀ b ∈ before, f b = done) ∧ f a = cutOff := by
  induction as with
  | nil => cases h
  | cons x as ih =>
    rw [ofList_cons] at h
    cases hx : f x with
    | done =>
      rw [hx] at h
      obtain ⟨before, a, after, rfl, hbefore, ha⟩ := ih h
      exact ⟨x :: before, a, after, rfl, by simpa [hx] using hbefore, ha⟩
    | failed =>
      rw [hx] at h
      cases h
    | cutOff => exact ⟨[], x, as, rfl, by simp, hx⟩

/-- Steps are cut off where one of them is, and none before it fails. -/
theorem ofList_eq_cutOff {f : α → Fate} {before after : List α} {a : α}
    (hbefore : ∀ b ∈ before, f b ≠ failed) (ha : f a = cutOff) :
    ofList f (before ++ a :: after) = cutOff := by
  induction before with
  | nil =>
    rw [List.nil_append, ofList_cons, ha]
    rfl
  | cons b before ih =>
    rw [List.cons_append, ofList_cons, ih fun b hb => hbefore b (List.mem_cons_of_mem _ hb)]
    cases hf : f b with
    | failed => exact absurd hf (hbefore b List.mem_cons_self)
    | done | cutOff => rfl

/-- A walk that finds the files of a list ends as the list does. -/
theorem of_finds {w : Walk Unit} {r : Except DiscoveryFault (List FilePath)} (h : w.Finds r) :
    of (w {}) = of r := by
  cases r with
  | error e =>
    rw [h {}]
    cases e <;> rfl
  | ok files =>
    obtain ⟨d, hd, -⟩ := h {}
    rw [hd]
    rfl

end Fate

namespace SourceFile

variable {tree : FileTree} {F G : SourceFile} {m : ModuleSite} {n k : Nat}

/-- How a visit of the file ends, with at most `n` files within files. -/
def fate (tree : FileTree) (n : Nat) (F : SourceFile) : Fate := .of (F.visits tree n)

/-- How a visit of the file of a module ends. -/
def siteFate (tree : FileTree) (n : Nat) (F : SourceFile) (m : ModuleSite) : Fate :=
  match (F.candidates m).find? tree.isFile with
  | none => .failed
  | some file => (F.ofModule m file).fate tree n

/-- A module ends as the file that is entered for it. -/
theorem siteFate_of_enter (h : F.enter tree m = .ok G) : F.siteFate tree n m = G.fate tree n := by
  obtain ⟨file, hfind, rfl⟩ := enter_eq_ok.1 h
  rw [siteFate, hfind]

theorem fate_zero (F : SourceFile) : F.fate tree 0 = .cutOff := rfl

/-- To enter the file of a module and to visit it is the visit of the module. -/
theorem of_site (F : SourceFile) (m : ModuleSite) :
    Fate.of (do visits tree n (← F.enter tree m)) = F.siteFate tree n m := by
  rw [siteFate, enter]
  cases (F.candidates m).find? tree.isFile with
  | none => rfl
  | some file => rfl

/-- A file ends as the modules that it declares. -/
theorem fate_succ (F : SourceFile) : F.fate tree (n + 1) =
    match (F.items tree).toOption with
    | none => .failed
    | some is => .ofList (F.siteFate tree n) (fileSites is) := by
  rw [fate, visits, Fate.of_bind]
  cases his : F.items tree with
  | error e =>
    rw [items] at his
    split at his
    · cases his
      rfl
    · split at his
      · cases his
        rfl
      · cases his
  | ok is =>
    change Fate.of (do
      let inner ← (fileSites is).mapM fun m => do visits tree n (← F.enter tree m)
      return F.file :: inner.flatten) = .ofList (F.siteFate tree n) (fileSites is)
    rw [Fate.of_bind_pure, Fate.of_mapM, funext (of_site F)]

/-- A visit with a larger bound ends in the same way, unless it was cut off. -/
theorem fate_of_le (h : n ≤ k) (hn : F.fate tree n ≠ .cutOff) : F.fate tree k = F.fate tree n := by
  rw [fate, ← Fate.of_finds (Walk.file_finds n F)] at hn
  rw [fate, fate, ← Fate.of_finds (Walk.file_finds n F), ← Fate.of_finds (Walk.file_finds k F)]
  rcases Walk.file_extends h F.file F.directory F.module {} with hcut | heq
  · exact absurd (Fate.of_eq_cutOff.2 hcut) hn
  · rw [heq]

/-! ## Files that are alike -/

/-- The files have one place, and their modules have one directory. -/
def Alike (tree : FileTree) (F G : SourceFile) : Prop :=
  tree.resolve F.file = tree.resolve G.file ∧ F.directory = G.directory

namespace Alike

/-- Files with one place have the same items. -/
theorem items_eq (h : Alike tree F G) : (F.items tree).toOption = (G.items tree).toOption := by
  rw [items, items, FileTree.readText_congr h.1]
  cases tree.readText G.file with
  | error e => rfl
  | ok source =>
    dsimp only
    cases parseItems? source <;> rfl

/-- A module leads from both files to the same place. -/
theorem ofModule (h : Alike tree F G) (m : ModuleSite) (file : FilePath) :
    Alike tree (F.ofModule m file) (G.ofModule m file) :=
  ⟨rfl, by simp only [SourceFile.ofModule, directoryAt, h.2]⟩

/-- How a visit ends depends on the place of the file and the directory of its modules. -/
theorem fate_eq (h : Alike tree F G) (n : Nat) : F.fate tree n = G.fate tree n := by
  induction n generalizing F G with
  | zero => rfl
  | succ n ih =>
    have hsites : F.siteFate tree n = G.siteFate tree n := by
      funext m
      rw [siteFate, siteFate, candidates, candidates, directoryAt, directoryAt, h.2]
      split
      · rfl
      · exact ih (h.ofModule m _)
    rw [fate_succ, fate_succ, h.items_eq, hsites]

end Alike

/-! ## Files to which visits come -/

/-- A visit of the first file comes to the second one: with a bound that is large enough, all
modules before that of the second file are visited to their end. -/
def Comes (tree : FileTree) (F G : SourceFile) : Prop :=
  ∃ is, F.items tree = .ok is ∧ ∃ before m after, fileSites is = before ++ m :: after ∧
    (∃ n, ∀ b ∈ before, F.siteFate tree n b = .done) ∧ F.enter tree m = .ok G

/-- A visit comes to files that are entered. -/
theorem Comes.enters (h : Comes tree F G) : F.Enters tree G := by
  obtain ⟨is, his, before, m, after, heq, -, henter⟩ := h
  exact ⟨is, his, m, by simp [heq], henter⟩

/-- A visit comes to the file of the first module. -/
theorem comes_of_first (h : (F.items tree).toOption.any (fun is =>
    (fileSites is).head?.any fun m => (F.enter tree m).toOption = some G) = true) :
    Comes tree F G := by
  cases his : F.items tree with
  | error e =>
    rw [his] at h
    cases h
  | ok is =>
    rw [his] at h
    obtain ⟨_, ⟨⟩, hfirst⟩ := (Option.any_eq_true _ _).1 h
    obtain ⟨m, hm, hG⟩ := (Option.any_eq_true _ _).1 hfirst
    obtain ⟨after, hafter⟩ := List.head?_eq_some_iff.1 hm
    cases henter : F.enter tree m with
    | error e =>
      rw [henter] at hG
      cases of_decide_eq_true hG
    | ok G' =>
      rw [henter] at hG
      obtain rfl : G' = G := Option.some.inj (of_decide_eq_true hG)
      exact ⟨is, his, [], m, after, hafter, ⟨0, nofun⟩, henter⟩

/-- A visit that is cut off comes to a file at which it is. -/
theorem exists_comes (h : F.fate tree (n + 1) = .cutOff) :
    ∃ G, Comes tree F G ∧ G.fate tree n = .cutOff := by
  rw [fate_succ] at h
  cases his : F.items tree with
  | error e =>
    rw [his] at h
    cases h
  | ok is =>
    rw [his] at h
    change Fate.ofList (F.siteFate tree n) (fileSites is) = .cutOff at h
    obtain ⟨before, m, after, heq, hbefore, hm⟩ := Fate.exists_of_ofList h
    rw [siteFate] at hm
    cases hfind : (F.candidates m).find? tree.isFile with
    | none =>
      rw [hfind] at hm
      cases hm
    | some file =>
      rw [hfind] at hm
      exact
        ⟨_, ⟨is, his, before, m, after, heq, ⟨n, hbefore⟩, enter_eq_ok.2 ⟨file, hfind, rfl⟩⟩, hm⟩

/-- A module whose visit succeeds with some bound fails with no bound. -/
theorem siteFate_ne_failed (h : F.siteFate tree k m = .done) (n : Nat) :
    F.siteFate tree n m ≠ .failed := by
  rw [siteFate] at h ⊢
  cases hfind : (F.candidates m).find? tree.isFile with
  | none => simp [hfind] at h
  | some file =>
    simp only [hfind] at h ⊢
    intro hn
    have hk : (F.ofModule m file).fate tree k ≠ .cutOff := by simp [h]
    have hcut : (F.ofModule m file).fate tree n ≠ .cutOff := by simp [hn]
    rcases Nat.le_total n k with hle | hle
    · simp [fate_of_le hle hcut, hn] at h
    · simp [fate_of_le hle hk, h] at hn

/-- A visit that is not cut off leaves a smaller bound to the visits to which it comes. -/
theorem Comes.not_cutOff (h : Comes tree F G) (hF : F.fate tree (n + 1) ≠ .cutOff) :
    G.fate tree n ≠ .cutOff := by
  obtain ⟨is, his, before, m, after, heq, ⟨k, hbefore⟩, henter⟩ := h
  refine fun hG => hF ?_
  have hcut : Fate.ofList (F.siteFate tree n) (before ++ m :: after) = .cutOff :=
    Fate.ofList_eq_cutOff (fun b hb => siteFate_ne_failed (hbefore b hb) n)
      ((siteFate_of_enter henter).trans hG)
  rw [fate_succ, his, ← hcut, ← heq]
  rfl

open Relation in
/-- Within a visit that ends, all visits end, with smaller bounds. -/
theorem exists_lt_not_cutOff (h : TransGen (Comes tree) F G) (hF : F.fate tree n ≠ .cutOff) :
    ∃ k < n, G.fate tree k ≠ .cutOff := by
  have step {F G : SourceFile} {n : Nat} (h : Comes tree F G) (hF : F.fate tree n ≠ .cutOff) :
      ∃ k < n, G.fate tree k ≠ .cutOff := by
    cases n with
    | zero => exact absurd (fate_zero F) hF
    | succ n => exact ⟨n, Nat.lt_succ_self n, h.not_cutOff hF⟩
  induction h with
  | single hstep => exact step hstep hF
  | tail _ hstep ih =>
    obtain ⟨k, hk, hG⟩ := ih
    obtain ⟨l, hl, hG'⟩ := step hstep hG
    exact ⟨l, hl.trans hk, hG'⟩

/-- Visits of a file to which they come back are cut off at every bound: the bound that is left at
its second visit is smaller, and would suffice as well. -/
theorem Alike.cutOff (halike : Alike tree F G) (h : Relation.TransGen (Comes tree) F G) (n : Nat) :
    F.fate tree n = .cutOff := by
  induction n using Nat.strong_induction_on with
  | _ n ih =>
    by_contra hn
    obtain ⟨k, hk, hG⟩ := exists_lt_not_cutOff h hn
    exact hG (halike.fate_eq k ▸ ih k hk)

end SourceFile

open SourceFile Relation

/-- Files to which the walk comes are reached. -/
theorem reached_of_comes {tree : FileTree} {root : FilePath} {F : SourceFile}
    (h : ReflTransGen (Comes tree) (.root root) F) : Reached tree root F :=
  ReflTransGen.mono (fun _ _ => Comes.enters) _ _ h

/-- The walk of a package comes back to a file that is visited, with the same directory. -/
def ComesBack (tree : FileTree) (root : FilePath) : Prop :=
  ∃ F G, ReflTransGen (Comes tree) (.root root) F ∧ TransGen (Comes tree) F G ∧ Alike tree F G

/-- A walk that comes back to a file is cut off, whatever the bound. -/
theorem ComesBack.cutOff {tree : FileTree} {root : FilePath} (h : ComesBack tree root) (n : Nat) :
    (SourceFile.root root).fate tree n = .cutOff := by
  obtain ⟨F, G, hF, hG, halike⟩ := h
  by_contra hn
  rcases reflTransGen_iff_eq_or_transGen.1 hF with rfl | hF
  · exact hn (halike.cutOff hG n)
  · obtain ⟨k, -, hk⟩ := exists_lt_not_cutOff hF hn
    exact hk (halike.cutOff hG k)

/-! ## Chains of files -/

/-- Files within files, of which each comes to the one before it. -/
def Descent (tree : FileTree) (n : Nat) (c : Nat → SourceFile) : Prop :=
  ∀ k < n, Comes tree (c (k + 1)) (c k)

/-- A visit that is cut off comes down to the bound. -/
theorem exists_descent {tree : FileTree} {n : Nat} {F : SourceFile}
    (h : F.fate tree n = .cutOff) : ∃ c, c n = F ∧ Descent tree n c := by
  induction n generalizing F with
  | zero => exact ⟨fun _ => F, rfl, nofun⟩
  | succ n ih =>
    obtain ⟨G, hcomes, hG⟩ := exists_comes h
    obtain ⟨c, rfl, hc⟩ := ih hG
    have hup : Function.update c (n + 1) F (n + 1) = F := Function.update_self ..
    have hdown {k : Nat} (hk : k ≤ n) : Function.update c (n + 1) F k = c k :=
      Function.update_of_ne (by omega) ..
    refine ⟨Function.update c (n + 1) F, hup, fun k hk => ?_⟩
    rcases (Nat.lt_succ_iff.1 hk).lt_or_eq with hlt | rfl
    · rw [hdown hlt, hdown hlt.le]
      exact hc k hlt
    · rwa [hup, hdown le_rfl]

/-- A file is visited from all files above it. -/
theorem Descent.comes {tree : FileTree} {n : Nat} {c : Nat → SourceFile} (h : Descent tree n c)
    {i j : Nat} (hij : i < j) (hj : j ≤ n) : TransGen (Comes tree) (c j) (c i) := by
  induction j, hij using Nat.le_induction with
  | base => exact .single (h i hj)
  | succ j _ ih => exact .head (h j hj) (ih (by omega))

end JsonAdapters
