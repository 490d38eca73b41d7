import JsonAdapters.Adapter.Registry
import JsonAdapters.Proofs.Derive.Idents
import JsonAdapters.Proofs.Derive.NormalForm
import JsonAdapters.Proofs.Emit.Contents
import JsonAdapters.Samples.Records

/-!
# Tokens of parts

A part of an emitted adapter is made with a slot for its type. The token in the slot is spelled out
level by level when the type is applied, with the name that stands in the declaration, and asked of
the type when it is not. At run time each type has a token of its own, which it builds from those of
its arguments. Both come to the same: a part asks the registry for the token of its type.

What a part is made with is read from its code, in which each type stands in normal form; then the
expression that was read is given its value. Which paths name records is left to the language: it is
a parameter. Names of types that come with the language stand for those types, alone or behind a
path into a standard package.

## Main definitions

* `TypeName.standard?`, `FieldType.meaning`: the types that names and field types stand for.
* `Emit.TokenCode.value`: what an expression for a token is worth.
* `Emit.tokenParser`: the expression that the code of a token is.
* `Emit.SlotCode`, `Emit.SlotCode.ofTokens?`, `Emit.SlotCode.slot?`: the call that makes the slot of
  a part, and the slot that it makes.

## Main statements

* `TypeFormer.token_form`: one level of the token of a type.
* `Emit.TokenCode.value_ofType`: the token that is spelled out for a type is its own.
* `FieldType.Writes.reads_tokenCode`: the code of a token is read again.
* `Emit.Part.slot?_eq_own`: the slots that the code of parts makes.
-/

namespace JsonAdapters

/-! ## Types that come with the language -/

/-- The name of the type, without the path to it. -/
def Scalar.name : Scalar → String
  | .string => "String"
  | c => c.path

def Scalar.all : List Scalar :=
  [.bool, .signed .w8, .signed .w16, .signed .w32, .signed .w64, .unsigned .w8, .unsigned .w16,
    .unsigned .w32, .unsigned .w64, .single, .double, .string]

def Scalar.named? (name : String) : Option Scalar := all.find? (·.name == name)

/-- What makes a type of other types. -/
inductive TypeFormer
  | vec
  | option
  | box
  | hashMap
  | treeMap

namespace TypeFormer

def name : TypeFormer → String
  | vec => "Vec"
  | option => "Option"
  | box => "Box"
  | hashMap => "HashMap"
  | treeMap => "BTreeMap"

def all : List TypeFormer := [vec, option, box, hashMap, treeMap]

/-- The type that is made of the given ones; the keys of maps are strings. -/
def form? : TypeFormer → List Ty → Option Ty
  | vec, [t] => some (.vec t)
  | option, [t] => some (.option t)
  | box, [t] => some (.box t)
  | hashMap, [.scalar .string, t] => some (.hashMap t)
  | treeMap, [.scalar .string, t] => some (.treeMap t)
  | _, _ => none

def named? (name : String) : Option TypeFormer := all.find? (·.name == name)

theorem name_of_named? {name : String} {c : TypeFormer} (h : named? name = some c) :
    c.name = name := by
  have hname := List.find?_some h
  exact beq_iff_eq.1 hname

/-- The own token of an applied type has the name of what it is made with and the tokens of all
arguments, and it extends nothing. There is none if an argument has none. -/
theorem token_form {c : TypeFormer} {ts : List Ty} {t : Ty} (h : c.form? ts = some t)
    (S : Schema) : t.token S = (ts.mapM (Ty.token S)).map (.applied t c.name) := by
  unfold form? at h
  split at h <;> cases h
  all_goals
    rename_i argument
    cases htoken : argument.token S <;> simp [Ty.token, htoken, name]

end TypeFormer

/-! ## What field types stand for -/

namespace TypeName

/-- The name of a type that comes with the language, if the path may stand for one: a lone name, or
a path into a standard package. -/
def standard? (n : TypeName) : Option String :=
  match n.segments with
  | [_] => if n.absolute then none else some (unmarked n.ident)
  | root :: _ :: _ => if unmarked root ∈ standardRoots then some (unmarked n.ident) else none
  | [] => none

theorem eq_of_standard? {n : TypeName} {name : String} (h : n.standard? = some name) :
    name = unmarked n.ident := by
  unfold standard? at h
  split at h
  · split at h
    · cases h
    · exact (Option.some.inj h).symm
  · split at h
    · exact (Option.some.inj h).symm
    · cases h
  · cases h

end TypeName

namespace FieldType

variable (records : TypeName → Option RecordId)

/-- The type that a name stands for: a scalar, or else a record. -/
def plain? (n : TypeName) : Option Ty :=
  match n.standard?.bind Scalar.named? with
  | some c => some (.scalar c)
  | none => (records n).map .record

mutual

/-- The type that a field type stands for, if it is built from types of the language and records. -/
def meaning : FieldType → Option Ty
  | simple n => plain? records n
  | applied n as => do
    let former ← n.standard?.bind TypeFormer.named?
    former.form? (← meanings as)

def meanings : List FieldType → Option (List Ty)
  | [] => some []
  | a :: as => do return (← meaning a) :: (← meanings as)

end

variable {records} {n : TypeName} {a : FieldType} {as : List FieldType} {t : Ty} {ts : List Ty}

theorem meaning_applied_eq_some (h : (applied n as).meaning records = some t) :
    ∃ c ts, TypeFormer.named? (unmarked n.ident) = some c ∧ meanings records as = some ts ∧
      c.form? ts = some t := by
  rw [meaning] at h
  obtain ⟨c, hc, h⟩ := Option.bind_eq_some_iff.1 h
  obtain ⟨name, hname, hc⟩ := Option.bind_eq_some_iff.1 hc
  obtain ⟨ts, hts, h⟩ := Option.bind_eq_some_iff.1 h
  obtain rfl := TypeName.eq_of_standard? hname
  exact ⟨c, ts, hc, hts, h⟩

theorem meanings_cons_eq_some (h : meanings records (a :: as) = some ts) :
    ∃ t us, a.meaning records = some t ∧ meanings records as = some us ∧ ts = t :: us := by
  rw [meanings] at h
  obtain ⟨t, ht, h⟩ := Option.bind_eq_some_iff.1 h
  obtain ⟨us, hus, h⟩ := Option.bind_eq_some_iff.1 h
  exact ⟨t, us, ht, hus, (Option.some.inj h).symm⟩

end FieldType

namespace Emit

open Code

/-! ## Values of expressions -/

namespace TokenCode

variable (records : TypeName → Option RecordId) (S : Schema)

mutual

/-- The token that an expression is worth. There is none if a type in it has no meaning, or if the
token that a type is asked for has no end. -/
def value : TokenCode → Option (TypeToken Ty)
  | own t => (t.meaning records).bind (·.token S)
  | applied t raw as => do return .applied (← t.meaning records) raw (← values as)

def values : List TokenCode → Option (List (TypeToken Ty))
  | [] => some []
  | a :: as => do return (← value a) :: (← values as)

end

variable {records} {S}

mutual

/-- The token that is spelled out for a type is the type's own one. -/
theorem value_ofType : ∀ {t : FieldType} {ty : Ty}, (∀ n ∈ t.idents, ¬IsRaw n) →
    t.meaning records = some ty → (ofType t).value records S = ty.token S
  | .simple n, ty, _, hty => by rw [ofType, value, hty, Option.bind_some]
  | .applied n as, ty, hraw, hty => by
    rw [FieldType.idents, List.forall_mem_cons] at hraw
    obtain ⟨c, tys, hc, htys, hform⟩ := FieldType.meaning_applied_eq_some hty
    -- the name is emitted as it is spelled, which is right because it is not raw
    have hname : c.name = n.ident := by
      rw [TypeFormer.name_of_named? hc, unmarked_of_not_isRaw hraw.1]
    rw [ofType, value, hty, values_ofTypes hraw.2 htys, TypeFormer.token_form hform, hname]
    cases tys.mapM (Ty.token S) <;> rfl

theorem values_ofTypes : ∀ {as : List FieldType} {tys : List Ty},
    (∀ n ∈ FieldType.identsOf as, ¬IsRaw n) → FieldType.meanings records as = some tys →
      values records S (ofTypes as) = tys.mapM (Ty.token S)
  | [], tys, _, htys => by
    cases htys
    rfl
  | a :: as, tys, hraw, htys => by
    rw [FieldType.identsOf, List.forall_mem_append] at hraw
    obtain ⟨ty, rest, hty, hrest, rfl⟩ := FieldType.meanings_cons_eq_some htys
    rw [ofTypes, values, value_ofType hraw.1 hty, values_ofTypes hraw.2 hrest, List.mapM_cons]

end

end TokenCode

/-! ## Code of expressions -/

/-- The field type that tokens write, where a lone `Self` stands for the type of the given name. -/
def typeOf? (self : String) (ts : Tokens) : Option FieldType := do
  let t ← readTokens? (fun g => g.type true) ts
  (FieldType.ofTypeExpr self t).toOption

/-- The expression of a token. The second argument bounds how deep expressions are nested. -/
def tokenParser (self : String) : Nat → Parser TokenCode
  | 0 => failure
  | n + 1 => do
    if ← phraseIf "<" then
      let ts ← upToClose
      phrase ":: type_token ()"
      let type ← StateT.lift (ts.dropSuffix? (verbatim "as :: kson :: KsonType"))
      return .own (← StateT.lift (typeOf? self type))
    else
      phrase ":: kson :: TypeToken :: parameterized :: <"
      let type ← StateT.lift (typeOf? self (← upToClose))
      within .paren do
        let raw ← textLiteral
        phrase ", :: std :: vec !"
        let arguments ← within .bracket (commaList (tokenParser self n))
        return .applied type raw arguments

def tokenOf? (self : String) (ts : Tokens) : Option TokenCode :=
  (tokenParser self (weightOf ts)).runAll? ts

variable {self : String} {f : FieldType} {u : TypeExpr}

/-- What a field type is emitted as is read as the field type. -/
theorem typeOf?_of_hasForm (h : f.HasForm u) : typeOf? self f.tokens = some f := by
  have hwritten : FieldType.ofTypeExpr self u = .ok f :=
    FieldType.ofTypeExpr_eq_ok_iff.2 (h.writes self)
  rw [typeOf?, ← h.tokens_eq, h.isNormal.readTokens?_eq h.wellNamed]
  simp [hwritten, Except.toOption]

theorem reads_lift {α : Type} {x : Option α} {a : α} (h : x = some a) (ts : Tokens) :
    Parser.Reads (StateT.lift x) ts a ts := by
  intro taken
  exact ⟨taken, by simp [StateT.lift, h]⟩

/-- The interface that is asked for the token of a type. -/
theorem verbatim_interface : verbatim "as :: kson :: KsonType" =
    .ident "as" :: (Code.Path.mk true (["kson", "KsonType"].map .plain)).tokens := by
  rfl

theorem verbatim_ownToken : verbatim "as :: kson :: KsonType > :: type_token ()" =
    verbatim "as :: kson :: KsonType" ++ .punct '>' false :: verbatim ":: type_token ()" := by
  rfl

/-- A type is asked for its token. -/
theorem reads_ownToken (h : f.HasForm u) (n : Nat) (us : Tokens) :
    (tokenParser self (n + 1)).Reads ((TokenCode.own f).code ++ us) (.own f) us := by
  have hlevel : Level (f.tokens ++ verbatim "as :: kson :: KsonType") := by
    rw [verbatim_interface]
    exact f.level.append ((Level.ident "as").append (level_path ["kson", "KsonType"]))
  have hasked : (f.tokens ++ verbatim "as :: kson :: KsonType").dropSuffix?
      (verbatim "as :: kson :: KsonType") = some f.tokens :=
    List.dropSuffix?_eq_some_iff.2 ⟨_, rfl, BEq.refl _⟩
  have hcode : (TokenCode.own f).code ++ us = verbatim "<" ++
      (f.tokens ++ verbatim "as :: kson :: KsonType" ++
        .punct '>' false :: (verbatim ":: type_token ()" ++ us)) := by
    simp [TokenCode.code, TokenCode.ownToken, verbatim_ownToken]
  rw [hcode]
  refine .bind (.phraseIf_true _ _) (.bind (hlevel.reads false _) (.bind (.phrase _ _) ?_))
  exact .bind (reads_lift hasked _) (.bind (reads_lift (typeOf?_of_hasForm h) _) (.pure _ _))

/-- A token is built of the tokens of arguments. -/
theorem reads_appliedToken {as : List FieldType} {name : TypeName} {n : Nat}
    (h : (FieldType.applied name as).HasForm u)
    (has : Parser.ReadsList atEnd (tokenParser self n)
      (commaSeparated (TokenCode.codes (TokenCode.ofTypes as))) (TokenCode.ofTypes as) [])
    (us : Tokens) : (tokenParser self (n + 1)).Reads
      ((TokenCode.ofType (.applied name as)).code ++ us) (TokenCode.ofType (.applied name as))
      us := by
  -- the other form of a token starts in another way, so the reader tells them apart
  have hother (ts : Tokens) : startsPhrase "<"
      (verbatim ":: kson :: TypeToken :: parameterized :: <" ++ ts) = false :=
    startsPhrase_distinct (by simp [distinctTexts]) ts
  have hcode : (TokenCode.ofType (.applied name as)).code ++ us =
      verbatim ":: kson :: TypeToken :: parameterized :: <" ++
        ((FieldType.applied name as).tokens ++ .punct '>' false ::
          (parens (literal name.ident ++ (verbatim ", :: std :: vec !" ++
            [.group .bracket (commaSeparated (TokenCode.codes (TokenCode.ofTypes as)))])) ++
              us)) := by
    simp [TokenCode.ofType, TokenCode.code, verbatim_close]
  have harguments : Parser.Reads (within .bracket (commaList (tokenParser self n)))
      [.group .bracket (commaSeparated (TokenCode.codes (TokenCode.ofTypes as)))]
      (TokenCode.ofTypes as) [] :=
    .within (.bind has.commaListUntil (.pure (TokenCode.ofTypes as) [])) []
  rw [hcode, TokenCode.ofType]
  refine .bind (.phraseIf_false (hother _)) (.bind (.phrase _ _) ?_)
  refine .bind (FieldType.reads_upToClose _ false _) ?_
  refine .bind (reads_lift (typeOf?_of_hasForm h) _) (.parens ?_ us)
  exact .bind (.text name.ident _) (.bind (.phrase _ _) (.bind harguments (.pure _ [])))

theorem weightOf_concat_group (ts : Tokens) (d : Delimiter) (us : Tokens) :
    weightOf (ts ++ [.group d us]) = weightOf ts + (1 + weightOf us) := by
  rw [weightOf_append, weightOf, TokenTree.weight, weightOf, Nat.add_zero]

theorem weightOf_code_pos (e : TokenCode) : 0 < weightOf e.code := by
  have hopen : verbatim "<" = [.punct '<' false] := rfl
  cases e with
  | own t =>
    have hmark : weightOf [.punct '<' false] = 1 := rfl
    rw [TokenCode.code, TokenCode.ownToken, hopen, List.append_assoc, weightOf_append, hmark]
    omega
  | applied t raw as =>
    rw [TokenCode.code, parens, weightOf_concat_group]
    omega

theorem codes_ofTypes (as : List FieldType) :
    TokenCode.codes (TokenCode.ofTypes as) = as.map fun a => (TokenCode.ofType a).code := by
  induction as with
  | nil => rfl
  | cons a as ih => rw [TokenCode.ofTypes, TokenCode.codes, ih, List.map_cons]

/-- The arguments of a token weigh less than its code. -/
theorem weightOf_arguments_lt (name : TypeName) (as : List FieldType) :
    weightOf (commaSeparated (TokenCode.codes (TokenCode.ofTypes as))) <
      weightOf (TokenCode.ofType (.applied name as)).code := by
  rw [TokenCode.ofType, TokenCode.code, parens, weightOf_concat_group, weightOf_concat_group]
  omega

theorem weightOf_argument_le {a : FieldType} {as : List FieldType} (h : a ∈ as) :
    weightOf (TokenCode.ofType a).code ≤
      weightOf (commaSeparated (TokenCode.codes (TokenCode.ofTypes as))) := by
  rw [codes_ofTypes]
  exact weightOf_le_commaSeparated (List.mem_map_of_mem h)

/-- Expressions with commas between them, each of which is read. -/
theorem reads_tokenCodes {p : Parser TokenCode} {as : List FieldType} (hne : as ≠ [])
    (has : ∀ a ∈ as, ∀ us,
      p.Reads ((TokenCode.ofType a).code ++ us) (TokenCode.ofType a) us) :
    Parser.ReadsList atEnd p (commaSeparated (TokenCode.codes (TokenCode.ofTypes as)))
      (TokenCode.ofTypes as) [] := by
  rw [codes_ofTypes]
  induction as with
  | nil => exact absurd rfl hne
  | cons a as ih =>
    obtain ⟨ha, has⟩ := List.forall_mem_cons.1 has
    have hstart (us : Tokens) : atEnd ((TokenCode.ofType a).code ++ us) = false := by
      -- no code is empty, so each argument is read as one
      have hpos := weightOf_code_pos (TokenCode.ofType a)
      cases hcode : (TokenCode.ofType a).code with
      | nil => simp [hcode, weightOf] at hpos
      | cons t ts => rfl
    rw [List.map_cons, TokenCode.ofTypes]
    cases as with
    | nil =>
      have hstart := hstart []
      rw [List.append_nil] at hstart
      exact .last hstart (.last (ha [])) rfl
    | cons a' as =>
      have hmore := ih (List.cons_ne_nil a' as) has
      rw [List.map_cons, commaSeparated]
      · exact .next (hstart _) (ha _) rfl (by simp; omega) hmore
      · simp

/-- The code of a token is read again. -/
theorem reads_tokenCode (h : f.HasForms) {n : Nat} (hn : weightOf (TokenCode.ofType f).code ≤ n)
    (us : Tokens) :
    (tokenParser self n).Reads ((TokenCode.ofType f).code ++ us) (TokenCode.ofType f) us := by
  -- arguments are read one level below the expression around them
  induction h generalizing n us with
  | simple hu =>
    have hpos := Nat.lt_of_lt_of_le (weightOf_code_pos _) hn
    obtain ⟨m, rfl⟩ : ∃ m, n = m + 1 := ⟨n - 1, by omega⟩
    exact reads_ownToken hu m us
  | @applied name as u hu hne has ih =>
    have hroom := Nat.lt_of_lt_of_le (weightOf_arguments_lt name as) hn
    obtain ⟨m, rfl⟩ : ∃ m, n = m + 1 := ⟨n - 1, by omega⟩
    refine reads_appliedToken hu ?_ us
    exact reads_tokenCodes hne fun a ha us =>
      ih a ha (Nat.le_trans (weightOf_argument_le ha) (Nat.lt_succ_iff.1 hroom)) us

theorem tokenOf?_ofType (h : f.HasForms) :
    tokenOf? self (TokenCode.ofType f).code = some (.ofType f) :=
  (Parser.Reads.last (reads_tokenCode h (Nat.le_refl _) [])).runAll?

/-! ## Slots of parts -/

/-- The call that makes the slot of a part. -/
inductive SlotCode where
  /-- The slot asks the type for its token. -/
  | byType (type : FieldType)
  /-- The slot is given a token. -/
  | byToken (type : FieldType) (token : TokenCode)

namespace SlotCode

def ofType (t : FieldType) : SlotCode := if t.isApplied then byToken t (.ofType t) else byType t

/-- The call in the code of a part, which is declared with the type that the slot is for. -/
def ofTokens? (self : String) (declaration initial : Tokens) : Option SlotCode := do
  let (declared, type) ← declarationParser.runAll? declaration
  let (made, token) ← initialParser.runAll? initial
  if declared = made then
    let type ← typeOf? self type
    match token with
    | none => return byType type
    | some ts => return byToken type (← tokenOf? self ts)
  else none

/-- The slot that the call makes. There is none if a type in it has no meaning, or if a token that
it asks for has no end. -/
def slot? (records : TypeName → Option RecordId) (S : Schema) : SlotCode → Option Slot
  | byType t => do
    let target ← t.meaning records
    return { target, token := ← target.token S }
  | byToken t token => do
    return { target := ← t.meaning records, token := ← token.value records S }

variable {records : TypeName → Option RecordId} {S : Schema} {t : FieldType} {ty : Ty}

/-- The slot for a type holds the type's own token, whether it is asked for or spelled out. -/
theorem slot?_ofType (hraw : ∀ n ∈ t.idents, ¬IsRaw n) (hty : t.meaning records = some ty) :
    (ofType t).slot? records S = (ty.token S).map fun token => { target := ty, token } := by
  have htoken := TokenCode.value_ofType (S := S) hraw hty
  unfold ofType
  split <;> simp only [slot?, hty, htoken, Option.bind_eq_bind, Option.bind_some] <;>
    cases ty.token S <;> rfl

end SlotCode

namespace Part

variable {records : TypeName → Option RecordId} {S : Schema} {p : Part} {ty : Ty}
  {record : String} {t : TypeExpr}

/-- The code of a part is read as the call for its type. -/
theorem ofTokens?_code (h : p.type.HasForms) :
    SlotCode.ofTokens? self p.declaration p.initial = some (.ofType p.type) := by
  have hdeclared := (Parser.Reads.last (p.reads_declaration [])).runAll?
  have hmade := (Parser.Reads.last (p.reads_initial [])).runAll?
  obtain ⟨u, hu⟩ := h.exists_hasForm
  have hread : typeOf? self p.type.tokens = some p.type := typeOf?_of_hasForm hu
  have htoken : tokenOf? self (TokenCode.ofType p.type).code = some (.ofType p.type) :=
    tokenOf?_ofType h
  rw [SlotCode.ofTokens?, SlotCode.ofType, hdeclared, hmade, tokenCode?]
  cases p.type.isApplied <;> simp [hread, htoken]

/-- A part that can be named after its type is made with a slot for what the type stands for. The
token in the slot is the own token of that type: it has the same name, arguments and supertypes at
every level, and so the same text, however the names in the declaration are spelled; and there is
none where the own token has no end. A raw name would stand in the token as it is spelled, but no
part can be named after a type that has one. -/
theorem slot?_eq_own (self : String) (hrecord : record ∉ keywords) (ht : t.WellNamed)
    (htype : FieldType.ofTypeExpr record t = .ok p.type)
    (hname : plainIdentifier p.type.adapterName = .ok p.name)
    (hty : p.type.meaning records = some ty) :
    ∃ slot, SlotCode.ofTokens? self p.declaration p.initial = some slot ∧
      slot.slot? records S = (ty.token S).map fun token => { target := ty, token } := by
  have hword : isIdentWord p.type.adapterName.toList := by
    by_contra hnot
    rw [plainIdentifier, if_neg hnot] at hname
    cases hname
  have hwritten := FieldType.ofTypeExpr_eq_ok_iff.1 htype
  exact ⟨_, ofTokens?_code (hwritten.hasForms hrecord ht),
    SlotCode.slot?_ofType (FieldType.not_isRaw_of_isIdentWord hword) hty⟩

end Part

end Emit

namespace Samples

open Code Emit

/-- The type `std::collections::BTreeMap<String, Vec<::core::option::Option<Polygon>>>`. -/
def polygonsType : TypeExpr :=
  let polygon := .path (.mk true [.plain "core", .plain "option",
    .applied "Option" false [.type (.path (.ofName "Polygon"))] false])
  .path (.mk false [.plain "std", .plain "collections", .applied "BTreeMap" false
    [.type (.path (.ofName "String")), .type (appliedType "Vec" [.type polygon])] false])

/-- A part for this type. -/
def polygonsPart : Part where
  name := "btreemap_string_vec_option_polygon_adapter"
  type := .applied ⟨false, ["std", "collections", "BTreeMap"]⟩
    [.simple ⟨false, ["String"]⟩, .applied ⟨false, ["Vec"]⟩
      [.applied ⟨true, ["core", "option", "Option"]⟩ [.simple ⟨false, ["Polygon"]⟩]]]

def polygonNamed (n : TypeName) : Option RecordId :=
  if n.segments = ["Polygon"] then some polygonId else none

/-- The token of the slot is that of the map, with the supertype of the record at its end. -/
theorem polygons_slot :
    let ty : Ty := .treeMap (.vec (.option (.record polygonId)))
    polygonsType.WellNamed ∧
      FieldType.ofTypeExpr "Gallery" polygonsType = .ok polygonsPart.type ∧
      plainIdentifier polygonsPart.type.adapterName = .ok polygonsPart.name ∧
      polygonsPart.type.meaning polygonNamed = some ty ∧
      ∃ slot token, SlotCode.ofTokens? "GalleryTypeAdapter" polygonsPart.declaration
          polygonsPart.initial = some slot ∧
        slot.slot? polygonNamed schema = some { target := ty, token } ∧
        ty.token schema = some token ∧
        token.text = "BTreeMap<String, Vec<Option<Polygon>>>" := by
  intro ty
  have hnamed : polygonsType.WellNamed := by decide
  have htype : FieldType.ofTypeExpr "Gallery" polygonsType = .ok polygonsPart.type := rfl
  have hname : plainIdentifier polygonsPart.type.adapterName = .ok polygonsPart.name := by decide
  have hty : polygonsPart.type.meaning polygonNamed = some ty := by decide
  -- the emitted text is read back by the theorem, not by computation
  obtain ⟨slot, hslot, hmade⟩ :=
    Part.slot?_eq_own (S := schema) "GalleryTypeAdapter" (by decide) hnamed htype hname hty
  have hsome : (ty.token schema).isSome := by decide
  obtain ⟨token, htoken⟩ := Option.isSome_iff_exists.1 hsome
  have htext : (ty.token schema).map (·.text) = some "BTreeMap<String, Vec<Option<Polygon>>>" := by
    decide
  rw [htoken] at hmade htext
  exact ⟨hnamed, htype, hname, hty, slot, token, hslot, hmade, htoken, Option.some.inj htext⟩

end Samples

end JsonAdapters
