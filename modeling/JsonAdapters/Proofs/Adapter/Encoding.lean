import JsonAdapters.Adapter.Write
import JsonAdapters.Proofs.Adapter.Decoding

/-!
# Trees of values

Which tree a value of a type is written as, said on the value as a whole. Nothing here knows of
streams, of adapters or of registries.

## Main definitions

* `Value.HasType`: the value is one of the type.
* `Value.Finite`: all floating point numbers of the value are finite.
* `Value.encode`: the tree of a value.
-/

namespace JsonAdapters

open Json (Tree)

namespace Value

mutual

/-- The value is one of the type. Skipped fields of a record may hold anything. -/
def HasType (S : Schema) : Value → Ty → Prop
  | .bool _, .scalar .bool | .single _, .scalar .single | .double _, .scalar .double
  | .string _, .scalar .string | .nothing, .option _ => True
  | .int n, .scalar (.signed w) =>
    (Scalar.signed w).least ≤ n ∧ n ≤ (Scalar.signed w).greatest
  | .int n, .scalar (.unsigned w) =>
    (Scalar.unsigned w).least ≤ n ∧ n ≤ (Scalar.unsigned w).greatest
  | .vec vs, .vec t => HaveType S vs t
  | .just v, .option t | .box v, .box t => HasType S v t
  | .map es, .hashMap t => EntriesHaveType S es t ∧ (es.map Prod.fst).Nodup
  | .map es, .treeMap t => EntriesHaveType S es t ∧ Ascending es
  | .record vs _, .record id => ∃ r, S.find? id = some r ∧ FieldsHaveType S vs r.fields
  | _, _ => False

/-- All values are of the type. -/
def HaveType (S : Schema) : List Value → Ty → Prop
  | [], _ => True
  | v :: vs, t => HasType S v t ∧ HaveType S vs t

/-- The values of all entries are of the type. -/
def EntriesHaveType (S : Schema) : List (String × Value) → Ty → Prop
  | [], _ => True
  | (_, v) :: es, t => HasType S v t ∧ EntriesHaveType S es t

/-- There is one value for each field, of the type of the field. -/
def FieldsHaveType (S : Schema) : List Value → List Field → Prop
  | [], [] => True
  | v :: vs, f :: fs => HasType S v f.declared ∧ FieldsHaveType S vs fs
  | _, _ => False

end

mutual

/-- All floating point numbers that are written are finite. -/
def Finite : Value → Prop
  | .single bits => Binary.single.isFinite bits = true
  | .double bits => Binary.double.isFinite bits = true
  | .vec vs | .record vs _ => AllFinite vs
  | .just v | .box v => Finite v
  | .map es => EntriesFinite es
  | .bool _ | .int _ | .string _ | .nothing => True

/-- All floating point numbers of a list are finite. -/
def AllFinite : List Value → Prop
  | [] => True
  | v :: vs => Finite v ∧ AllFinite vs

/-- All floating point numbers of the values of entries are finite. -/
def EntriesFinite : List (String × Value) → Prop
  | [] => True
  | (_, v) :: es => Finite v ∧ EntriesFinite es

end

mutual

/-- The tree of a value. -/
def encode (S : Schema) : Value → Ty → Tree
  | .bool b, _ => .bool b
  | .int n, _ => .number (toString n)
  | .single bits, _ => .number (Decimal.print Binary.single bits)
  | .double bits, _ => .number (Decimal.print Binary.double bits)
  | .string s, _ => .string s
  | .vec vs, .vec t => .array (encodeItems S vs t)
  | .just v, .option t | .box v, .box t => encode S v t
  | .map es, .hashMap t | .map es, .treeMap t => .object (encodeEntries S es t)
  | .record vs _, .record id => .object (encodeFields S vs (((S.find? id).map (·.fields)).getD []))
  | _, _ => .null

/-- The trees of items. -/
def encodeItems (S : Schema) : List Value → Ty → List Tree
  | [], _ => []
  | v :: vs, t => encode S v t :: encodeItems S vs t

/-- The members of a map. -/
def encodeEntries (S : Schema) : List (String × Value) → Ty → List (String × Tree)
  | [], _ => []
  | (key, v) :: es, t => (key, encode S v t) :: encodeEntries S es t

/-- The members of a record. -/
def encodeFields (S : Schema) : List Value → List Field → List (String × Tree)
  | v :: vs, f :: fs => (f.key, encode S v f.declared) :: encodeFields S vs fs
  | _, _ => []

end

/-- The tree of a value, or of the absent one. -/
def encodeOption (S : Schema) (t : Ty) : Option Value → Tree
  | some v => v.encode S t
  | none => .null

end Value

/-! ## Trees of parts -/

variable {S : Schema} {t : Ty} {r : Record} {f : Field} {v : Value} {vs : List Value}

theorem Field.declared_eq_type (h : f.nullable = false) : f.declared = f.type := by
  simp [Field.declared, h]

theorem Field.declared_eq_option (h : f.nullable = true) : f.declared = .option f.type := by
  simp [Field.declared, h]

namespace Value

theorem encodeItems_eq_map (vs : List Value) :
    encodeItems S vs t = vs.map fun v => v.encode S t := by
  induction vs with
  | nil => rfl
  | cons v vs ih => rw [encodeItems, ih, List.map_cons]

theorem encodeEntries_eq_map (es : List (String × Value)) :
    encodeEntries S es t = es.map fun e => (e.1, e.2.encode S t) := by
  induction es with
  | nil => rfl
  | cons e es ih => rw [encodeEntries, ih, List.map_cons]

theorem encodeFields_eq_map : (vs : List Value) → (fs : List Field) →
    encodeFields S vs fs = (fs.zip vs).map fun p => (p.1.key, p.2.encode S p.1.declared)
  | [], [] | [], _ :: _ | _ :: _, [] => rfl
  | v :: vs, f :: fs => by
    rw [encodeFields, encodeFields_eq_map vs fs, List.zip_cons_cons, List.map_cons]

theorem mem_encodeFields {fs : List Field} {m : String × Tree} : m ∈ encodeFields S vs fs ↔
    ∃ (i : Nat) (f : Field) (v : Value), fs[i]? = some f ∧ vs[i]? = some v ∧
      (f.key, v.encode S f.declared) = m := by
  rw [encodeFields_eq_map, List.mem_map]
  constructor
  · rintro ⟨⟨f, v⟩, hmem, rfl⟩
    obtain ⟨i, hi⟩ := List.mem_iff_getElem?.1 hmem
    obtain ⟨hf, hv⟩ := List.getElem?_zip_eq_some.1 hi
    exact ⟨i, f, v, hf, hv, rfl⟩
  · rintro ⟨i, f, v, hf, hv, rfl⟩
    exact ⟨(f, v), List.mem_of_getElem? (List.getElem?_zip_eq_some.2 ⟨hf, hv⟩), rfl⟩

/-- A record is written as the members of its fields. -/
theorem encode_record {id : RecordId} {skipped : List Value} (hr : S.find? id = some r) :
    (record vs skipped).encode S (.record id) = .object (encodeFields S vs r.fields) := by
  rw [encode, hr]
  rfl

theorem names_encodeEntries (es : List (String × Value)) :
    (encodeEntries S es t).map Prod.fst = es.map Prod.fst := by
  rw [encodeEntries_eq_map, List.map_map]
  rfl

theorem names_encodeFields : {vs : List Value} → {fs : List Field} → FieldsHaveType S vs fs →
    (encodeFields S vs fs).map Prod.fst = fs.map Field.key
  | [], [], _ => rfl
  | _ :: _, _ :: _, h => congrArg (_ :: ·) (names_encodeFields h.2)

/-! ## Types of parts -/

theorem HaveType.of_mem : {vs : List Value} → HaveType S vs t → v ∈ vs → v.HasType S t
  | _ :: _, h, hv => by
    obtain rfl | hv := List.mem_cons.1 hv
    · exact h.1
    · exact HaveType.of_mem h.2 hv

theorem EntriesHaveType.of_mem {e : String × Value} : {es : List (String × Value)} →
    EntriesHaveType S es t → e ∈ es → e.2.HasType S t
  | _ :: _, h, he => by
    obtain rfl | he := List.mem_cons.1 he
    · exact h.1
    · exact EntriesHaveType.of_mem h.2 he

theorem FieldsHaveType.length : {vs : List Value} → {fs : List Field} → FieldsHaveType S vs fs →
    vs.length = fs.length
  | [], [], _ => rfl
  | _ :: _, _ :: _, h => congrArg (· + 1) h.2.length

theorem FieldsHaveType.get : {vs : List Value} → {fs : List Field} → {i : Nat} →
    FieldsHaveType S vs fs → vs[i]? = some v → fs[i]? = some f → v.HasType S f.declared
  | _ :: _, _ :: _, 0, h, hv, hf => by
    cases hv
    cases hf
    exact h.1
  | _ :: _, _ :: _, _ + 1, h, hv, hf => h.2.get hv hf

end Value

end JsonAdapters
