import JsonAdapters.Number.Binary
import JsonAdapters.Type.Token

/-!
# Types of values

The types that adapters move: scalars, containers and records. A record type is known by name;
what a name stands for is said by a `Schema`.

## Main definitions

* `Ty`: types; `Ty.path` is the full text of a type.
* `RecordId`: name of a record type.
-/

namespace JsonAdapters

/-- Bits of an integer type. -/
inductive Width
  | w8
  | w16
  | w32
  | w64
deriving DecidableEq, Repr

def Width.bits : Width → Nat
  | .w8 => 8
  | .w16 => 16
  | .w32 => 32
  | .w64 => 64

/-- Types whose values are no containers. -/
inductive Scalar
  | bool
  | signed (w : Width)
  | unsigned (w : Width)
  | single
  | double
  | string
deriving DecidableEq, Repr

namespace Scalar

def path : Scalar → String
  | .bool => "bool"
  | .signed w => s!"i{w.bits}"
  | .unsigned w => s!"u{w.bits}"
  | .single => "f32"
  | .double => "f64"
  | .string => "alloc::string::String"

def least : Scalar → Int
  | .signed w => -(Binary.twoPow (w.bits - 1))
  | _ => 0

def greatest : Scalar → Int
  | .signed w => Binary.twoPow (w.bits - 1) - 1
  | .unsigned w => Binary.twoPow w.bits - 1
  | _ => 0

end Scalar

/-- Name of a record type. -/
structure RecordId where
  /-- Modules that hold the record, outermost first, joined by double colons. -/
  module : String
  ident : String
deriving DecidableEq, Repr, Inhabited

def RecordId.path (r : RecordId) : String := r.module ++ "::" ++ r.ident

/-- Types that adapters move. -/
inductive Ty
  | scalar (s : Scalar)
  | vec (item : Ty)
  | option (inner : Ty)
  | box (inner : Ty)
  | hashMap (value : Ty)
  | treeMap (value : Ty)
  | record (id : RecordId)
deriving DecidableEq, Repr

namespace Ty

abbrev string : Ty := .scalar .string

def path : Ty → String
  | .scalar s => s.path
  | .vec t => s!"alloc::vec::Vec<{t.path}>"
  | .option t => s!"core::option::Option<{t.path}>"
  | .box t => s!"alloc::boxed::Box<{t.path}>"
  | .hashMap t => s!"std::collections::hash::map::HashMap<{Scalar.string.path}, {t.path}>"
  | .treeMap t => s!"alloc::collections::btree::map::BTreeMap<{Scalar.string.path}, {t.path}>"
  | .record id => id.path

end Ty

end JsonAdapters
