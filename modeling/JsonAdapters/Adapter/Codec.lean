import JsonAdapters.Adapter.Error
import JsonAdapters.Record.Schema

/-!
# Kinds of adapters

## Main definitions

* `Codec`: how an adapter moves values: as a built-in type, as a record, or in its own way.
* `Codec.parts`: the types whose adapters a codec needs.
* `Codec.builtin?`: the codec of a type that needs no factory.
-/

namespace JsonAdapters

/-- An adapter with its own way to move values of one type. -/
structure CustomCodec where
  serves : Ty
  /-- Reads one value; `none` is the absent value. -/
  read : Json.ReadM (Option Value)
  /-- Writes one value; `none` is the absent value. -/
  write : Option Value → Json.WriteM Unit

/-- How an adapter moves values. -/
inductive Codec
  | scalar (s : Scalar)
  | vec (item : Ty)
  | option (inner : Ty)
  | box (inner : Ty)
  | hashMap (value : Ty)
  | treeMap (value : Ty)
  | record (r : Record)
  | custom (c : CustomCodec)

namespace Codec

def serves : Codec → Ty
  | .scalar s => .scalar s
  | .vec t => .vec t
  | .option t => .option t
  | .box t => .box t
  | .hashMap t => .hashMap t
  | .treeMap t => .treeMap t
  | .record r => .record r.id
  | .custom c => c.serves

def parts : Codec → List Ty
  | .scalar _ | .custom _ => []
  | .vec t | .option t | .box t | .hashMap t | .treeMap t => [t]
  | .record r => r.slots

/-- The codec of a type that needs no factory; records need one. -/
def builtin? : Ty → Option Codec
  | .scalar s => some (.scalar s)
  | .vec t => some (.vec t)
  | .option t => some (.option t)
  | .box t => some (.box t)
  | .hashMap t => some (.hashMap t)
  | .treeMap t => some (.treeMap t)
  | .record _ => none

end Codec

/-! ## Text of adapters -/

/-- Text for a log of an adapter whose type is known only by its token. -/
def erasedText (token : TypeToken Ty) : String :=
  s!"ErasedAdapter \x7b token: \"{token.text}\", .. \x7d"

end JsonAdapters
