import JsonAdapters.Record.Schema

/-!
# Sample records

Record types with every feature that records have: renamed and alternative keys, optional, boxed and
recursive fields, skipped fields, default instances and parents.

## Main definitions

* `Samples.schema`: all sample records.
* `Samples.record?`: the sample record of a name.
-/

namespace JsonAdapters.Samples

/-! ## Short forms -/

abbrev i32 : Ty := .scalar (.signed .w32)

abbrev i64 : Ty := .scalar (.signed .w64)

abbrev u8 : Ty := .scalar (.unsigned .w8)

abbrev u32 : Ty := .scalar (.unsigned .w32)

abbrev u64 : Ty := .scalar (.unsigned .w64)

abbrev f64 : Ty := .scalar .double

abbrev bool : Ty := .scalar .bool

abbrev string : Ty := .string

def field (name : String) (type : Ty) : Field := { name, key := name, type }

def optional (name : String) (type : Ty) : Field := { name, key := name, type, nullable := true }

/-! ## Records of one crate -/

def unlistedId : RecordId := ⟨"kson_tests", "Unlisted"⟩

def unlisted : Record := { id := unlistedId, fields := [field "id" i32] }

def article : Record :=
  { id := ⟨"kson_tests::model::article", "Article"⟩
    fields := [field "title" string, field "title2" string, field "views" u64,
      optional "summary" string]
    skipped := [⟨"cached_len", u64, .int 0⟩]
    default := some
      { fields := [.string "Untitled", .string "Fallback subtitle", .int 0,
          .just (.string "No summary")]
        skipped := [.int 7] } }

def settings : Record :=
  { id := ⟨"kson_tests::model::article", "Settings"⟩
    fields := [field "theme" string, optional "font_size" u8, field "beta" bool]
    default := some { fields := [.string "", .nothing, .bool false], skipped := [] } }

def toggle : Record :=
  { id := ⟨"kson_tests::model::article", "Toggle"⟩
    fields := [field "enabled" bool, field "enabled_assigned" bool]
    default := some { fields := [.bool false, .bool false], skipped := [] } }

def treeNodeId : RecordId := ⟨"kson_tests::model::graph", "TreeNode"⟩

def treeNode : Record :=
  { id := treeNodeId
    fields := [field "name" string, field "children" (.vec (.record treeNodeId))] }

def personId : RecordId := ⟨"kson_tests::model::graph", "Person"⟩

def petId : RecordId := ⟨"kson_tests::model::graph", "Pet"⟩

def person : Record :=
  { id := personId
    fields := [field "name" string, optional "pet" (.box (.record petId))] }

def pet : Record :=
  { id := petId
    fields := [field "name" string, optional "owner" (.box (.record personId))] }

def account : Record :=
  { id := ⟨"kson_tests::model::legacy", "Account"⟩
    fields := [
      { name := "id_val", key := "idVal", aliases := ["id"], type := i64 },
      { name := "display_name", key := "displayName", aliases := ["name", "display"],
        type := string }] }

/-- Name of the record whose fields are all required. -/
def strictId : RecordId := ⟨"kson_tests::model::nullability", "Strict"⟩

def strict : Record :=
  { id := strictId, fields := [field "id" i32, field "name" string] }

def nullable : Record :=
  { id := ⟨"kson_tests::model::nullability", "Nullable"⟩
    fields := [optional "id" i32, optional "name" string] }

def shapeId : RecordId := ⟨"kson_tests::model::shape", "Shape"⟩

def polygonId : RecordId := ⟨"kson_tests::model::shape", "Polygon"⟩

def squareId : RecordId := ⟨"kson_tests::model::shape", "Square"⟩

def shape : Record := { id := shapeId, fields := [field "name" string] }

def polygon : Record :=
  { id := polygonId, fields := [field "name" string, field "sides" u8], parent := some shapeId }

/-- A record that extends a record that extends another. -/
def square : Record :=
  { id := squareId
    fields := [field "name" string, field "sides" u8, field "side" f64]
    parent := some polygonId }

def addressId : RecordId := ⟨"kson_tests::model::user", "Address"⟩

def address : Record :=
  { id := addressId
    fields := [field "street" string, field "city" string, optional "zip" u32] }

def user : Record :=
  { id := ⟨"kson_tests::model::user", "User"⟩
    fields := [field "id" i64, field "name" string, optional "email" string,
      field "tags" (.vec string), field "scores" (.hashMap i32), field "flags" (.treeMap bool),
      field "address" (.record addressId), field "previous" (.vec (.record addressId))] }

/-! ## Records of a second crate -/

/-- Records of a catalog, in a crate of the given name. -/
structure Catalog where
  dimensions : Record
  product : Record
  listing : Record
  parcel : Record
  money : Record

def catalogOf (crate : String) : Catalog :=
  let dimensionsId : RecordId := ⟨crate ++ "::catalog::detail", "Dimensions"⟩
  let moneyId : RecordId := ⟨crate ++ "::common", "Money"⟩
  let productId : RecordId := ⟨crate ++ "::catalog", "Product"⟩
  { dimensions :=
      { id := dimensionsId, fields := [field "width" f64, field "height" f64] }
    product :=
      { id := productId
        fields := [field "sku" string, field "price" (.record moneyId),
          optional "dimensions" (.record dimensionsId), field "attributes" (.treeMap string),
          { name := "title", key := "title", aliases := ["label"], type := string }] }
    listing :=
      { id := ⟨crate ++ "::catalog", "Listing"⟩
        fields := [field "products" (.vec (.record productId)), field "page" u32,
          optional "next" string]
        default := some { fields := [.vec [], .int 0, .nothing], skipped := [] } }
    parcel :=
      { id := ⟨crate ++ "::catalog", "Parcel"⟩
        fields := [field "size" (.record dimensionsId), field "weight" f64] }
    money :=
      { id := moneyId, fields := [field "amount" i64, field "currency" string] } }

def catalog : Catalog := catalogOf "oracle_agg"

/-- The same catalog in another crate; none of its records is a record of the first. -/
def foreignCatalog : Catalog := catalogOf "kson_aggregate_tests"

/-! ## Records of a third crate -/

def unservedId : RecordId := ⟨"oracle_driver", "Unserved"⟩

def unserved : Record := { id := unservedId, fields := [field "id" i32] }

def numbers : Record :=
  { id := ⟨"oracle_driver::model", "Numbers"⟩
    fields := [field "a" (.scalar (.signed .w8)), field "b" (.scalar (.signed .w16)),
      field "c" i32, field "d" i64, field "e" u8, field "f" (.scalar (.unsigned .w16)),
      field "g" u32, field "h" u64, field "i" (.scalar .single), field "j" f64] }

def emptyId : RecordId := ⟨"oracle_driver::model", "Empty"⟩

def empty : Record := { id := emptyId, fields := [] }

def leafId : RecordId := ⟨"oracle_driver::model::deep", "Leaf"⟩

/-- A record that extends one with a different shape. -/
def leaf : Record :=
  { id := leafId
    fields := [field "tag" string, optional "up" (.box (.record emptyId))]
    parent := some emptyId }

def defaulted : Record :=
  { id := ⟨"oracle_driver::model", "Defaulted"⟩
    fields := [field "n" i32, optional "opt" i32, field "list" (.vec string),
      optional "nested" (.option i32), field "leaf" (.record leafId)]
    skipped := [⟨"memo", string, .string ""⟩]
    default := some
      { fields := [.int (-7), .just (.int 11), .vec [.string "x", .string "y"], .just .nothing,
          .record [.string "dflt", .just (.box (.record [] []))] []]
        skipped := [.string "kept"] } }

/-- Keys that are empty, that need escapes, and that are no names of fields. -/
def keys : Record :=
  { id := ⟨"oracle_driver::model", "Keys"⟩
    fields := [
      { name := "empty", key := "", type := i32 },
      { name := "odd", key := "a b\"\\\né", aliases := ["é", "日本"], type := string },
      { name := "r#type", key := "type", type := bool },
      { name := "r#match", key := "match", aliases := ["Type", "TYPE"], type := string,
        nullable := true },
      { name := "name", key := "null", type := u8, nullable := true }] }

def nestId : RecordId := ⟨"oracle_driver::model", "Nest"⟩

def nest : Record :=
  { id := nestId
    fields := [field "a" (.vec (.vec (.option i64))),
      field "b" (.treeMap (.vec (.scalar .single))),
      optional "c" (.option string), field "d" (.box (.option bool)),
      optional "e" (.box (.record nestId)), optional "f" (.vec (.box u8)),
      optional "g" (.hashMap (.treeMap (.option u8)))] }

def hidden : Record :=
  { id := ⟨"oracle_driver::model", "Hidden"⟩
    fields := [field "id" u8]
    skipped := [⟨"cache", .vec u8, .vec []⟩] }

def onlySkipped : Record :=
  { id := ⟨"oracle_driver::model", "OnlySkipped"⟩
    fields := []
    skipped := [⟨"secret", u32, .int 0⟩]
    default := some { fields := [], skipped := [.int 42] } }

def emptyDefault : Record :=
  { id := ⟨"oracle_driver::model", "EmptyDefault"⟩
    fields := []
    default := some { fields := [], skipped := [] } }

def shared : Record :=
  { id := ⟨"oracle_driver::model", "Shared"⟩
    fields := [field "a" string, optional "b" string, field "c" string,
      field "d" (.vec string), field "e" (.vec string)] }

def stranger : Record :=
  { id := ⟨"oracle_driver::model", "Stranger"⟩
    fields := [optional "n" i32, field "who" (.record unservedId)] }

def schema : Schema :=
  ⟨[unlisted, article, settings, toggle, treeNode, person, pet, account, strict, nullable, shape,
    polygon, square, user, address, catalog.dimensions, catalog.product, catalog.listing,
    catalog.parcel, catalog.money, foreignCatalog.dimensions, foreignCatalog.product,
    foreignCatalog.listing, foreignCatalog.parcel, foreignCatalog.money, unserved, numbers, empty,
    defaulted, keys, nest, hidden, onlySkipped, emptyDefault, shared, stranger, leaf]⟩

/-- The record with a short name; of two with one name, the one that is listed first. -/
def record? (ident : String) : Option Record :=
  schema.records.find? fun r => r.id.ident = ident

end JsonAdapters.Samples
