import JsonAdapters.Adapter.Codec

/-!
# Factories and dispatch tables

A factory answers requests for adapters by token. A dispatch table is the factory of a list of
records: an entry of the requested type wins, wherever it stands; otherwise the first entry whose
record the requested type extends answers.

## Main definitions

* `Factory`, `TableEntry`, `FactoryTable`.
* `FactoryTable.find?`: the entry that serves a request.

## Design notes

A table computes the tokens of its entries while it looks through them. If it comes to one that has
no end, the search has none either; this is the outer `none` of a search.
-/

namespace JsonAdapters

/-- Answers requests for adapters. The answer `none` leaves the request to others; there is no
answer at all if the factory comes to a token without end. -/
structure Factory where
  create : TypeToken Ty → Option (Option Codec)

/-- A record that a dispatch table serves. -/
structure TableEntry where
  token : Option (TypeToken Ty)
  record : Record

def TableEntry.of (s : Schema) (r : Record) : TableEntry := ⟨s.token r.id, r⟩

def TableEntry.logText (e : TableEntry) : Option String := do
  return s!"DispatchEntry(\"{(← e.token).text}\")"

/-- Records in the order in which they are listed. -/
structure FactoryTable where
  entries : List TableEntry

namespace FactoryTable

def of (s : Schema) (records : List Record) : FactoryTable :=
  ⟨records.map (TableEntry.of s)⟩

/-- The entry of the requested type, or else the first one whose record the requested type
extends. -/
def find? (t : FactoryTable) (requested : TypeToken Ty) : Option (Option TableEntry) := do
  match ← t.entries.findM? fun e => return (← e.token).sameType requested with
  | some e => return some e
  | none => t.entries.findM? fun e => return requested.isSubtypeOf (← e.token)

def factory (t : FactoryTable) : Factory where
  create requested := do
    let found ← t.find? requested
    return found.map fun e => .record e.record

def logText (t : FactoryTable) : Option String := do
  let entries := ", ".intercalate (← t.entries.mapM TableEntry.logText)
  return s!"DispatchTable \x7b entries: [{entries}] \x7d"

end FactoryTable

end JsonAdapters
