/-!
# What a JSON document may continue with

Reading and writing keep to the same order of steps: values and names alternate in objects, values
follow each other in arrays, and a document is one value.
-/

namespace JsonAdapters.Json

/-- What is due next in the innermost open container, or at the top of the document. -/
inductive Due
  /-- The first value or name, or the end of the container. -/
  | first
  /-- One more value or name, or the end of the container. -/
  | further
  /-- The value of the member whose name has passed. -/
  | memberValue
  /-- Nothing: the document is complete. -/
  | nothing
deriving DecidableEq, Repr

end JsonAdapters.Json
