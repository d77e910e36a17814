import Workplane.Time.Duration

/-!
# Errors of the store

Why an operation on stored objects failed.  Every error names the kind of the objects.
-/

namespace Workplane

/-- Why an operation on stored objects failed. -/
inductive StoreError where
  | notFound (kind name : String)
  | alreadyExists (kind name : String)
  /-- An update lost against a concurrent writer. -/
  | conflict (kind name : String)
  /-- A stored text is no object of the kind. -/
  | serialization (kind detail : String)
  /-- A call did not answer within its time limit. -/
  | timeout (kind operation : String) (nanoseconds : Nat)
  /-- The backend failed; the causes stand from the outermost to the innermost. -/
  | backend (kind : String) (causes : List String)
  deriving DecidableEq, Repr

namespace StoreError

/-- The text of an error. -/
def message : StoreError → String
  | notFound kind name => s!"{kind} '{name}' not found"
  | alreadyExists kind name => s!"{kind} '{name}' already exists"
  | conflict kind name => s!"{kind} '{name}' was modified concurrently, retry the request"
  | serialization kind detail => s!"failed to encode or decode {kind}: {detail}"
  | timeout kind operation nanoseconds =>
    s!"{operation} on {kind} timed out after {Duration.text nanoseconds}"
  | backend kind causes =>
    let message := ": ".intercalate causes
    s!"{kind} backend error: {message}"

/-- The object does not exist. -/
def isNotFound : StoreError → Bool
  | notFound .. => true
  | _ => false

end StoreError

end Workplane
