import Workplane.Text.Hex
import Workplane.Text.Parts

/-!
# Resources of the API

What a path denotes.  The parts of a path between slashes are compared as they are written; a part
that is a parameter is kept in that form, and `Parameter.decode?` reads it.
-/

namespace Workplane.Http

namespace Parameter

/-- Replaces every percent sign with two hexadecimal digits by the byte that they spell. -/
def unescape : List UInt8 → List UInt8
  | 37 :: h :: l :: rest =>
    match Hex.value? (Char.ofNat h.toNat), Hex.value? (Char.ofNat l.toNat) with
    | some high, some low => UInt8.ofNat (16 * high + low) :: unescape rest
    | _, _ => 37 :: unescape (h :: l :: rest)
  | b :: rest => b :: unescape rest
  | [] => []

/-- The text that a parameter spells, if its bytes are well-formed. -/
def decode? (raw : String) : Option String :=
  String.fromUTF8? ⟨(unescape raw.toUTF8.toList).toArray⟩

end Parameter

/-- What a path denotes; a parameter is in its written form. -/
inductive Resource where
  | health
  | workspace
  | photons
  | photon (id : String)
  | deployments
  | deployment (id : String)
  | readiness (id : String)
  | termination (id : String)
  | secrets
  | secret (name : String)
  deriving DecidableEq, Repr

namespace Resource

/-- The part of a target before its query. -/
def path (target : List Char) : List Char :=
  target.takeWhile fun c => !(c == '?' || c == '#')

/-- A resource with a parameter that ends the path, which must not be empty. -/
def ofLast (resource : String → Resource) (raw : String) : Option Resource :=
  if raw.isEmpty then none else some (resource raw)

/-- The resource of the parts of a path. -/
def ofParts : List String → Option Resource
  | ["", "api", "v1", "healthz"] => some health
  | ["", "api", "v1", "workspace"] => some workspace
  | ["", "api", "v1", "photons"] => some photons
  | ["", "api", "v1", "photons", id] => ofLast photon id
  | ["", "api", "v1", "deployments"] => some deployments
  | ["", "api", "v1", "deployments", id] => ofLast deployment id
  | ["", "api", "v1", "deployments", id, "readiness"] => some (readiness id)
  | ["", "api", "v1", "deployments", id, "termination"] => some (termination id)
  | ["", "api", "v1", "secrets"] => some secrets
  | ["", "api", "v1", "secrets", name] => ofLast secret name
  | _ => none

/-- The resource of the target of a request. -/
def ofTarget (target : String) : Option Resource :=
  ofParts ((Text.parts '/' (path target.toList)).map String.ofList)

end Resource

end Workplane.Http
