import Workplane.Digest.Sha256
import Workplane.Name
import Workplane.Storage.Kind

/-!
# Photons

A photon is an immutable build of a model.  Its identifier consists of the name of the model and
a digest of the written form of its specification, so equal specifications have equal
identifiers.  `Photon.Spec.toJson` fixes that written form.
-/

namespace Workplane

/-- The description of a photon, as uploaded. -/
structure Photon.Spec where
  /-- The name shared by all builds of a model. -/
  name : String
  model : String
  image : String
  exposedPaths : List String
  requirementDependency : List String
  entrypoint : Option String
  /-- Opaque here. -/
  openapiSchema : Option Json
  /-- Sorted by key. -/
  labels : List (String × String)

namespace Photon.Spec

/-- The members of a specification in their order. -/
def members (s : Photon.Spec) : List (String × Json) :=
  [("name", .string s.name), ("model", .string s.model), ("image", .string s.image),
    ("exposed_paths", .strings s.exposedPaths),
    ("requirement_dependency", .strings s.requirementDependency)] ++
  Json.optional "entrypoint" .string s.entrypoint ++
  Json.optional "openapi_schema" id s.openapiSchema ++
  [("labels", .object (s.labels.map fun l => (l.1, .string l.2)))]

/-- A specification as a document. -/
def toJson (s : Photon.Spec) : Json :=
  .object s.members

/-- The names of the members in their order. -/
def memberNames : List String :=
  ["name", "model", "image", "exposed_paths", "requirement_dependency", "entrypoint",
    "openapi_schema", "labels"]

/-- A specification from the members of a record. -/
def ofMembers (m : Reader.Members) : Option Photon.Spec := do
  return {
    name := ← m.required "name" Reader.text
    model := ← m.withDefault "model" "" Reader.text
    image := ← m.required "image" Reader.text
    exposedPaths := ← m.withDefault "exposed_paths" [] (Reader.list Reader.text)
    requirementDependency := ← m.withDefault "requirement_dependency" [] (Reader.list Reader.text)
    entrypoint := ← m.omittable "entrypoint" Reader.text
    openapiSchema := ← m.omittable "openapi_schema" Reader.any
    labels := ← m.withDefault "labels" [] (Reader.map Reader.text) }

/-- A specification from a document. -/
def reader : Reader Photon.Spec := fun room j => do
  ofMembers (← Reader.members memberNames room j)

end Photon.Spec

/-- An immutable, content-addressed build of a model. -/
structure Photon where
  id : String
  spec : Photon.Spec
  /-- Milliseconds since 1970. -/
  createdAt : UInt64

namespace Photon

/-- The number of digits of the digest in an identifier. -/
def digestDigits : Nat := 8

/-- The identifier of a specification: its name in lower case, a dash, and the first digits of
the digest of its written form. -/
def idOf (s : Spec) : String :=
  let digest := Hex.ofBytes (Sha256.digest s.toJson.bytes.toList)
  Name.deploymentId s.name ++ "-" ++ String.ofList (digest.toList.take digestDigits)

/-- The photon with a given specification. -/
def ofSpec (spec : Spec) (createdAt : UInt64) : Photon :=
  ⟨idOf spec, spec, createdAt⟩

/-- A photon as a document: the members of the specification stand between its own. -/
def toJson (p : Photon) : Json :=
  .object (("id", .string p.id) :: (p.spec.members ++ [("created_at_ms", .int p.createdAt.toNat)]))

/-- A photon from a document, which must be an object.  Unknown members are skipped, but only if
they have a value. -/
def reader : Reader Photon
  | room + 1, .object ms => do
    let others := ms.filter fun m => !(m.1 == "id" || m.1 == "created_at_ms")
    let _ ← Reader.anyMembers room others
    let m ← Reader.members (["id", "created_at_ms"] ++ Spec.memberNames) (room + 1) (.object ms)
    return {
      id := ← m.required "id" Reader.text
      spec := ← Spec.ofMembers m
      createdAt := ← m.withDefault "created_at_ms" 0 Reader.uint64 }
  | _, _ => none

instance : Kind Photon where
  plural := "photons"
  objectName := id
  toJson := toJson
  reader := reader

end Photon

end Workplane
