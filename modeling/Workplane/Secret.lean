import Workplane.Storage.Kind

/-!
# Secrets

A named value that environment variables of deployments refer to.
-/

namespace Workplane

/-- A named secret value. -/
structure Secret where
  name : String
  value : String
  deriving DecidableEq

namespace Secret

/-- A secret as a document. -/
def toJson (s : Secret) : Json :=
  .object [("name", .string s.name), ("value", .string s.value)]

/-- A secret from a document. -/
def reader : Reader Secret := fun room j => do
  let m ← Reader.members ["name", "value"] room j
  return {
    name := ← m.required "name" Reader.text
    value := ← m.required "value" Reader.text }

instance : Kind Secret where
  plural := "secrets"
  objectName := name
  toJson := toJson
  reader := reader

/-- A name under which a secret can be stored. -/
def isValidName (name : String) : Bool :=
  !name.isEmpty && !name.toList.contains '/'

end Secret

end Workplane
