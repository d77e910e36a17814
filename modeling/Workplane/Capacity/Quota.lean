import Workplane.Capacity.Resources
import Workplane.Storage.Kind

/-!
# Quotas

The ceiling of a workspace and what it consumes, as the cluster reports them, and the rule by
which a request is admitted.
-/

namespace Workplane

/-- The ceiling and the consumption of a workspace. -/
structure Quota where
  name : String
  hard : Resources
  used : Resources

namespace Quota

/-- What the platform reserves in every workspace for its own agents. -/
def systemOverhead : Resources := ⟨2, 4096, 0⟩

/-- The quota as shown to users: without the system overhead on both sides. -/
def withoutOverhead (q : Quota) : Quota :=
  { q with hard := q.hard.subFloored systemOverhead, used := q.used.subFloored systemOverhead }

/-- What is left for a request; what the request replaces counts as free. -/
def headroom (q : Quota) (replaced : Option Resources) : Resources :=
  match replaced with
  | some r => (q.hard.sub q.used).add r
  | none => q.hard.sub q.used

/-- Whether a request is admitted; everything is where there is no quota. -/
def admits (quota : Option Quota) (requested : Resources) (replaced : Option Resources) : Bool :=
  match quota with
  | some q => requested.fitsWithin (q.headroom replaced)
  | none => true

/-- A quota as a document. -/
def toJson (q : Quota) : Json :=
  .object [("name", .string q.name), ("hard", q.hard.toJson), ("used", q.used.toJson)]

/-- A quota from a document; the consumption may be missing. -/
def reader : Reader Quota := fun room j => do
  let m ← Reader.members ["name", "hard", "used"] room j
  return {
    name := ← m.required "name" Reader.text
    hard := ← m.required "hard" Resources.reader
    used := ← m.withDefault "used" .zero Resources.reader }

instance : Kind Quota where
  plural := "resourcequotas"
  objectName := name
  toJson := toJson
  reader := reader

end Quota

end Workplane
