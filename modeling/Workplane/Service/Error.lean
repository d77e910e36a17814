import Workplane.Capacity.Resources
import Workplane.Decimal.Layout
import Workplane.Invalid
import Workplane.Storage.Error
import Workplane.Workspace.State

/-!
# Refusals

Why a request is refused or fails.  Every cause belongs to a class, which decides the status and
the code of the answer; the wording is in `Refusal.message` alone.
-/

namespace Workplane

/-- Why a request is refused or fails. -/
inductive Refusal where
  /-- The store failed. -/
  | store (error : StoreError)
  /-- The request breaks a rule for user input. -/
  | invalid (broken : Invalid)
  /-- The workspace takes no changes in its state. -/
  | notWritable (state : Workspace.State)
  /-- The body of the request is not what the operation takes. -/
  | malformedBody (detail : String)
  | photonMissing (id : String)
  | secretMissing (name : String)
  | photonInUse (id deployment : String)
  | secretInUse (name deployment : String)
  | noImage
  /-- A deployment can only be changed to a build of the same model. -/
  | otherModel
  | emptyPatch
  | overQuota (requested : Resources)
  | secretName (name : String)

namespace Refusal

/-- The classes of refusals. -/
inductive Class where
  | notFound
  | conflict
  | validation
  | notWritable
  | internal
  deriving DecidableEq, Repr

/-- The status of answers of a class. -/
def Class.status : Class → Nat
  | notFound => 404
  | conflict => 409
  | validation => 400
  | notWritable => 403
  | internal => 500

/-- The code of answers of a class. -/
def Class.code : Class → String
  | notFound => "not_found"
  | conflict => "conflict"
  | validation => "validation_error"
  | notWritable => "workspace_not_writable"
  | internal => "internal_error"

/-- The class of an error of the store. -/
def classOfStore : StoreError → Class
  | .notFound .. => .notFound
  | .alreadyExists .. | .conflict .. => .conflict
  | .serialization .. | .timeout .. | .backend .. => .internal

/-- The class of a refusal. -/
def toClass : Refusal → Class
  | store e => classOfStore e
  | photonMissing _ | secretMissing _ => .notFound
  | photonInUse .. | secretInUse .. => .conflict
  | notWritable _ => .notWritable
  | invalid _ | malformedBody _ | noImage | otherModel | emptyPatch | overQuota _ | secretName _ =>
    .validation

/-- The text shown to the user. -/
def message : Refusal → String
  | store e => e.message
  | invalid i => i.message
  | notWritable state => s!"workspace is {state.name}, changes are not allowed"
  | malformedBody detail => s!"invalid request body: {detail}"
  | photonMissing id => s!"photon {id} does not exist"
  | secretMissing name => s!"secret {name} does not exist"
  | photonInUse id deployment => s!"photon {id} is used by deployment {deployment}"
  | secretInUse name deployment => s!"secret {name} is used by deployment {deployment}"
  | noImage => "photon image must be set"
  | otherModel => "can only update to a photon with the same name"
  | emptyPatch => "no valid field to patch"
  | overQuota requested =>
    let cpu := Decimal.Layout.plain.text requested.cpu
    let memory := requested.memory.toInt
    let accelerators := Decimal.Layout.plain.text requested.accelerators
    "resource requirement exceeds quota: requested " ++
      s!"cpu={cpu} memory={memory}Mi accelerators={accelerators}"
  | secretName name => s!"invalid secret name '{name}'"

end Refusal

end Workplane
