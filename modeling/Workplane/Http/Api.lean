import Workplane.Http.Message
import Workplane.Http.Resource
import Workplane.Service.Deployments
import Workplane.Service.Diagnosis
import Workplane.Service.Photons
import Workplane.Service.Secrets

/-!
# The API

`Api.handle` answers a request.  A path that denotes nothing and a method that a resource does not
have are answered without a document; so is a parameter that is no text.  A refusal becomes a
document with the code of its class, its message and the identifier of the request.
-/

namespace Workplane.Http.Api

open Workspace (Config)

/-! ### Parts of a request -/

/-- The value that a body holds. -/
def readBody (r : Reader α) (body : ByteArray) : Service α :=
  match (Json.ofBytes? body).bind r.run with
  | some a => return a
  | none => throw (.malformedBody "not what the operation takes")

/-- Goes on with a parameter if it is a text. -/
def withParameter (label raw : String) (next : String → Service Response) : Service Response :=
  match Parameter.decode? raw with
  | some value => next value
  | none =>
    return .text 400 (String.ofList ("Invalid URL: Invalid UTF-8 in ".toList ++
      '\x60' :: (label.toList ++ ['\x60'])))

/-! ### Documents -/

/-- A list as a response. -/
def listed (encode : α → Json) (as : List α) : Response :=
  .json 200 (.array (as.map encode))

/-- The response to a deletion. -/
def deleted (id : String) : Response :=
  .json 200 (.object [("id", .string id), ("status", .string "deleted")])

/-- The state of the workspace, with its quota as users see it. -/
def workspaceInfo (c : Config) : Service Response := do
  let quota ← Service.quota c
  return .json 200 (.object [("name", .string c.name), ("state", c.state.toJson),
    ("quota", .nullable (fun q => q.withoutOverhead.toJson) quota)])

/-- A refusal as a response. -/
def refused (requestId : String) (r : Refusal) : Response :=
  .json r.toClass.status (.object [("error", .object [("code", .string r.toClass.code),
    ("message", .string r.message), ("request_id", .string requestId)])])

/-! ### Operations -/

/-- What a method does to a resource; `none` if the resource does not have the method. -/
def operation (c : Config) (body : ByteArray) : Method → Resource → Option (Service Response)
  | .get, .health => some do return .json 200 (.object [("status", .string "ok")])
  | .get, .workspace => some (workspaceInfo c)
  | .get, .photons => some do return listed Photon.toJson (← Service.Photons.list c)
  | .post, .photons => some do
    let spec ← readBody Photon.Spec.reader body
    return .json 201 (← Service.Photons.create c spec).toJson
  | .get, .photon id => some <| withParameter "id" id fun id => do
    return .json 200 (← Service.Photons.get c id).toJson
  | .delete, .photon id => some <| withParameter "id" id fun id => do
    Service.Photons.delete c id
    return deleted id
  | .get, .deployments => some do return listed Deployment.toJson (← Service.Deployments.list c)
  | .post, .deployments => some do
    let spec ← readBody Deployment.Spec.reader body
    return .json 201 (← Service.Deployments.create c spec).toJson
  | .get, .deployment id => some <| withParameter "id" id fun id => do
    return .json 200 (← Service.Deployments.get c id).toJson
  | .patch, .deployment id => some <| withParameter "id" id fun id => do
    -- A bad patch of a deployment that does not exist is still answered as not found.
    let _ ← Service.Deployments.get c id
    let patch ← readBody Patch.reader body
    return .json 200 (← Service.Deployments.patch c id patch).toJson
  | .delete, .deployment id => some <| withParameter "id" id fun id => do
    Service.Deployments.delete c id
    return deleted id
  | .get, .readiness id => some <| withParameter "id" id fun id => do
    let report ← Service.Diagnosis.readiness c id
    return .json 200 (Service.Diagnosis.reportJson Readiness.toJson report)
  | .get, .termination id => some <| withParameter "id" id fun id => do
    let report ← Service.Diagnosis.terminations c id
    return .json 200 (Service.Diagnosis.reportJson Termination.toJson report)
  | .get, .secrets => some do return .json 200 (.strings (← Service.Secrets.names c))
  | .post, .secrets => some do
    let secrets ← readBody (Reader.list Secret.reader) body
    Service.Secrets.putAll c secrets
    return .text 200 ""
  | .delete, .secret name => some <| withParameter "name" name fun name => do
    Service.Secrets.delete c name
    return deleted name
  | _, _ => none

/-- The response of a service, whether it ends with a result or a refusal. -/
def respond (requestId : String) (s : Service Response) : Program Response := do
  match ← s.run with
  | .ok response => return response
  | .error refusal => return refused requestId refusal

/-- What a method does to a resource; `head` does what `get` does, but answers without a body. -/
def perform (c : Config) (requestId : String) (body : ByteArray) (method : Method)
    (resource : Resource) : Program Response :=
  let answer (method : Method) : Program Response :=
    match operation c body method resource with
    | some s => respond requestId s
    | none => return .text 405 ""
  match method with
  | .head => Response.withoutBody <$> answer .get
  | method => answer method

/-- Answers a request, which `requestId` identifies. -/
def handle (c : Config) (requestId : String) (r : Request) : Program Response :=
  match Resource.ofTarget r.target with
  | some resource => perform c requestId r.body r.method resource
  | none => return .text 404 ""

end Workplane.Http.Api
