import Workplane.Proofs.Http.Requests
import Workplane.Proofs.Service.Undisturbed

/-!
# Requests that nothing disturbs

A request whose service comes to its end is answered with the response of the service, and leaves
the backend as the service has left it (`Http.undisturbed_handle`).
-/

namespace Workplane.Http

open Workspace (Config)
open Service

variable {c : Config} {now : Timestamp} {b b' : Backend} {r : Request} {requestId : String}

theorem undisturbed_readBody {α : Type} {reader : Reader α} {body : ByteArray} {a : α}
    (h : HasBody body reader a) (now : Timestamp) (b : Backend) :
    (Api.readBody reader body).run.undisturbed now b = (.ok a, b) := by
  have hbody : (Json.ofBytes? body).bind reader.run = some a := h
  unfold Api.readBody
  rw [hbody]
  rfl

/-- A service that ends with a response is answered with it. -/
theorem undisturbed_handle {resource : Resource} {s : Service Response} {response : Response}
    (target : Resource.ofTarget r.target = some resource) (method : r.method ≠ .head)
    (operation : Api.operation c r.body r.method resource = some s)
    (h : s.run.undisturbed now b = (.ok response, b')) (requestId : String) :
    (Api.handle c requestId r).undisturbed now b = (response, b') := by
  have hperform : Api.perform c requestId r.body r.method resource = Api.respond requestId s := by
    unfold Api.perform
    dsimp only
    split
    · contradiction
    · rw [operation]
  have hhandle : Api.handle c requestId r = Api.respond requestId s := by
    unfold Api.handle
    rw [target]
    exact hperform
  rw [hhandle, Api.respond, Program.undisturbed_bind, h]
  rfl

/-- What a body describes can be stored as a photon. -/
theorem HasBody.storable_ofSpec {body : ByteArray} {spec : Photon.Spec}
    (h : HasBody body Photon.Spec.reader spec) (createdAt : UInt64) :
    Kind.Storable (Photon.ofSpec spec createdAt) := by
  obtain ⟨j, hj, hspec⟩ := Option.bind_eq_some_iff.1 h
  obtain ⟨hread, hrange⟩ := Photon.Spec.isReadAt_of_reader hspec
  exact ⟨hrange (Json.inRange_of_ofBytes? hj), Photon.reader_toJson hread⟩

/-- The resources that a body asks for are in range. -/
theorem HasBody.inRange_requirement {body : ByteArray} {spec : Deployment.Spec}
    (h : HasBody body Deployment.Spec.reader spec) : spec.requirement.InRange := by
  obtain ⟨j, hj, hspec⟩ := Option.bind_eq_some_iff.1 h
  exact Deployment.Spec.inRange_of_reader (Json.inRange_of_ofBytes? hj) hspec

/-- A photon is registered. -/
theorem undisturbed_createPhoton {spec : Photon.Spec}
    (target : Resource.ofTarget r.target = some .photons) (method : r.method = .post)
    (read : HasBody r.body Photon.Spec.reader spec)
    (h : (Photons.create c spec).run.undisturbed now b =
      (.ok (Photon.ofSpec spec now.millis), b')) :
    (Api.handle c requestId r).undisturbed now b =
      (.json 201 (Photon.ofSpec spec now.millis).toJson, b') := by
  refine undisturbed_handle target (by rw [method]; exact nofun) (by rw [method]; rfl) ?_ requestId
  rw [undisturbed_run_bind (undisturbed_readBody read now b), undisturbed_run_bind h]
  rfl

/-- A deployment is created. -/
theorem undisturbed_createDeployment {spec : Deployment.Spec} {d : Deployment}
    (target : Resource.ofTarget r.target = some .deployments) (method : r.method = .post)
    (read : HasBody r.body Deployment.Spec.reader spec)
    (h : (Deployments.create c spec).run.undisturbed now b = (.ok d, b')) :
    (Api.handle c requestId r).undisturbed now b = (.json 201 d.toJson, b') := by
  refine undisturbed_handle target (by rw [method]; exact nofun) (by rw [method]; rfl) ?_ requestId
  rw [undisturbed_run_bind (undisturbed_readBody read now b), undisturbed_run_bind h]
  rfl

/-- A stored deployment is patched. -/
theorem undisturbed_patchDeployment {raw id : String} {p : Patch} {d d' : Deployment}
    (target : Resource.ofTarget r.target = some (.deployment raw)) (method : r.method = .patch)
    (spelled : Parameter.decode? raw = some id) (stored : c.deployments.Stored b.keys id d)
    (read : HasBody r.body Patch.reader p)
    (h : (Deployments.patch c id p).run.undisturbed now b = (.ok d', b')) :
    (Api.handle c requestId r).undisturbed now b = (.json 200 d'.toJson, b') := by
  refine undisturbed_handle target (by rw [method]; exact nofun) (by rw [method]; rfl) ?_ requestId
  have hget : (Deployments.get c id).run.undisturbed now b = (.ok d, b) :=
    undisturbed_ofStore (stored.undisturbed_get now)
  unfold Api.withParameter
  simp only [spelled]
  rw [undisturbed_run_bind hget,
    undisturbed_run_bind (undisturbed_readBody read now b), undisturbed_run_bind h]
  rfl

end Workplane.Http
