import Workplane.Proofs.Http.Requests
import Workplane.Proofs.Http.Undisturbed
import Workplane.Proofs.Secrecy.Services

/-!
# Answers without secret values

A response is masked (`Http.Response.masked`) if the readings of the clock and the identifier of the
request are taken out of it.  What handles a request is the twin of what handles one that stores
other values under the same names (`Http.Api.twins_handle`).  So two conversations from one store,
in which the same calls fail and the requests differ at most in the values of secrets, have the same
masked responses (`Http.Conversation.secret_values_unseen`).
-/

namespace Workplane

open Workspace (Config)

variable {α : Type}

/-! ### Masked responses -/

namespace Json

/-- An object with changed members. -/
def mapMembers (f : String × Json → String × Json) : Json → Json
  | .object ms => .object (ms.map f)
  | j => j

/-- A member of a document without a reading of the clock or, in a refusal, the identifier of the
request. -/
def hideMember (m : String × Json) : String × Json :=
  if m.1 = "created_at_ms" ∨ m.1 = "updated_at_ms" then (m.1, .null)
  else if m.1 = "error" then
    (m.1, m.2.mapMembers fun d => if d.1 = "request_id" then (d.1, .null) else d)
  else m

/-- A document without the readings of the clock in it or in its items, and without the identifier
of the request. -/
def masked : Json → Json
  | .array items => .array (items.map (mapMembers hideMember))
  | j => j.mapMembers hideMember

end Json

namespace Http

/-- A response without the readings of the clock and the identifier of the request. -/
def Response.masked (r : Response) : Response :=
  match r.body with
  | .json document => .json r.status document.masked
  | .text content => .text r.status content

/-- Responses that are the same behind the mask. -/
def Response.Alike (r r' : Response) : Prop :=
  r.masked = r'.masked

section Masked

open Kind.Masked (mask)

/-- Photons that are alike have the same document once what is hidden is left out. -/
theorem mapMembers_toJson_photon {p p' : Photon} (h : mask p = mask p') :
    p.toJson.mapMembers Json.hideMember = p'.toJson.mapMembers Json.hideMember := by
  obtain ⟨created, rfl⟩ := Photon.exists_of_mask_eq h
  simp [Photon.toJson, Json.mapMembers, Json.hideMember]

theorem mapMembers_toJson_deployment {d d' : Deployment} (h : mask d = mask d') :
    d.toJson.mapMembers Json.hideMember = d'.toJson.mapMembers Json.hideMember := by
  obtain ⟨created, updated, rfl⟩ := Deployment.exists_of_mask_eq h
  simp [Deployment.toJson, Json.mapMembers, Json.hideMember]

variable [Kind α] [Kind.Lawful α] [Kind.Masked α] {encode : α → Json}

/-- The responses to lists of objects that are the same behind the mask. -/
theorem alike_listed (hencode : ∀ a a', mask a = mask a' →
      (encode a).mapMembers Json.hideMember = (encode a').mapMembers Json.hideMember)
    {as as' : List α} (h : as.map mask = as'.map mask) :
    (Api.listed encode as).Alike (Api.listed encode as') := by
  rw [← List.forall₂_eq_eq_eq, List.forall₂_map_left_iff, List.forall₂_map_right_iff] at h
  have hitems : (as.map encode).map (Json.mapMembers Json.hideMember) =
      (as'.map encode).map (Json.mapMembers Json.hideMember) := by
    rw [List.map_map, List.map_map, ← List.forall₂_eq_eq_eq, List.forall₂_map_left_iff,
      List.forall₂_map_right_iff]
    exact h.imp hencode
  exact congrArg (fun items => Response.json 200 (.array items)) hitems

end Masked

/-- Responses are alike if their documents are. -/
theorem alike_json {status : Nat} {ms ms' : List (String × Json)}
    (h : (Json.object ms).mapMembers Json.hideMember = (Json.object ms').mapMembers Json.hideMember) :
    (Response.json status (.object ms)).Alike (.json status (.object ms')) :=
  congrArg (Response.json status) h

theorem Response.status_masked (r : Response) : r.masked.status = r.status := by
  unfold Response.masked
  cases r.body with
  | json document => rfl
  | text content => rfl

theorem Response.Alike.withoutBody {r r' : Response} (h : r.Alike r') :
    r.withoutBody.Alike r'.withoutBody := by
  have hstatus := congrArg Response.status h
  rw [Response.status_masked, Response.status_masked] at hstatus
  exact congrArg (Response.text · "") hstatus

/-- The responses to one refusal of two requests. -/
theorem alike_refused (requestId requestId' : String) (e : Refusal) :
    (Api.refused requestId e).Alike (Api.refused requestId' e) := rfl

/-! ### Parts of requests -/

variable {c : Config} {body : ByteArray}

theorem HasBody.readBody_eq_pure {r : Reader α} {a : α} (h : HasBody body r a) :
    Api.readBody r body = pure a := by
  unfold Api.readBody
  rw [h]

namespace Api

/-- What answers with the result of a service. -/
theorem twins_answer {R : α → α → Prop} {p p' : Service α} {answer : α → Response}
    (h : Twins c R p p') (hanswer : ∀ a a', R a a' → (answer a).Alike (answer a')) :
    Twins c Response.Alike (do return answer (← p)) (do return answer (← p')) :=
  h.bind fun a a' related => twins_pure (hanswer a a' related)

/-- A body is read alike in both runs. -/
theorem twins_readBody_bind {r : Reader α} {f : α → Service Response}
    (h : ∀ a, HasBody body r a → Twins c Response.Alike (f a) (f a)) :
    Twins c Response.Alike (readBody r body >>= f) (readBody r body >>= f) := by
  unfold readBody
  cases ha : (Json.ofBytes? body).bind r.run with
  | some a => exact h a ha
  | none => exact twins_throw _

theorem twins_withParameter (label raw : String) {next : String → Service Response}
    (h : ∀ value, Twins c Response.Alike (next value) (next value)) :
    Twins c Response.Alike (withParameter label raw next) (withParameter label raw next) := by
  unfold withParameter
  split
  · exact h _
  · exact twins_pure rfl

theorem twins_workspaceInfo (c : Config) :
    Twins c Response.Alike (workspaceInfo c) (workspaceInfo c) :=
  (Service.twins_quota c).bind fun _ _ h => twins_pure (h ▸ rfl)

/-! ### Operations -/

open Service in
/-- Every operation is the twin of itself. -/
theorem twins_of_operation {method : Method} {resource : Resource} {s : Service Response}
    (h : operation c body method resource = some s) : Twins c Response.Alike s s := by
  cases method <;> cases resource <;> cases h
  case get.health => exact twins_pure rfl
  case get.workspace => exact twins_workspaceInfo c
  case get.photons =>
    exact twins_answer (twins_listPhotons c) fun _ _ =>
      alike_listed fun _ _ => mapMembers_toJson_photon
  case get.photon =>
    exact twins_withParameter _ _ fun id => twins_answer (twins_getPhoton c id) fun _ _ h =>
      alike_json (mapMembers_toJson_photon h.mask_eq)
  case get.deployments =>
    exact twins_answer (twins_listDeployments c) fun _ _ =>
      alike_listed fun _ _ => mapMembers_toJson_deployment
  case get.deployment =>
    exact twins_withParameter _ _ fun id => twins_answer (twins_getDeployment c id) fun _ _ h =>
      alike_json (mapMembers_toJson_deployment h.mask_eq)
  case get.readiness =>
    exact twins_withParameter _ _ fun id => twins_answer (twins_readiness c id) fun _ _ h => h ▸ rfl
  case get.termination =>
    exact twins_withParameter _ _ fun id => twins_answer (twins_terminations c id) fun _ _ h =>
      h ▸ rfl
  case get.secrets => exact twins_answer (twins_secretNames c) fun _ _ h => h ▸ rfl
  case post.photons =>
    exact twins_readBody_bind fun _ read =>
      twins_answer (twins_createPhoton read.storable_ofSpec) fun _ _ h =>
        alike_json (mapMembers_toJson_photon h)
  case post.deployments =>
    exact twins_readBody_bind fun _ read =>
      twins_answer (twins_createDeployment read.inRange_requirement) fun _ _ h =>
        alike_json (mapMembers_toJson_deployment h)
  case post.secrets =>
    exact twins_readBody_bind fun vs _ => twins_answer (twins_putSecrets c rfl) fun _ _ _ => rfl
  case patch.deployment =>
    refine twins_withParameter _ _ fun id => (twins_getDeployment c id).bind fun _ _ _ => ?_
    exact twins_readBody_bind fun p _ => twins_answer (twins_patchDeployment c id p) fun _ _ h =>
      alike_json (mapMembers_toJson_deployment h)
  case delete.photon =>
    exact twins_withParameter _ _ fun id => twins_answer (twins_deletePhoton c id) fun _ _ _ => rfl
  case delete.deployment =>
    exact twins_withParameter _ _ fun id =>
      twins_answer (twins_deleteDeployment c id) fun _ _ _ => rfl
  case delete.secret =>
    exact twins_withParameter _ _ fun name =>
      twins_answer (twins_deleteSecret c name) fun _ _ _ => rfl

/-! ### Requests -/

/-- Services that are twins give responses that are alike. -/
theorem twins_respond {s s' : Service Response} (h : Twins c Response.Alike s s')
    (requestId requestId' : String) :
    (respond requestId s).Twins c Response.Alike (respond requestId' s') := by
  refine Program.Twins.bind h fun r r' hr => ?_
  cases hr with
  | ok related => exact .done related
  | error e => exact .done (alike_refused requestId requestId' e)

/-- A method that a resource does not have is answered as such. -/
theorem perform_of_none {method : Method} {resource : Resource} (hhead : method ≠ .head)
    (h : operation c body method resource = none) (requestId : String) :
    perform c requestId body method resource = return .text 405 "" := by
  cases method with
  | head => exact absurd rfl hhead
  | _ => simp only [perform, h]

theorem perform_of_some {method : Method} {resource : Resource} {s : Service Response}
    (hhead : method ≠ .head) (h : operation c body method resource = some s)
    (requestId : String) :
    perform c requestId body method resource = respond requestId s := by
  cases method with
  | head => exact absurd rfl hhead
  | _ => simp only [perform, h]

/-- Every operation responds alike, whatever the values of secrets are. -/
theorem twins_perform (requestId requestId' : String) (body : ByteArray) (method : Method)
    (resource : Resource) :
    (perform c requestId body method resource).Twins c Response.Alike
      (perform c requestId' body method resource) := by
  have hmethod {method : Method} (hhead : method ≠ .head) :
      (perform c requestId body method resource).Twins c Response.Alike
        (perform c requestId' body method resource) := by
    cases h : operation c body method resource with
    | none =>
      rw [perform_of_none hhead h, perform_of_none hhead h]
      exact .done rfl
    | some s =>
      rw [perform_of_some hhead h, perform_of_some hhead h]
      exact twins_respond (twins_of_operation h) requestId requestId'
  rcases eq_or_ne method .head with rfl | hhead
  · have hget : (perform c requestId body .get resource).Twins c Response.Alike
        (perform c requestId' body .get resource) := hmethod nofun
    exact hget.map fun _ _ h => h.withoutBody
  · exact hmethod hhead

/-- Storing secrets is the twin of storing other values under the same names. -/
theorem twins_perform_secrets (requestId requestId' : String) {body' : ByteArray}
    {vs vs' : List Secret} (read : HasBody body (Reader.list Secret.reader) vs)
    (read' : HasBody body' (Reader.list Secret.reader) vs')
    (h : vs.map Secret.name = vs'.map Secret.name) :
    (perform c requestId body .post .secrets).Twins c Response.Alike
      (perform c requestId' body' .post .secrets) := by
  refine twins_respond ?_ requestId requestId'
  rw [read.readBody_eq_pure, read'.readBody_eq_pure, pure_bind, pure_bind]
  exact twins_answer (Service.twins_putSecrets c h) fun _ _ _ => rfl

end Api

/-- Requests that are the same, except for the values of secrets that both store. -/
inductive Request.SameButValues : Request → Request → Prop
  | same (r : Request) : SameButValues r r
  | values (method : Method) (target : String) (body body' : ByteArray) (vs vs' : List Secret)
    (stores : Request.StoresSecrets ⟨method, target, body⟩)
    (read : HasBody body (Reader.list Secret.reader) vs)
    (read' : HasBody body' (Reader.list Secret.reader) vs')
    (names : vs.map Secret.name = vs'.map Secret.name) :
    SameButValues ⟨method, target, body⟩ ⟨method, target, body'⟩

/-- What handles a request is the twin of what handles one that stores other values. -/
theorem Api.twins_handle {r r' : Request} (h : r.SameButValues r') (requestId requestId' : String) :
    (Api.handle c requestId r).Twins c Response.Alike (Api.handle c requestId' r') := by
  cases h with
  | same r =>
    unfold Api.handle
    split
    · exact twins_perform requestId requestId' _ _ _
    · exact .done rfl
  | values method target body body' vs vs' stores read read' names =>
    obtain ⟨rfl, htarget⟩ := stores
    unfold Api.handle
    simp only [show Resource.ofTarget target = some .secrets from htarget]
    exact twins_perform_secrets requestId requestId' read read' names

/-! ### Conversations -/

/-- A request, the moves of the program that handled it, and the response. -/
structure Exchange where
  requestId : String
  request : Request
  moves : List Move
  response : Response

/-- Requests that are handled one after another lead from a backend to another one. -/
inductive Conversation (c : Config) : Backend → List Exchange → Backend → Prop
  | nil (b : Backend) : Conversation c b [] b
  | cons {b b₁ b₂ : Backend} (x : Exchange) {xs : List Exchange}
    (first : (Api.handle c x.requestId x.request).Alone b x.moves b₁ (.done x.response))
    (rest : Conversation c b₁ xs b₂) : Conversation c b (x :: xs) b₂

/-- Any requests can be handled so that no call fails. -/
theorem exists_conversation (c : Config) (requests : List Request) (b : Backend)
    (past : List Call) : ∃ xs b₁, Conversation c b xs b₁ ∧ xs.map Exchange.request = requests ∧
      Failures.none.Allow past (xs.flatMap Exchange.moves) := by
  induction requests generalizing b past with
  | nil => exact ⟨[], b, .nil b, rfl, trivial⟩
  | cons r requests ih =>
    have hstart := Program.Alone.start (p := Api.handle c "" r) (b := b)
    have hnothing : Failures.none.Allow past [] := trivial
    obtain ⟨moves, hfirst, hmoves⟩ := hstart.answered hnothing ⟨1970, 1, 1, 0, 0, 0, 0⟩
    obtain ⟨xs, b₁, hrest, hrequests, hfailures⟩ := ih _ (past ++ bareCalls moves)
    exact ⟨⟨"", r, moves, _⟩ :: xs, b₁, .cons _ hfirst hrest, congrArg (r :: ·) hrequests,
      Failures.allow_append.2 ⟨hmoves, hfailures⟩⟩

/-- On stores that are alike, requests that differ at most in the values of secrets are answered
alike if the same calls fail. -/
theorem Conversation.alike {xs xs' : List Exchange} {b b' b₁ b₁' : Backend}
    (h : Conversation c b xs b₁) (h' : Conversation c b' xs' b₁')
    (hrequests : List.Forall₂ (fun x x' => x.request.SameButValues x'.request) xs xs')
    (hb : b.keys.Alike c b'.keys) {failures : Failures} {past : List Call}
    (hfailures : failures.Allow past (xs.flatMap Exchange.moves))
    (hfailures' : failures.Allow past (xs'.flatMap Exchange.moves)) :
    List.Forall₂ (fun x x' => x.response.Alike x'.response) xs xs' := by
  induction hrequests generalizing b b' past with
  | nil => exact .nil
  | @cons x x' xs xs' hrequest _ ih =>
    cases h with | cons _ hfirst hrest =>
    cases h' with | cons _ hfirst' hrest' =>
    rw [List.flatMap_cons, Failures.allow_append] at hfailures hfailures'
    obtain ⟨hresponse, hkeys, hcalls⟩ :=
      (Api.twins_handle hrequest x.requestId x'.requestId).ends hb hfirst.ends hfirst'.ends
        hfirst.follows hfirst'.follows hfailures.1 hfailures'.1
    exact .cons hresponse (ih hrest hrest' hkeys hfailures.2 (hcalls ▸ hfailures'.2))

/-- The values of secrets are not seen in a response: in two conversations from one store, in which
the same calls fail and the requests differ at most in the values of the secrets that they store,
the responses are the same up to the identifiers of the requests and the readings of the clock. -/
theorem Conversation.secret_values_unseen {xs xs' : List Exchange} {b b₁ b₁' : Backend}
    (h : Conversation c b xs b₁) (h' : Conversation c b xs' b₁')
    (hrequests : List.Forall₂ (fun x x' => x.request.SameButValues x'.request) xs xs')
    {failures : Failures} (hfailures : failures.Allow [] (xs.flatMap Exchange.moves))
    (hfailures' : failures.Allow [] (xs'.flatMap Exchange.moves)) :
    xs.map (fun x => x.response.masked) = xs'.map fun x => x.response.masked := by
  have halike := h.alike h' hrequests (.refl c b.keys) hfailures hfailures'
  rw [← List.forall₂_eq_eq_eq, List.forall₂_map_left_iff, List.forall₂_map_right_iff]
  exact halike

/-- One token or another is stored under a name, and the names are listed. -/
theorem Conversation.secret_values_unseen_tokens :
    let c : Config := { scope := "ws", name := "w", state := .normal }
    let store (body : String) : Request := ⟨.post, "/api/v1/secrets", body.toUTF8⟩
    let names : Request := ⟨.get, "/api/v1/secrets", "".toUTF8⟩
    let requests := [store "[\x7b\"name\":\"t\",\"value\":\"1\"\x7d]", names]
    let requests' := [store "[\x7b\"name\":\"t\",\"value\":\"2\"\x7d]", names]
    ∃ xs xs' b₁ b₁', Conversation c .empty xs b₁ ∧ Conversation c .empty xs' b₁' ∧
      xs.map Exchange.request = requests ∧ xs'.map Exchange.request = requests' ∧
      xs.map (fun x => x.response.masked) = xs'.map fun x => x.response.masked := by
  intro c store names requests requests'
  obtain ⟨xs, b₁, h, hrequests, hfailures⟩ := exists_conversation c requests .empty []
  obtain ⟨xs', b₁', h', hrequests', hfailures'⟩ := exists_conversation c requests' .empty []
  have hsame : List.Forall₂ Request.SameButValues requests requests' :=
    .cons (.values .post "/api/v1/secrets" _ _ [⟨"t", "1"⟩] [⟨"t", "2"⟩] ⟨rfl, by decide⟩
      (by unfold HasBody; decide +kernel) (by unfold HasBody; decide +kernel) rfl)
      (.cons (.same names) .nil)
  rw [← hrequests, ← hrequests', List.forall₂_map_left_iff, List.forall₂_map_right_iff] at hsame
  exact ⟨xs, xs', b₁, b₁', h, h', hrequests, hrequests',
    h.secret_values_unseen h' hsame hfailures hfailures'⟩

end Http

end Workplane
