import Workplane.Proofs.Http.Requests
import Workplane.Proofs.Program.Alone

/-!
# Requests are atomic

A request that is handled alone does all of its work or nothing (`Http.handle_atomic`), on every
store and whatever calls fail or are given up: it changes at most one key and makes no call after
that, a failure leaves the backend as it was, and a success has changed the key of one object.
Which object that is, is told by the answer, except that a patch is about the deployment under the
identifier in the path and names the identifier that this deployment carries; only on a store that
holds an object under another name than its own are the two different.

Secrets are left out: a single request stores any number of them, one after another.
-/

namespace Workplane.Http

open Workspace (Config)
open Service Writer

/-! ### Answers and objects -/

/-- The identifier that a response names. -/
def Response.id? (r : Response) : Option String :=
  match r.body with
  | .json (.object members) =>
    match members.lookup "id" with
    | some (.string text) => some text
    | _ => none
  | _ => none

/-- The key of the object with an identifier, of the kind that a resource is about. -/
def Resource.key? (c : Config) (id : String) : Resource → Option String
  | photons | photon _ => some (c.photons.key id)
  | deployments | deployment _ | readiness _ | termination _ => some (c.deployments.key id)
  | secrets | secret _ => some (c.secrets.key id)
  | health | workspace => none

/-- The parameter of a path, in its written form. -/
def Resource.parameter? : Resource → Option String
  | photon raw | deployment raw | readiness raw | termination raw | secret raw => some raw
  | _ => none

/-- The object that a successful request was about: a path that has a parameter spells its
identifier, and the answer names it.  The answer to a patch names what the patched deployment
carries as its identifier. -/
def Identifies (c : Config) (b : Backend) (method : Method) (resource : Resource)
    (response : Response) (id : String) : Prop :=
  (∀ raw, resource.parameter? = some raw → Parameter.decode? raw = some id) ∧
    if method = .patch then
      ∃ d, c.deployments.Stored b.keys id d ∧ response.id? = some d.id
    else response.id? = some id

/-- A deletion has removed one key, or another method has written one; nothing else changed. -/
def ChangesOnly (method : Method) (b b' : Backend) (key : String) : Prop :=
  if method = .delete then
    (b.keys.get? key).isSome = true ∧ b' = { b with keys := (b.keys.delete key).2 }
  else ∃ value, b' = { b with keys := b.keys.write key value }

theorem ChangesOnly.get?_of_ne {method : Method} {b b' : Backend} {key : String}
    (h : ChangesOnly method b b' key) {key' : String} (hne : key ≠ key') :
    b'.keys.get? key' = b.keys.get? key' := by
  unfold ChangesOnly at h
  split at h
  · rw [h.2, KeyStore.get?_delete_of_ne hne]
  · obtain ⟨value, rfl⟩ := h
    exact KeyStore.get?_write_of_ne hne _ _

/-! ### The change of a request -/

section Changes

variable {c : Config} {body : ByteArray} {past : List Move} {method : Method}
  {resource : Resource} {x : Call} {response : Response} {b : Backend} {m : Move}

theorem Asks.ne_putBlob (h : Asks c body past method resource x response) (key : String)
    (data : ByteArray) : x ≠ .putBlob key data := by
  cases h <;> exact nofun

theorem Request.Permits.ne_putBlob {r : Request} {call : Option Call} (h : r.Permits c past call)
    (key : String) (data : ByteArray) : call ≠ some (.putBlob key data) := by
  intro hcall
  rcases h _ hcall with hread | ⟨-, _, _, -, hasks⟩
  · exact hread
  · exact hasks.ne_putBlob key data rfl

/-- A conditional write that took place has written its key, and nothing else. -/
theorem changesOnly_of_swap (hm : m.IsTrue b) {key : String} {expected : UInt64}
    {value : ByteArray} (hreq : m.request = some (.swap key expected value))
    (hverdict : m.verdict = some true) (hmethod : method ≠ .delete) :
    ChangesOnly method b (m.after b) key := by
  rw [ChangesOnly, if_neg hmethod]
  refine ⟨value, ?_⟩
  calc m.after b = ⟨(m.after b).keys, (m.after b).blobs⟩ := rfl
    _ = _ := by
      rw [(hm.swap_written hreq hverdict).2, Move.blobs_after (by rw [hreq]; exact nofun)]

/-- A deletion that took place has removed its key, and nothing else. -/
theorem changesOnly_of_delete (hm : m.IsTrue b) {key : String}
    (hreq : m.request = some (.delete key)) (hverdict : m.verdict = some true) :
    ChangesOnly .delete b (m.after b) key := by
  obtain ⟨hsome, hkeys⟩ := hm.delete_existed hreq hverdict
  rw [ChangesOnly, if_pos rfl]
  refine ⟨hsome, ?_⟩
  calc m.after b = ⟨(m.after b).keys, (m.after b).blobs⟩ := rfl
    _ = _ := by rw [hkeys, Move.blobs_after (by rw [hreq]; exact nofun)]

/-- The change that a request asked for is a change of the object that it is about. -/
theorem Asks.changes (h : Asks c body past method resource x response)
    (hone : ¬(method = .post ∧ resource = .secrets))
    (saw : ∀ key e, Saw past key e → b.keys.get? key = some e) (hm : m.IsTrue b)
    (hreq : m.request = some x) (hverdict : m.verdict = some true) :
    ∃ id key, resource.key? c id = some key ∧ Identifies c b method resource response id ∧
      ChangesOnly method b (m.after b) key := by
  cases h with
  | createPhoton spec now =>
    exact ⟨_, _, rfl, ⟨nofun, rfl⟩, changesOnly_of_swap hm hreq hverdict nofun⟩
  | deletePhoton raw id spelled =>
    exact ⟨id, _, rfl, ⟨fun _ hraw => Option.some.inj hraw ▸ spelled, rfl⟩,
      changesOnly_of_delete hm hreq hverdict⟩
  | createDeployment spec photon now =>
    exact ⟨_, _, rfl, ⟨nofun, rfl⟩, changesOnly_of_swap hm hreq hverdict nofun⟩
  | patchDeployment raw id p e d photon now spelled read hsaw decoded =>
    exact ⟨id, _, rfl, ⟨fun _ hraw => Option.some.inj hraw ▸ spelled,
      d, ⟨e, saw _ e hsaw, decoded⟩, rfl⟩, changesOnly_of_swap hm hreq hverdict nofun⟩
  | deleteDeployment raw id spelled =>
    exact ⟨id, _, rfl, ⟨fun _ hraw => Option.some.inj hraw ▸ spelled, rfl⟩,
      changesOnly_of_delete hm hreq hverdict⟩
  | putSecret => exact absurd ⟨rfl, rfl⟩ hone
  | deleteSecret raw name spelled =>
    exact ⟨name, _, rfl, ⟨fun _ hraw => Option.some.inj hraw ▸ spelled, rfl⟩,
      changesOnly_of_delete hm hreq hverdict⟩

end Changes

/-! ### Atomicity -/

/-- A request has done all of its work or nothing, on a backend that was `b` before and is `b'`
now. -/
structure Atomic (c : Config) (r : Request) (past : List Move) (response : Response)
    (b b' : Backend) : Prop where
  /-- No call follows one that changed a key. -/
  last : ∀ u m v, past = u ++ m :: v → m.verdict = some true → v = []
  /-- A failure leaves everything as it was. -/
  failed : response.isSuccess = false → b' = b
  /-- A request for information only reads. -/
  reads : r.method = .get ∨ r.method = .head →
    (∀ m ∈ past, ∀ x, m.request = some x → x.IsRead) ∧ b' = b
  /-- A success has changed the key of one object. -/
  changed : response.isSuccess = true → r.method ≠ .get → r.method ≠ .head →
    ∃ resource id key, Resource.ofTarget r.target = some resource ∧
      resource.key? c id = some key ∧ Identifies c b r.method resource response id ∧
      ChangesOnly r.method b b' key

section Atomic

variable {c : Config} {requestId : String} {r : Request} {past : List Move} {b b' : Backend}
  {q : Program Response}

/-- Once a request has changed a key it makes no further call. -/
theorem last_of_alone (hone : ¬r.StoresSecrets)
    (h : (Api.handle c requestId r).Alone b past b' q) {u v : List Move} {m : Move}
    (huv : past = u ++ m :: v) (hverdict : m.verdict = some true) : v = [] := by
  cases v with
  | nil => rfl
  | cons m' v =>
    have hquiet : Quiet (u ++ [m]) := ((h.holds (holds_handle c requestId hone)).2 (u ++ [m]) m' v
      (by rw [huv, List.append_assoc]; rfl)).1
    have hnone := hquiet m (List.mem_append_right _ (.head []))
    rw [hverdict] at hnone
    exact nomatch hnone

theorem reads_of_alone (hone : ¬r.StoresSecrets)
    (h : (Api.handle c requestId r).Alone b past b' q)
    (hmethod : r.method = .get ∨ r.method = .head) :
    ∀ m ∈ past, ∀ x, m.request = some x → x.IsRead := by
  intro m hm x hx
  obtain ⟨u, -, hpermits⟩ := h.permits_of_mem (holds_handle c requestId hone) hm
  rcases hpermits x hx with hread | ⟨-, resource, response, -, hasks⟩
  · exact hread
  · rcases hmethod with hmethod | hmethod <;> rw [hmethod] at hasks <;> exact nomatch hasks

theorem eq_of_alone (hone : ¬r.StoresSecrets)
    (h : (Api.handle c requestId r).Alone b past b' q)
    (hverdict : ∀ m ∈ past, m.verdict ≠ some true) : b' = b := by
  refine h.eq_of_unchanged hverdict fun m hm => ?_
  obtain ⟨u, -, hpermits⟩ := h.permits_of_mem (holds_handle c requestId hone) hm
  exact hpermits.ne_putBlob

theorem Unchanged.verdict_ne (h : Unchanged past) : ∀ m ∈ past, m.verdict ≠ some true := by
  intro m hm
  rcases h with hquiet | ⟨before, m', rfl, hquiet, hverdict⟩
  · rw [hquiet m hm]
    exact nofun
  · rcases List.mem_append.1 hm with hm | hm
    · rw [hquiet m hm]
      exact nofun
    · rw [List.mem_singleton.1 hm, hverdict]
      exact nofun

/-- A request that is handled alone and stores no secrets is atomic. -/
theorem handle_atomic {response : Response} (hone : ¬r.StoresSecrets)
    (h : (Api.handle c requestId r).Alone b past b' (.done response)) :
    Atomic c r past response b b' := by
  have hends : r.Ends c response past := (h.holds (holds_handle c requestId hone)).1
  constructor
  · exact fun u m v => last_of_alone hone h
  · intro hfailure
    rw [Request.Ends, if_neg (Bool.eq_false_iff.1 hfailure)] at hends
    exact eq_of_alone hone h hends.verdict_ne
  · intro hmethod
    have hreads := reads_of_alone hone h hmethod
    refine ⟨hreads, eq_of_alone hone h fun m hm => ?_⟩
    rw [verdict_eq_none_of_isRead (hreads m hm)]
    exact (Option.some_ne_none true).symm
  · intro hsuccess hget hhead
    rw [Request.Ends, if_pos hsuccess] at hends
    obtain hmethod | hmethod | ⟨-, resource, hresource, hmade⟩ := hends
    · exact absurd hmethod hget
    · exact absurd hmethod hhead
    obtain ⟨before, m, x, rfl, hquiet, hreq, hverdict, hasks⟩ := hmade
    -- Before its change the request has only read, so the store is still as it was.
    obtain ⟨b₁, q₁, hbefore, -, hm, rfl⟩ := h.of_concat
    obtain rfl : b₁ = b := eq_of_alone hone hbefore fun m hm => by
      rw [hquiet m hm]
      exact (Option.some_ne_none true).symm
    obtain ⟨id, key, hkey, hidentifies, hchanges⟩ := hasks.changes
      (fun hsecrets => hone ⟨hsecrets.1, hsecrets.2 ▸ hresource⟩)
      (fun key e hsaw => hbefore.get?_of_saw hquiet hsaw) hm hreq hverdict
    exact ⟨resource, id, key, hresource, hkey, hidentifies, hchanges⟩

/-- The deletion of an entry that holds no deployment. -/
theorem handle_atomic_deletion :
    let c : Config := { scope := "ws", name := "w", state := .normal }
    let b : Backend := ⟨KeyStore.empty.write (c.deployments.key "a") "?".toUTF8, .empty⟩
    let r : Request := ⟨.delete, "/api/v1/deployments/a", "".toUTF8⟩
    ∃ past response b', ¬r.StoresSecrets ∧
      (Api.handle c "1" r).Alone b past b' (.done response) ∧ response.isSuccess = true ∧
      Atomic c r past response b b' ∧ b'.keys.get? (c.deployments.key "a") = none := by
  intro c b r
  have hone : ¬r.StoresSecrets := fun h => nomatch h.1
  obtain ⟨past, h⟩ :=
    Program.exists_alone_undisturbed (Api.handle c "1" r) ⟨1970, 1, 1, 0, 0, 0, 0⟩ b
  exact ⟨past, _, _, hone, h, by decide +kernel, handle_atomic hone h, by decide +kernel⟩

/-- A patch of an entry under `a` that holds a deployment with the identifier `b`: the answer names
`b`, but the key that has changed is that of `a`. -/
theorem handle_patch_names_stored_id :
    let c : Config := { scope := "ws", name := "w", state := .normal }
    let text := "\x7b\"id\":\"b\",\"spec\":\x7b\"name\":\"b\",\"photon_id\":\"p-0\"," ++
      "\"resource_requirement\":\x7b\"resource_shape\":\"cpu.small\",\"min_replicas\":1\x7d\x7d\x7d"
    let b : Backend := ⟨KeyStore.empty.write (c.deployments.key "a") text.toUTF8, .empty⟩
    let r : Request := ⟨.patch, "/api/v1/deployments/a", "\x7b\"image\":\"i\"\x7d".toUTF8⟩
    ∃ past response b', (Api.handle c "1" r).Alone b past b' (.done response) ∧
      response.isSuccess = true ∧ response.id? = some "b" ∧
      b'.keys.get? (c.deployments.key "b") = b.keys.get? (c.deployments.key "b") ∧
      b'.keys.get? (c.deployments.key "a") ≠ b.keys.get? (c.deployments.key "a") := by
  intro c text b r
  obtain ⟨past, h⟩ :=
    Program.exists_alone_undisturbed (Api.handle c "1" r) ⟨1970, 1, 1, 0, 0, 0, 0⟩ b
  generalize hafter : (Api.handle c "1" r).undisturbed ⟨1970, 1, 1, 0, 0, 0, 0⟩ b = after at h
  -- The request is evaluated once, for all that is said about what it does.
  have heval : after.1.isSuccess = true ∧ after.1.id? = some "b" ∧
      after.2.keys.get? (c.deployments.key "b") = b.keys.get? (c.deployments.key "b") ∧
      after.2.keys.get? (c.deployments.key "a") ≠ b.keys.get? (c.deployments.key "a") := by
    rw [← hafter]
    decide +kernel
  exact ⟨past, after.1, after.2, h, heval⟩

end Atomic

end Workplane.Http
