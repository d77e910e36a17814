import Mathlib.Data.List.Chain
import Workplane.Http.Api
import Workplane.Proofs.Program.Undisturbed
import Workplane.Proofs.Workspace.Services

/-!
# Sessions of a workspace

In a session a workspace answers requests and makes scale-down passes, one after another, on a
store that was empty at first (`Workspace.Session`).  Any call may fail or be given up, without an
effect then.  A session visits a state between any two calls; all of them are intact, and no call
makes a stored deployment serve another model (`Workspace.Session.keeps`).
-/

namespace Workplane.Workspace

open Service Http

variable {c : Config} {b : Backend} {α : Type}

/-! ### Requests -/

section Reading

variable (c : Config) (id : String)

theorem readOnly_listPhotons : ReadOnly (Photons.list c) :=
  (readOnly_ofStore c.photons.readOnly_list).bind fun _ => readOnly_pure _

theorem readOnly_listDeployments : ReadOnly (Deployments.list c) :=
  (readOnly_ofStore c.deployments.readOnly_list).bind fun _ => readOnly_pure _

theorem readOnly_secretNames : ReadOnly (Secrets.names c) :=
  (readOnly_ofStore c.secrets.readOnly_list).bind fun _ => readOnly_pure _

theorem readOnly_getPhoton : ReadOnly (Photons.get c id) :=
  readOnly_ofStore (c.photons.readOnly_get id)

theorem readOnly_getDeployment : ReadOnly (Deployments.get c id) :=
  readOnly_ofStore (c.deployments.readOnly_get id)

theorem readOnly_replicas : ReadOnly (Diagnosis.replicas c id) :=
  (readOnly_ofStore (c.deployments.readOnly_get id)).bind fun _ =>
    (readOnly_ofStore c.pods.readOnly_list).bind fun _ => readOnly_pure _

theorem readOnly_readiness : ReadOnly (Diagnosis.readiness c id) := by
  refine (readOnly_replicas c id).bind fun _ => ReadOnly.bind ?_ fun _ => readOnly_pure _
  refine readOnly_iff.2 (ensures_lift.2 (Program.Holds.mono c.events.readOnly_list ?_))
  exact fun _ _ h => h

theorem readOnly_terminations : ReadOnly (Diagnosis.terminations c id) :=
  (readOnly_replicas c id).bind fun _ => readOnly_pure _

theorem readOnly_workspaceInfo : ReadOnly (Api.workspaceInfo c) :=
  (readOnly_quota c).bind fun _ => readOnly_pure _

end Reading

/-- What the body of a request holds is read from a document whose numbers are in range. -/
theorem safe_readBody_bind {β : Type} {r : Reader α} {body : ByteArray} {f : α → Service β}
    (hf : ∀ j a, j.InRange → r.run j = some a → Safe c (f a)) :
    Safe c (Api.readBody r body >>= f) := by
  unfold Api.readBody
  cases h : (Json.ofBytes? body).bind r.run with
  | some a =>
    obtain ⟨j, hj, ha⟩ := Option.bind_eq_some_iff.1 h
    exact hf j a (Json.inRange_of_ofBytes? hj) ha
  | none => exact safe_throw _

/-- A request with a parameter is safe if it is for every text. -/
theorem safe_withParameter {label raw : String} {next : String → Service Response}
    (hnext : ∀ value, Safe c (next value)) : Safe c (Api.withParameter label raw next) := by
  unfold Api.withParameter
  split
  · exact hnext _
  · exact safe_pure _

/-- An operation that ends with a response after something safe. -/
theorem safe_response {p : Service α} (hp : Safe c p) (response : α → Response) :
    Safe c (do return response (← p)) :=
  hp.bind fun _ => safe_pure _

/-- Whatever a method does to a resource is safe. -/
theorem safe_operation {body : ByteArray} {method : Method} {resource : Resource}
    {s : Service Response} (h : Api.operation c body method resource = some s) : Safe c s := by
  have hread {β : Type} {p : Service β} (hp : ReadOnly p) (response : β → Response) :
      Safe c (do return response (← p)) :=
    safe_response (safe_of_readOnly hp) response
  cases method <;> cases resource <;> cases h
  case get.health => exact safe_pure _
  case get.workspace => exact safe_of_readOnly (readOnly_workspaceInfo c)
  case get.photons => exact hread (readOnly_listPhotons c) _
  case get.photon => exact safe_withParameter fun id => hread (readOnly_getPhoton c id) _
  case get.deployments => exact hread (readOnly_listDeployments c) _
  case get.deployment => exact safe_withParameter fun id => hread (readOnly_getDeployment c id) _
  case get.readiness => exact safe_withParameter fun id => hread (readOnly_readiness c id) _
  case get.termination => exact safe_withParameter fun id => hread (readOnly_terminations c id) _
  case get.secrets => exact hread (readOnly_secretNames c) _
  case post.photons =>
    refine safe_readBody_bind fun j spec hj hspec => safe_response ?_ _
    obtain ⟨hread, hrange⟩ := Photon.Spec.isReadAt_of_reader hspec
    exact safe_createPhoton (hrange hj) hread
  case post.deployments =>
    refine safe_readBody_bind fun j spec hj hspec => safe_response ?_ _
    exact safe_createDeployment (Deployment.Spec.inRange_of_reader hj hspec)
  case post.secrets =>
    exact safe_readBody_bind fun _ secrets _ _ => safe_response (safe_putSecrets secrets) _
  case patch.deployment =>
    refine safe_withParameter fun id => ?_
    refine (safe_of_readOnly (readOnly_getDeployment c id)).bind fun _ => ?_
    exact safe_readBody_bind fun _ patch _ _ => safe_response (safe_patchDeployment id patch) _
  case delete.photon =>
    exact safe_withParameter fun id => safe_response (safe_deletePhoton id) _
  case delete.deployment =>
    exact safe_withParameter fun id => safe_response (safe_deleteDeployment id) _
  case delete.secret =>
    exact safe_withParameter fun name => safe_response (safe_deleteSecret name) _

/-- A service that is safe is answered safely. -/
theorem holds_respond {s : Service Response} (hs : Safe c s) (requestId : String)
    (hb : Intact c b.keys) :
    (Api.respond requestId s).Holds (Environment.alone c) (fun _ b' => Intact c b'.keys) b := by
  refine Program.holds_bind.2 ((hs b hb).holds.mono ?_)
  intro result b' hb'
  cases result <;> exact hb'

/-- Every request keeps the store intact. -/
theorem holds_handle (requestId : String) (r : Request) (hb : Intact c b.keys) :
    (Api.handle c requestId r).Holds (Environment.alone c) (fun _ b' => Intact c b'.keys) b := by
  unfold Api.handle
  split
  · unfold Api.perform
    simp only
    split
    · refine Program.holds_map.2 ?_
      split
      · rename_i s hs
        exact holds_respond (safe_operation hs) requestId hb
      · exact hb
    · split
      · rename_i s hs
        exact holds_respond (safe_operation hs) requestId hb
      · exact hb
  · exact hb

/-! ### Sessions -/

/-- What a workspace does. -/
inductive Operation where
  | request (id : String) (r : Request)
  /-- A pass over all deployments, with the limit on each of its calls. -/
  | scaleToZero (limit : Nat)

/-- The program of an operation. -/
def Operation.program (c : Config) : Operation → Program Unit
  | request id r => (fun _ => ()) <$> Api.handle c id r
  | scaleToZero limit => (fun _ => ()) <$> Background.scaleToZero { c.deployments with limit }

/-- Operations one after another, on a store that was empty at first: the states that were visited,
the state now, and what is left of the operation that is being carried out. -/
inductive Session (c : Config) : List Backend → Backend → Program Unit → Prop
  | start : Session c [] .empty (.done ())
  | next {past : List Backend} {b : Backend} (run : Session c past b (.done ())) (op : Operation) :
    Session c past b (op.program c)
  | move {past : List Backend} {b : Backend} {rest : Program Unit} (run : Session c past b rest)
    (m : Move) (q : Program Unit) (step : rest.Step m q) (true_move : m.IsTrue b) :
    Session c (past ++ [b]) (m.after b) q

/-- The backend after operations that nothing disturbs, at a moment. -/
def Operation.afterAll (c : Config) (now : Timestamp) (ops : List Operation) (b : Backend) :
    Backend :=
  ops.foldl (fun b op => ((op.program c).undisturbed now b).2) b

/-- Every operation keeps the store intact. -/
theorem holds_program (op : Operation) (hb : Intact c b.keys) :
    (op.program c).Holds (Environment.alone c) (fun _ b' => Intact c b'.keys) b := by
  cases op with
  | request id r => exact Program.holds_map.2 (holds_handle id r hb)
  | scaleToZero limit => exact Program.holds_map.2 (holds_scaleToZero limit hb)

namespace Session

variable {past : List Backend} {rest : Program Unit}

/-- An operation can always be carried out to its end. -/
theorem undisturbed (h : Session c past b rest) (now : Timestamp) :
    ∃ past', Session c past' (rest.undisturbed now b).2 (.done ()) := by
  induction rest generalizing past b with
  | done a => exact ⟨past, h⟩
  | call call limit next ih =>
    refine ih _ (h.move _ _ (.call call limit next ⟨.answered (call.answer b).1, 0⟩) ?_)
    exact fun _ hanswer => (Outcome.answered.inj hanswer).symm
  | clock next ih => exact ih _ (h.move _ _ (.clock next now) trivial)

/-- Operations one after another, undisturbed, are a session. -/
theorem afterAll (h : Session c past b (.done ())) (now : Timestamp) (ops : List Operation) :
    ∃ past', Session c past' (Operation.afterAll c now ops b) (.done ()) := by
  induction ops generalizing past b with
  | nil => exact ⟨past, h⟩
  | cons op ops ih =>
    obtain ⟨past', h'⟩ := (h.next op).undisturbed now
    exact ih h'

/-- The state of a session is intact, what is left to do keeps it so, and so did each step. -/
theorem keeps (h : Session c past b rest) :
    rest.Holds (Environment.alone c) (fun _ b' => Intact c b'.keys) b ∧
      (∀ b' ∈ past ++ [b], Intact c b'.keys) ∧
      (past ++ [b]).IsChain fun b b' => Keeps c b.keys b'.keys := by
  induction h with
  | start =>
    refine ⟨intact_empty c, fun b' hb' => ?_, .singleton _⟩
    rw [List.mem_singleton.1 hb']
    exact intact_empty c
  | @next past b run op ih =>
    exact ⟨holds_program op (ih.2.1 b (List.mem_append_right _ (.head []))), ih.2⟩
  | @move past b rest run m q step true_move ih =>
    have hkeeps : Keeps c b.keys (m.after b).keys := ih.1.permits step m rfl true_move
    refine ⟨ih.1.step step ⟨true_move, rfl⟩, fun b' hb' => ?_, ?_⟩
    · rcases List.mem_append.1 hb' with hb' | hb'
      · exact ih.2.1 b' hb'
      · rw [List.mem_singleton.1 hb']
        exact hkeeps.intact
    · rw [List.append_assoc]
      exact List.isChain_split.2 ⟨ih.2.2, List.isChain_pair.2 hkeeps⟩

end Session

/-! ### Deployments and their models -/

/-- While a deployment is there, it serves the same model. -/
theorem photonName_eq_of_isChain {id : String} {bs : List Backend}
    (hkeeps : (b :: bs).IsChain fun b b' => Keeps c b.keys b'.keys)
    (hstored : ∀ b' ∈ bs, ∃ d, c.deployments.Stored b'.keys id d) {d : Deployment}
    (hd : c.deployments.Stored b.keys id d) :
    ∀ b' ∈ bs, ∀ d', c.deployments.Stored b'.keys id d' →
      d'.system.photonName = d.system.photonName := by
  induction bs generalizing b d with
  | nil => exact fun b' hb' => absurd hb' List.not_mem_nil
  | cons b₁ bs ih =>
    obtain ⟨hfirst, hrest⟩ := List.isChain_cons_cons.1 hkeeps
    obtain ⟨d₁, hd₁⟩ := hstored b₁ (.head bs)
    have hname := hfirst.photonName id d d₁ hd hd₁
    intro b' hb' d' hd'
    rcases List.mem_cons.1 hb' with rfl | hb'
    · rw [hd'.eq hd₁, hname]
    · rw [ih hrest (fun b' hb' => hstored b' (.tail _ hb')) hd₁ b' hb' d' hd', hname]

/-- In every state of a session, each entry of a deployment holds a deployment under its own
identifier, its photon is stored and is a build of the model that it serves, and the secrets that
its environment refers to are stored.  From the creation of a deployment to its deletion it serves
the same model. -/
theorem Session.referentialIntegrity {past : List Backend} {rest : Program Unit}
    (h : Session c past b rest) :
    (∀ b' ∈ past ++ [b], ∀ id e, b'.keys.get? (c.deployments.key id) = some e →
      ∃ d : Deployment, Kind.decode? e.value = some d ∧ d.id = id ∧
        (∃ p, c.photons.Stored b'.keys d.spec.photonId p ∧ p.spec.name = d.system.photonName) ∧
        ∀ name ∈ d.spec.secretRefs, ∃ v, c.secrets.Stored b'.keys name v ∧ v.name = name) ∧
    ∀ u during v id, past ++ [b] = u ++ during ++ v →
      (∀ b' ∈ during, (b'.keys.get? (c.deployments.key id)).isSome = true) →
      ∀ b₁ ∈ during, ∀ b₂ ∈ during, ∀ d₁ d₂, c.deployments.Stored b₁.keys id d₁ →
        c.deployments.Stored b₂.keys id d₂ → d₁.system.photonName = d₂.system.photonName := by
  obtain ⟨-, hintact, hchain⟩ := h.keeps
  constructor
  · intro b' hb' id e he
    have hb' := hintact b' hb'
    obtain ⟨d, hd, hid⟩ := hb'.deployments id e he
    obtain ⟨hphoton, hsecrets⟩ := hb'.referenced id d ⟨e, he, hd⟩
    refine ⟨d, hd, hid, hphoton, fun name href => ?_⟩
    obtain ⟨v, hv⟩ := hsecrets name href
    exact ⟨v, hv, hb'.secrets.objectName_eq hv⟩
  · intro u during v id hsplit hsome b₁ hb₁ b₂ hb₂ d₁ d₂ hd₁ hd₂
    rw [hsplit] at hchain hintact
    have hduring := hchain.left_of_append.right_of_append
    have hstored : ∀ b' ∈ during, ∃ d, c.deployments.Stored b'.keys id d := fun b' hb' =>
      (hintact b' (List.mem_append_left _ (List.mem_append_right _ hb'))).deployments.exists_stored
        (hsome b' hb')
    cases during with
    | nil => exact absurd hb₁ List.not_mem_nil
    | cons b₀ bs =>
      obtain ⟨d₀, hd₀⟩ := hstored b₀ (.head bs)
      have hsame (b' : Backend) (hb' : b' ∈ b₀ :: bs) (d' : Deployment)
          (hd' : c.deployments.Stored b'.keys id d') :
          d'.system.photonName = d₀.system.photonName := by
        rcases List.mem_cons.1 hb' with rfl | hb'
        · rw [hd'.eq hd₀]
        · exact photonName_eq_of_isChain hduring (fun b' hb' => hstored b' (.tail _ hb')) hd₀ b' hb'
            d' hd'
      rw [hsame b₁ hb₁ d₁ hd₁, hsame b₂ hb₂ d₂ hd₂]

/-- A photon and a secret are registered, and a deployment that refers to both. -/
def Operation.firstDeployment : List Operation :=
  [.request "1" ⟨.post, "/api/v1/photons", "\x7b\"name\":\"m\",\"image\":\"i\"\x7d".toUTF8⟩,
    .request "2" ⟨.post, "/api/v1/secrets", "[\x7b\"name\":\"s\",\"value\":\"v\"\x7d]".toUTF8⟩,
    .request "3" ⟨.post, "/api/v1/deployments",
      ("\x7b\"name\":\"D\",\"photon_id\":\"m-9d3d52e5\"," ++
        "\"resource_requirement\":\x7b\"cpu\":1,\"memory\":1,\"min_replicas\":1\x7d," ++
        "\"envs\":[\x7b\"name\":\"E\",\"value_from\":" ++
        "\x7b\"secret_name_ref\":\"s\"\x7d\x7d]\x7d").toUTF8⟩]

/-- A session that ends with a deployment, its photon and its secret. -/
theorem Session.referentialIntegrity_firstDeployment :
    let c : Config := { scope := "ns", name := "w", state := .normal }
    let b := Operation.afterAll c ⟨1970, 1, 1, 0, 0, 0, 0⟩ Operation.firstDeployment .empty
    ∃ past e, ∃ d : Deployment, Session c past b (.done ()) ∧
      b.keys.get? (c.deployments.key "d") = some e ∧ Kind.decode? e.value = some d ∧ d.id = "d" ∧
      (∃ p, c.photons.Stored b.keys d.spec.photonId p ∧ p.spec.name = d.system.photonName) ∧
      ∀ name ∈ d.spec.secretRefs, ∃ v, c.secrets.Stored b.keys name v ∧ v.name = name := by
  intro c b
  obtain ⟨past, h⟩ : ∃ past, Session c past b (.done ()) :=
    Session.start.afterAll ⟨1970, 1, 1, 0, 0, 0, 0⟩ Operation.firstDeployment
  have hb : b = Operation.afterAll c ⟨1970, 1, 1, 0, 0, 0, 0⟩ Operation.firstDeployment .empty :=
    rfl
  -- The backend is evaluated in one place only.
  clear_value b
  have hsome : (b.keys.get? (c.deployments.key "d")).isSome = true := by
    rw [hb]
    decide +kernel
  obtain ⟨e, he⟩ := Option.isSome_iff_exists.1 hsome
  obtain ⟨d, hd⟩ := h.referentialIntegrity.1 b (List.mem_append_right _ (.head [])) "d" e he
  exact ⟨past, e, d, h, he, hd⟩

end Workplane.Workspace
