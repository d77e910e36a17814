import Workplane.Http.Api
import Workplane.Proofs.Deployments.Writer
import Workplane.Proofs.Workspace.Session

/-!
# What requests ask the store for

`Http.Asks` lists the calls by which a request may change a key: for each kind of change what the
request holds, what has been checked and what has been read before, and how the request is answered
if the store makes the change.  A request that stores no secrets reads until it asks for its only
change, and ends with the call for it (`Http.holds_handle`).  The law of all requests
(`Http.holds_handle_asks`) is that whatever is not a read is one of these calls, and that a
workspace that takes no changes sees none of them.
-/

namespace Workplane.Http

open Workspace (Config)
open Service Writer

/-! ### Calls for changes -/

/-- The value that the body of a request holds. -/
def HasBody (body : ByteArray) (r : Reader α) (a : α) : Prop :=
  (Json.ofBytes? body).bind r.run = some a

/-- A request that has learned `past` asks for a change by a call, and is answered with a response
if the change is made. -/
inductive Asks (c : Config) (body : ByteArray) (past : List Move) :
    Method → Resource → Call → Response → Prop
  | createPhoton (spec : Photon.Spec) (now : Timestamp)
      (read : HasBody body Photon.Spec.reader spec) (named : Name.validate spec.name = .ok ())
      (image : spec.image.isEmpty = false) (looked : .clock now ∈ past) :
      Asks c body past .post .photons
        (.swap (c.photons.key (Photon.ofSpec spec now.millis).id) 0
          (Kind.encode (Photon.ofSpec spec now.millis)))
        (.json 201 (Photon.ofSpec spec now.millis).toJson)
  | deletePhoton (raw id : String) (spelled : Parameter.decode? raw = some id) :
      Asks c body past .delete (.photon raw) (.delete (c.photons.key id)) (Api.deleted id)
  | createDeployment (spec : Deployment.Spec) (photon : Photon) (now : Timestamp)
      (read : HasBody body Deployment.Spec.reader spec)
      (named : Name.validate spec.name = .ok ()) (checked : spec.validate = .ok ())
      (looked : .clock now ∈ past) :
      Asks c body past .post .deployments
        (.swap (c.deployments.key (Name.deploymentId spec.name)) 0
          (Kind.encode (Deployments.start c spec photon now.millis)))
        (.json 201 (Deployments.start c spec photon now.millis).toJson)
  | patchDeployment (raw id : String) (p : Patch) (e : Entry) (d : Deployment)
      (photon : Option Photon) (now : Timestamp) (spelled : Parameter.decode? raw = some id)
      (read : HasBody body Patch.reader p) (saw : Saw past (c.deployments.key id) e)
      (decoded : Kind.decode? e.value = some d) (checked : (p.apply d.spec).validate = .ok ())
      (looked : .clock now ∈ past) :
      Asks c body past .patch (.deployment raw)
        (.swap (c.deployments.key id) e.revision
          (Kind.encode (Deployments.patched c p photon d now.millis)))
        (.json 200 (Deployments.patched c p photon d now.millis).toJson)
  | deleteDeployment (raw id : String) (spelled : Parameter.decode? raw = some id) :
      Asks c body past .delete (.deployment raw) (.delete (c.deployments.key id)) (Api.deleted id)
  | putSecret (secrets : List Secret) (v : Secret) (expected : UInt64)
      (read : HasBody body (Reader.list Secret.reader) secrets) (listed : v ∈ secrets) :
      Asks c body past .post .secrets (.swap (c.secrets.key v.name) expected (Kind.encode v))
        (.text 200 "")
  | deleteSecret (raw name : String) (spelled : Parameter.decode? raw = some name) :
      Asks c body past .delete (.secret raw) (.delete (c.secrets.key name)) (Api.deleted name)

/-- A request reads, or asks for a change in a workspace that takes changes. -/
def Permits (c : Config) (body : ByteArray) (method : Method) (resource : Resource)
    (past : List Move) (call : Option Call) : Prop :=
  ∀ x, call = some x → x.IsRead ∨
    c.state.isWritable = true ∧ ∃ response, Asks c body past method resource x response

/-- A request reads and asks for one change with its last call. -/
def PermitsOnce (c : Config) (body : ByteArray) (method : Method) (resource : Resource)
    (past : List Move) (call : Option Call) : Prop :=
  Quiet past ∧ Permits c body method resource past call

/-- No call has changed a key. -/
def Unchanged (past : List Move) : Prop :=
  Quiet past ∨ Concluded past false

/-- The last move has made the change that a request is answered for, and it is the only one that
was told of a change. -/
def Made (c : Config) (body : ByteArray) (method : Method) (resource : Resource)
    (response : Response) (past : List Move) : Prop :=
  ∃ before m x, past = before ++ [m] ∧ Quiet before ∧ m.request = some x ∧
    m.verdict = some true ∧ Asks c body before method resource x response

/-- What a request that asks for at most one change ends with. -/
def Ends (c : Config) (body : ByteArray) (method : Method) (resource : Resource)
    (response : Response) (past : List Move) : Prop :=
  if response.isSuccess then method = .get ∨
    c.state.isWritable = true ∧ Made c body method resource response past
  else Unchanged past

/-! ### Parts of a service -/

section Parts

variable {c : Config} {body : ByteArray} {method : Method} {resource : Resource}
  {past : List Move} {α β : Type} {ok : β → List Move → Prop}

/-- Before a request has changed anything it may read whatever it needs. -/
theorem permitsOnce_read (h : Quiet past) {call : Option Call}
    (hread : ∀ x, call = some x → x.IsRead) : PermitsOnce c body method resource past call :=
  ⟨h, fun x hx => Or.inl (hread x hx)⟩

/-- Reading changes nothing, however it ends. -/
theorem ensures_reads {p : Service α} (hp : ReadOnly p) (h : Quiet past) :
    Ensures (.history (PermitsOnce c body method resource))
      (fun _ now => Quiet now ∧ past ⊆ now) (fun _ => Unchanged) p past := by
  refine (hp.ensures (fun now => Quiet now ∧ past ⊆ now)
    (fun now _ hnow => permitsOnce_read hnow.1) ?_ ⟨h, fun _ hm => hm⟩).mono (fun _ _ h => h)
    fun _ _ h => Or.inl h.1
  rintro now m _ ⟨hquiet, hsub⟩ hread rfl
  exact ⟨hquiet.concat (verdict_eq_none_of_isRead hread),
    fun _ hm => List.mem_append_left _ (hsub hm)⟩

/-- A request goes on after its reads as quiet as before, and if they fail it has changed nothing.
-/
theorem ensures_reads_bind {p : Service α} {f : α → Service β} (hp : ReadOnly p) (h : Quiet past)
    (next : ∀ a now, Quiet now → past ⊆ now →
      Ensures (.history (PermitsOnce c body method resource)) ok (fun _ => Unchanged) (f a) now) :
    Ensures (.history (PermitsOnce c body method resource)) ok (fun _ => Unchanged) (p >>= f)
      past :=
  ensures_bind.2 ((ensures_reads hp h).mono (fun a now hnow => next a now hnow.1 hnow.2)
    fun _ _ h => h)

/-- What follows a guard may rely on a workspace that takes changes. -/
theorem ensures_ensureWritable_bind {permits : List Move → Option Call → Prop}
    {err : Refusal → List Move → Prop} {f : Unit → Service β}
    (next : c.state.isWritable = true → Ensures (.history permits) ok err (f ()) past)
    (refused : err (.notWritable c.state) past) :
    Ensures (.history permits) ok err (ensureWritable c >>= f) past := by
  unfold ensureWritable
  split
  · exact ensures_bind.2 (ensures_pure.2 (next ‹_›))
  · exact ensures_bind.2 (ensures_throw.2 refused)

theorem ensures_ofCheck_bind {permits : List Move → Option Call → Prop} {check : Except Invalid α}
    {f : α → Service β} (h : Quiet past)
    (next : ∀ a, check = .ok a → Ensures (.history permits) ok (fun _ => Unchanged) (f a) past) :
    Ensures (.history permits) ok (fun _ => Unchanged) (ofCheck check >>= f) past :=
  ensures_bind.2 (ensures_ofCheck next fun _ _ => Or.inl h)

theorem ensures_checkSpec_bind {spec : Deployment.Spec} {f : Unit → Service β} (h : Quiet past)
    (next : ∀ now, Quiet now → past ⊆ now → spec.validate = .ok () →
      Ensures (.history (PermitsOnce c body method resource)) ok (fun _ => Unchanged) (f ()) now) :
    Ensures (.history (PermitsOnce c body method resource)) ok (fun _ => Unchanged)
      (Deployments.checkSpec c spec >>= f) past := by
  unfold Deployments.checkSpec
  rw [bind_assoc]
  refine ensures_ofCheck_bind h fun _ hchecked => ?_
  exact ensures_reads_bind (ReadOnly.forM (readOnly_checkSecret c) _) h
    fun _ now hnow hsub => next now hnow hsub hchecked

theorem ensures_now_bind {f : Timestamp → Service β} (h : Quiet past)
    (next : ∀ t now, Quiet now → past ⊆ now → .clock t ∈ now →
      Ensures (.history (PermitsOnce c body method resource)) ok (fun _ => Unchanged) (f t) now) :
    Ensures (.history (PermitsOnce c body method resource)) ok (fun _ => Unchanged)
      ((monadLift Program.now : Service Timestamp) >>= f) past := by
  refine ensures_bind.2 (ensures_lift.2 (Program.holds_now.2 ⟨permitsOnce_read h nofun, ?_⟩))
  rintro t _ rfl
  exact next t _ (h.concat rfl) (List.subset_append_left _ _)
    (List.mem_append_right _ (.head []))

/-- A request goes on with what it has read, and knows the entry. -/
theorem ensures_getVersioned_bind [Kind α] {r : Repository α} {name : String}
    {f : Versioned α → Service β} (h : Quiet past)
    (next : ∀ e a now, Quiet now → Saw now (r.key name) e → Kind.decode? e.value = some a →
      Ensures (.history (PermitsOnce c body method resource)) ok (fun _ => Unchanged)
        (f ⟨a, e.revision⟩) now) :
    Ensures (.history (PermitsOnce c body method resource)) ok (fun _ => Unchanged)
      (ofStore (r.getVersioned name) >>= f) past := by
  refine ensures_bind.2 (ensures_ofStore.2 (Repository.ensures_getVersioned
    (permitsOnce_read h fun x hx => by rw [← Option.some.inj hx]; trivial) ?_ ?_ ?_ ?_))
  · rintro e a took _ rfl ha
    exact next e a _ (h.concat rfl) ⟨took, List.mem_append_right _ (.head [])⟩ ha
  · rintro took _ rfl
    exact Or.inl (h.concat rfl)
  · rintro e detail took _ rfl -
    exact Or.inl (h.concat rfl)
  · rintro e reply _ - - rfl
    exact Or.inl (h.concat rfl)

/-! ### Calls for changes -/

variable [Kind α] {r : Repository α} {name : String} {a : α} {response : Response}

/-- The one change that a request asks for is permitted while it has made none. -/
theorem permitsOnce_change {x : Call} (h : Quiet past) (hwritable : c.state.isWritable = true)
    (hasks : Asks c body past method resource x response) :
    PermitsOnce c body method resource past (some x) := by
  refine ⟨h, fun y hy => Or.inr ⟨hwritable, response, ?_⟩⟩
  obtain rfl := Option.some.inj hy
  exact hasks

/-- A request that ends with a creation has made the change that it asks for, or nothing has
changed. -/
theorem ensures_create (h : Quiet past) (hwritable : c.state.isWritable = true)
    (hasks : Asks c body past method resource (.swap (r.key name) 0 (Kind.encode a)) response) :
    Ensures (.history (PermitsOnce c body method resource))
      (fun _ => Made c body method resource response) (fun _ => Unchanged)
      (ofStore (r.create name a)) past := by
  refine ensures_ofStore.2 (Repository.ensures_create (permitsOnce_change h hwritable hasks)
    ?_ ?_ ?_)
  · rintro swap took _ rfl hw
    exact ⟨past, _, _, rfl, h, rfl, congrArg some hw, hasks⟩
  · rintro swap took _ rfl hw
    exact Or.inr (concluded_concat h (congrArg some hw))
  · rintro e reply _ - hlost rfl
    exact Or.inl (h.concat (verdict_eq_none_of_isLost hlost))

theorem ensures_updateAt {revision : UInt64} (h : Quiet past)
    (hwritable : c.state.isWritable = true)
    (hasks : Asks c body past method resource (.swap (r.key name) revision (Kind.encode a))
      response) :
    Ensures (.history (PermitsOnce c body method resource))
      (fun _ => Made c body method resource response) (fun _ => Unchanged)
      (ofStore (r.updateAt name a revision)) past := by
  refine ensures_ofStore.2 (Repository.ensures_updateAt (permitsOnce_change h hwritable hasks)
    ?_ ?_ ?_)
  · rintro swap took _ rfl hw
    exact ⟨past, _, _, rfl, h, rfl, congrArg some hw, hasks⟩
  · rintro swap took _ rfl hw
    have hrefused : Unchanged (past ++ [.call (.swap (r.key name) revision (Kind.encode a))
        ⟨.answered swap, took⟩]) := Or.inr (concluded_concat h (congrArg some hw))
    exact ⟨fun _ => hrefused, fun _ => hrefused⟩
  · rintro e reply _ - hlost rfl
    exact Or.inl (h.concat (verdict_eq_none_of_isLost hlost))

theorem ensures_delete (h : Quiet past) (hwritable : c.state.isWritable = true)
    (hasks : Asks c body past method resource (.delete (r.key name)) response) :
    Ensures (.history (PermitsOnce c body method resource))
      (fun _ => Made c body method resource response) (fun _ => Unchanged)
      (ofStore (r.delete name)) past := by
  refine ensures_ofStore.2 (Repository.ensures_delete (permitsOnce_change h hwritable hasks)
    ?_ ?_ ?_)
  · rintro took _ rfl
    exact ⟨past, _, _, rfl, h, rfl, rfl, hasks⟩
  · rintro took _ rfl
    exact Or.inr (concluded_concat h rfl)
  · rintro e reply _ - hlost rfl
    exact Or.inl (h.concat (verdict_eq_none_of_isLost hlost))

end Parts

/-! ### Services that make one change -/

section Services

variable {c : Config} {body : ByteArray} {past : List Move}

/-- A service that has made a change ends with the response to it. -/
def Concludes (c : Config) (body : ByteArray) (method : Method) (resource : Resource)
    (response : Response) (past : List Move) : Prop :=
  c.state.isWritable = true ∧ Made c body method resource response past

/-- Creating a photon makes at most the change that the body asks for. -/
theorem ensures_createPhoton {spec : Photon.Spec} (read : HasBody body Photon.Spec.reader spec)
    (h : Quiet past) :
    Ensures (.history (PermitsOnce c body .post .photons))
      (fun p => Concludes c body .post .photons (.json 201 p.toJson)) (fun _ => Unchanged)
      (Photons.create c spec) past := by
  refine ensures_ensureWritable_bind (fun hwritable => ?_) (Or.inl h)
  refine ensures_ofCheck_bind h fun _ named => ?_
  split
  · exact ensures_throw.2 (Or.inl h)
  · rename_i himage
    refine ensures_now_bind h fun now past h _ looked => ?_
    have hasks := Asks.createPhoton (c := c) spec now read named (Bool.eq_false_iff.2 himage) looked
    refine ensures_bind.2 ((ensures_create h hwritable hasks).mono ?_ fun _ _ h => h)
    exact fun _ _ hmade => ensures_pure.2 ⟨hwritable, hmade⟩

theorem ensures_deletePhoton {raw id : String} (spelled : Parameter.decode? raw = some id)
    (h : Quiet past) :
    Ensures (.history (PermitsOnce c body .delete (.photon raw)))
      (fun _ => Concludes c body .delete (.photon raw) (Api.deleted id)) (fun _ => Unchanged)
      (Photons.delete c id) past := by
  refine ensures_ensureWritable_bind (fun hwritable => ?_) (Or.inl h)
  refine ensures_reads_bind (readOnly_ofStore c.deployments.readOnly_list) h fun ds past h _ => ?_
  split
  · exact ensures_throw.2 (Or.inl h)
  · exact (ensures_delete h hwritable (.deletePhoton raw id spelled)).mono
      (fun _ _ hmade => ⟨hwritable, hmade⟩) fun _ _ h => h

theorem ensures_createDeployment {spec : Deployment.Spec}
    (read : HasBody body Deployment.Spec.reader spec) (h : Quiet past) :
    Ensures (.history (PermitsOnce c body .post .deployments))
      (fun d => Concludes c body .post .deployments (.json 201 d.toJson)) (fun _ => Unchanged)
      (Deployments.create c spec) past := by
  refine ensures_ensureWritable_bind (fun hwritable => ?_) (Or.inl h)
  refine ensures_ofCheck_bind h fun _ named => ?_
  refine ensures_checkSpec_bind h fun past h _ checked => ?_
  refine ensures_reads_bind (readOnly_ofCheck _) h fun total past h _ => ?_
  refine ensures_reads_bind (readOnly_checkQuota c total none) h fun _ past h _ => ?_
  refine ensures_reads_bind (readOnly_resolvePhoton c _) h fun photon past h _ => ?_
  refine ensures_now_bind h fun now past h _ looked => ?_
  have hasks := Asks.createDeployment (c := c) spec photon now read named checked looked
  refine ensures_bind.2 ((ensures_create h hwritable hasks).mono ?_ fun _ _ h => h)
  exact fun _ _ hmade => ensures_pure.2 ⟨hwritable, hmade⟩

theorem readOnly_newPhoton (c : Config) (p : Patch) (d : Deployment) :
    ReadOnly (Deployments.newPhoton c p d) := by
  unfold Deployments.newPhoton
  split
  · exact readOnly_pure _
  · refine (readOnly_resolvePhoton c _).bind fun photon => ?_
    split
    · exact readOnly_pure _
    · exact readOnly_throw _

/-- Patching makes at most one change, of the object that was read. -/
theorem ensures_patchDeployment {raw id : String} {p : Patch}
    (spelled : Parameter.decode? raw = some id) (read : HasBody body Patch.reader p)
    (h : Quiet past) :
    Ensures (.history (PermitsOnce c body .patch (.deployment raw)))
      (fun d => Concludes c body .patch (.deployment raw) (.json 200 d.toJson)) (fun _ => Unchanged)
      (Deployments.patch c id p) past := by
  refine ensures_ensureWritable_bind (fun hwritable => ?_) (Or.inl h)
  refine ensures_getVersioned_bind h fun e d past₁ h saw decoded => ?_
  refine ensures_reads_bind (readOnly_newPhoton c p d) h fun photon past₂ h hsub₂ => ?_
  split
  · exact ensures_throw.2 (Or.inl h)
  · refine ensures_checkSpec_bind h fun past₃ h hsub₃ checked => ?_
    refine ensures_reads_bind (readOnly_ofCheck _) h fun replaced past₄ h hsub₄ => ?_
    refine ensures_reads_bind (readOnly_ofCheck _) h fun requested past₅ h hsub₅ => ?_
    refine ensures_reads_bind (readOnly_checkQuota c _ _) h fun _ past₆ h hsub₆ => ?_
    refine ensures_now_bind h fun now past₇ h hsub₇ looked => ?_
    have hsub : past₁ ⊆ past₇ := List.Subset.trans (List.Subset.trans hsub₂ hsub₃)
      (List.Subset.trans (List.Subset.trans hsub₄ hsub₅) (List.Subset.trans hsub₆ hsub₇))
    have hasks := Asks.patchDeployment (c := c) raw id p e d photon now spelled read
      (saw.mono hsub) decoded checked looked
    refine ensures_bind.2 ((ensures_updateAt h hwritable hasks).mono ?_ fun _ _ h => h)
    exact fun _ _ hmade => ensures_pure.2 ⟨hwritable, hmade⟩

theorem ensures_deleteDeployment {raw id : String} (spelled : Parameter.decode? raw = some id)
    (h : Quiet past) :
    Ensures (.history (PermitsOnce c body .delete (.deployment raw)))
      (fun _ => Concludes c body .delete (.deployment raw) (Api.deleted id)) (fun _ => Unchanged)
      (Deployments.delete c id) past := by
  refine ensures_ensureWritable_bind (fun hwritable => ?_) (Or.inl h)
  exact (ensures_delete h hwritable (.deleteDeployment raw id spelled)).mono
    (fun _ _ hmade => ⟨hwritable, hmade⟩) fun _ _ h => h

theorem ensures_deleteSecret {raw name : String} (spelled : Parameter.decode? raw = some name)
    (h : Quiet past) :
    Ensures (.history (PermitsOnce c body .delete (.secret raw)))
      (fun _ => Concludes c body .delete (.secret raw) (Api.deleted name)) (fun _ => Unchanged)
      (Secrets.delete c name) past := by
  refine ensures_ensureWritable_bind (fun hwritable => ?_) (Or.inl h)
  refine ensures_reads_bind (readOnly_ofStore c.deployments.readOnly_list) h fun ds past h _ => ?_
  split
  · exact ensures_throw.2 (Or.inl h)
  · exact (ensures_delete h hwritable (.deleteSecret raw name spelled)).mono
      (fun _ _ hmade => ⟨hwritable, hmade⟩) fun _ _ h => h

end Services

/-! ### Secrets -/

section Secrets

variable {c : Config} {body : ByteArray} {past : List Move}

theorem ensures_of_readOnly {p : Service α} (hp : ReadOnly p) :
    Ensures (.history (Permits c body .post .secrets)) (fun _ _ => True) (fun _ _ => True) p past :=
  hp.ensures (fun _ => True) (fun _ _ _ h x hx => Or.inl (h x hx)) (fun _ _ _ _ _ _ => trivial)
    trivial

/-- Each secret of a list is put on its own. -/
theorem ensures_putSecret {secrets : List Secret} {v : Secret}
    (read : HasBody body (Reader.list Secret.reader) secrets) (listed : v ∈ secrets)
    (hwritable : c.state.isWritable = true) :
    Ensures (.history (Permits c body .post .secrets)) (fun _ _ => True) (fun _ _ => True)
      (Secrets.put c v) past := by
  have hpermits (expected : UInt64) (now : List Move) : Permits c body .post .secrets now
      (some (.swap (c.secrets.key v.name) expected (Kind.encode v))) := by
    rintro x hx
    obtain rfl := Option.some.inj hx
    exact Or.inr ⟨hwritable, _, .putSecret secrets v expected read listed⟩
  refine ensures_bind.2 ((ensures_of_readOnly
    (readOnly_ifFound (c.secrets.readOnly_getVersioned v.name))).mono (fun found now _ => ?_)
    fun _ _ h => h)
  cases found with
  | some current =>
    refine ensures_bind.2 (ensures_ofStore.2 (Repository.ensures_updateAt (hpermits _ now) ?_ ?_ ?_))
    · exact fun _ _ _ _ _ => ensures_pure.2 trivial
    · exact fun _ _ _ _ _ => ⟨fun _ => trivial, fun _ => trivial⟩
    · exact fun _ _ _ _ _ _ => trivial
  | none =>
    refine ensures_bind.2 (ensures_ofStore.2 (Repository.ensures_create (hpermits _ now) ?_ ?_ ?_))
    · exact fun _ _ _ _ _ => ensures_pure.2 trivial
    · exact fun _ _ _ _ _ => trivial
    · exact fun _ _ _ _ _ _ => trivial

theorem readOnly_checkName (v : Secret) : ReadOnly (Secrets.checkName v) := by
  unfold Secrets.checkName
  split
  · exact readOnly_pure _
  · exact readOnly_throw _

/-- Putting secrets changes only what the body lists, and only in a writable workspace. -/
theorem ensures_putSecrets {secrets : List Secret}
    (read : HasBody body (Reader.list Secret.reader) secrets) :
    Ensures (.history (Permits c body .post .secrets)) (fun _ _ => c.state.isWritable = true)
      (fun _ _ => True) (Secrets.putAll c secrets) past := by
  refine ensures_ensureWritable_bind (fun hwritable => ?_) trivial
  refine ensures_bind.2 ((ensures_of_readOnly (ReadOnly.forM readOnly_checkName secrets)).mono
    (fun _ now _ => ?_) fun _ _ h => h)
  have hall : Ensures (.history (Permits c body .post .secrets))
      (fun _ _ => True ∧ ∀ v ∈ secrets, True) (fun _ _ => True) (secrets.forM (Secrets.put c)) now :=
    ensures_forM (fun v listed _ _ => (ensures_putSecret read listed hwritable).mono
      (fun _ _ _ => ⟨trivial, trivial⟩) fun _ _ h => h) trivial
  exact hall.mono (fun _ _ _ => hwritable) fun _ _ h => h

end Secrets

/-! ### Operations -/

section Operations

variable {c : Config} {body : ByteArray} {method : Method} {resource : Resource}
  {response : Response} {past : List Move}

theorem Concludes.ends (h : Concludes c body method resource response past)
    (hsuccess : response.isSuccess = true) : Ends c body method resource response past := by
  rw [Ends, if_pos hsuccess]
  exact Or.inr h

/-- A request that fails before its change has made none. -/
theorem ends_of_quiet (h : Quiet past) (hfailure : response.isSuccess = false) :
    Ends c body method resource response past := by
  rw [Ends, if_neg (Bool.eq_false_iff.1 hfailure)]
  exact Or.inl h

/-- Requests that only ask never change anything. -/
theorem ends_get (h : Quiet past) : Ends c body .get resource response past := by
  rw [Ends]
  split
  · exact Or.inl rfl
  · exact Or.inl h

/-- An operation of a resource: what it may do, and what it ends with. -/
abbrev Obeys (c : Config) (body : ByteArray) (method : Method) (resource : Resource)
    (s : Service Response) (past : List Move) : Prop :=
  Ensures (.history (PermitsOnce c body method resource)) (Ends c body method resource)
    (fun _ => Unchanged) s past

theorem obeys_get {α : Type} {p : Service α} (hp : ReadOnly p) (response : α → Response)
    (h : Quiet past) : Obeys c body .get resource (do return response (← p)) past :=
  ensures_reads_bind hp h fun _ _ h _ => ensures_pure.2 (ends_get h)

/-- A request whose body is not read ends before it has done anything. -/
theorem obeys_readBody_bind {α : Type} {r : Reader α} {f : α → Service Response} (h : Quiet past)
    (next : ∀ a, HasBody body r a → Obeys c body method resource (f a) past) :
    Obeys c body method resource (Api.readBody r body >>= f) past := by
  unfold Api.readBody
  cases ha : (Json.ofBytes? body).bind r.run with
  | some a => exact next a ha
  | none => exact Or.inl h

theorem obeys_withParameter {label raw : String} {next : String → Service Response}
    (h : Quiet past)
    (hnext : ∀ value, Parameter.decode? raw = some value →
      Obeys c body method resource (next value) past) :
    Obeys c body method resource (Api.withParameter label raw next) past := by
  unfold Api.withParameter
  split
  · exact hnext _ ‹_›
  · exact ensures_pure.2 (ends_of_quiet h rfl)

/-- A service that makes one change, with the response to it. -/
theorem obeys_change {α : Type} {p : Service α} {answer : α → Response}
    (hp : Ensures (.history (PermitsOnce c body method resource))
      (fun a => Concludes c body method resource (answer a)) (fun _ => Unchanged) p past)
    (hsuccess : ∀ a, (answer a).isSuccess = true) :
    Obeys c body method resource (do return answer (← p)) past :=
  ensures_bind.2 (hp.mono (fun a _ h => ensures_pure.2 (h.ends (hsuccess a))) fun _ _ h => h)

/-- Whatever a method does to a resource, it asks for one change at most, except that it may store
several secrets. -/
theorem obeys_operation {s : Service Response}
    (h : Api.operation c body method resource = some s)
    (hone : ¬(method = .post ∧ resource = .secrets)) : Obeys c body method resource s [] := by
  cases method <;> cases resource <;> cases h
  case get.health => exact ensures_pure.2 (ends_get quiet_nil)
  case get.workspace => exact obeys_get (readOnly_quota c) _ quiet_nil
  case get.photons => exact obeys_get (Workspace.readOnly_listPhotons c) _ quiet_nil
  case get.photon =>
    exact obeys_withParameter quiet_nil fun id _ =>
      obeys_get (Workspace.readOnly_getPhoton c id) _ quiet_nil
  case get.deployments => exact obeys_get (Workspace.readOnly_listDeployments c) _ quiet_nil
  case get.deployment =>
    exact obeys_withParameter quiet_nil fun id _ =>
      obeys_get (Workspace.readOnly_getDeployment c id) _ quiet_nil
  case get.readiness =>
    exact obeys_withParameter quiet_nil fun id _ =>
      obeys_get (Workspace.readOnly_readiness c id) _ quiet_nil
  case get.termination =>
    exact obeys_withParameter quiet_nil fun id _ =>
      obeys_get (Workspace.readOnly_terminations c id) _ quiet_nil
  case get.secrets => exact obeys_get (Workspace.readOnly_secretNames c) _ quiet_nil
  case post.photons =>
    exact obeys_readBody_bind quiet_nil fun _ read =>
      obeys_change (ensures_createPhoton read quiet_nil) fun _ => rfl
  case post.deployments =>
    exact obeys_readBody_bind quiet_nil fun _ read =>
      obeys_change (ensures_createDeployment read quiet_nil) fun _ => rfl
  case post.secrets => exact absurd ⟨rfl, rfl⟩ hone
  case patch.deployment =>
    refine obeys_withParameter quiet_nil fun id spelled => ?_
    refine ensures_reads_bind (Workspace.readOnly_getDeployment c id) quiet_nil fun _ _ h _ => ?_
    exact obeys_readBody_bind h fun _ read =>
      obeys_change (ensures_patchDeployment spelled read h) fun _ => rfl
  case delete.photon =>
    exact obeys_withParameter quiet_nil fun id spelled =>
      obeys_change (ensures_deletePhoton spelled quiet_nil) fun _ => rfl
  case delete.deployment =>
    exact obeys_withParameter quiet_nil fun id spelled =>
      obeys_change (ensures_deleteDeployment spelled quiet_nil) fun _ => rfl
  case delete.secret =>
    exact obeys_withParameter quiet_nil fun id spelled =>
      obeys_change (ensures_deleteSecret spelled quiet_nil) fun _ => rfl

end Operations

/-! ### Requests -/

/-- The request stores secrets, of which there can be any number. -/
def Request.StoresSecrets (r : Request) : Prop :=
  r.method = .post ∧ Resource.ofTarget r.target = some .secrets

/-- The calls of a request: reads, and changes that it asks for in a workspace that takes them. -/
def Request.Permits (c : Config) (r : Request) (past : List Move) (call : Option Call) : Prop :=
  ∀ x, call = some x → x.IsRead ∨ c.state.isWritable = true ∧ ∃ resource response,
    Resource.ofTarget r.target = some resource ∧ Asks c r.body past r.method resource x response

/-- The calls of a request that asks for its change with the last of them. -/
def Request.PermitsOnce (c : Config) (r : Request) (past : List Move) (call : Option Call) : Prop :=
  Quiet past ∧ r.Permits c past call

/-- A request succeeds without a change only if it wants none, and fails without a change. -/
def Request.Ends (c : Config) (r : Request) (response : Response) (past : List Move) : Prop :=
  if response.isSuccess then r.method = .get ∨ r.method = .head ∨
    c.state.isWritable = true ∧ ∃ resource, Resource.ofTarget r.target = some resource ∧
      Made c r.body r.method resource response past
  else Unchanged past

section Requests

variable {c : Config} {method : Method} {resource : Resource}

/-- No refusal is a success. -/
theorem isSuccess_refused (requestId : String) (e : Refusal) :
    (Api.refused requestId e).isSuccess = false := by
  show (decide (200 ≤ e.toClass.status) && decide (e.toClass.status < 300)) = false
  cases e.toClass <;> rfl

/-- What answers a method of a resource. -/
theorem holds_answer (c : Config) (body : ByteArray) (requestId : String)
    (hone : ¬(method = .post ∧ resource = .secrets)) :
    Program.Holds (.history (PermitsOnce c body method resource)) (Ends c body method resource)
      (match Api.operation c body method resource with
        | some s => Api.respond requestId s
        | none => return .text 405 "") [] := by
  split
  · rename_i s hs
    refine Program.holds_bind.2 (Program.Holds.mono (obeys_operation hs hone) ?_)
    intro result past h
    cases result with
    | ok response => exact h
    | error e =>
      show Ends c body method resource (Api.refused requestId e) past
      rw [Ends, if_neg (Bool.eq_false_iff.1 (isSuccess_refused requestId e))]
      exact h
  · exact ends_of_quiet quiet_nil rfl

/-- A request that stores no secrets reads until it knows its change, asks for it with its last
call, and succeeds exactly if the change is made. -/
theorem holds_handle (c : Config) (requestId : String) {r : Request} (hone : ¬r.StoresSecrets) :
    (Api.handle c requestId r).Holds (.history (r.PermitsOnce c)) (r.Ends c) [] := by
  unfold Api.handle
  split
  · rename_i resource hresource
    have hanswer (method : Method) (hmethod : ¬(method = .post ∧ resource = .secrets)) :=
      holds_answer c r.body requestId hmethod
    unfold Api.perform
    simp only
    split
    · -- The document of the answer is dropped, its status is not.
      rename_i hhead
      refine Program.holds_map.2 (((hanswer .get nofun).mono fun response past h => ?_).weaken
        fun past call h => ⟨h.1, fun x hx => (h.2 x hx).imp_right fun ⟨_, _, hasks⟩ => nomatch hasks⟩)
      unfold Ends at h
      unfold Request.Ends
      show if response.isSuccess then _ else _
      split
      · exact Or.inr (Or.inl hhead)
      · rw [if_neg ‹_›] at h
        exact h
    · refine ((hanswer r.method fun h => hone ⟨h.1, h.2 ▸ hresource⟩).mono
        fun response past h => ?_).weaken fun past call h =>
          ⟨h.1, fun x hx => (h.2 x hx).imp_right fun ⟨hwritable, response, hasks⟩ =>
            ⟨hwritable, resource, response, hresource, hasks⟩⟩
      unfold Ends at h
      unfold Request.Ends
      split
      · rw [if_pos ‹_›] at h
        exact h.imp_right fun hmade => Or.inr ⟨hmade.1, resource, hresource, hmade.2⟩
      · rw [if_neg ‹_›] at h
        exact h
  · rw [Program.holds_pure, Request.Ends]
    exact Or.inl quiet_nil

/-- Whatever a request calls is a read or a change that it asks for, and only in a workspace that
takes changes does it succeed with anything but `GET` and `HEAD`. -/
theorem holds_handle_asks (c : Config) (requestId : String) (r : Request) :
    (Api.handle c requestId r).Holds (.history (r.Permits c))
      (fun response _ => response.isSuccess = true →
        r.method = .get ∨ r.method = .head ∨ c.state.isWritable = true) [] := by
  rcases Decidable.em (r.method = .post ∧ Resource.ofTarget r.target = some .secrets) with
    ⟨hmethod, hresource⟩ | hone
  · unfold Api.handle Api.perform
    simp only [hmethod, hresource]
    have hbody : Ensures (.history (r.Permits c)) (fun _ _ => c.state.isWritable = true)
        (fun _ _ => True) (do
          let secrets ← Api.readBody (Reader.list Secret.reader) r.body
          Secrets.putAll c secrets
          return Response.text 200 "") [] := by
      unfold Api.readBody
      cases hread : (Json.ofBytes? r.body).bind (Reader.list Secret.reader).run with
      | some secrets =>
        have hput : Ensures (.history (r.Permits c)) (fun _ _ => c.state.isWritable = true)
            (fun _ _ => True) (Secrets.putAll c secrets) [] :=
          Program.Holds.weaken (ensures_putSecrets hread) fun past call h x hx =>
            (h x hx).imp_right fun ⟨hwritable, response, hasks⟩ =>
              ⟨hwritable, .secrets, response, hresource, hmethod ▸ hasks⟩
        refine ensures_bind.2 (ensures_pure.2 (ensures_bind.2 (hput.mono ?_ fun _ _ h => h)))
        exact fun _ _ h => ensures_pure.2 h
      | none => trivial
    refine Program.holds_bind.2 (Program.Holds.mono hbody fun result past h => ?_)
    cases result with
    | ok response => exact fun _ => Or.inr (Or.inr h)
    | error e =>
      intro hsuccess
      rw [isSuccess_refused] at hsuccess
      exact nomatch hsuccess
  · refine ((holds_handle c requestId hone).mono fun response past h hsuccess => ?_).weaken
      fun past call h => h.2
    rw [Request.Ends, if_pos hsuccess] at h
    exact h.imp_right (Or.imp_right And.left)

end Requests

end Workplane.Http
