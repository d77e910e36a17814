import Workplane.Background.Lifecycle
import Workplane.Proofs.Program.Interleaving
import Workplane.Proofs.Program.Operations
import Workplane.Service.Deployments

/-!
# Writers of deployments

Four operations change the stored deployments: creation, patch and deletion by users, and the
scale-down of a terminated workspace.  `Writer.Intends` says which change such an operation may ask
the store for, given what it has learned before.  `Writer.holds_service` is the law of all four: an
operation reads until it knows its change and then makes one call for it, with which it ends.  It
succeeds if the store made the change, and ends with a conflict or a missing object if the store
refused it.
-/

namespace Workplane

open Workspace (Config)
open Service

/-! ### Operations and changes -/

/-- An operation that changes a stored deployment. -/
inductive Writer where
  | create (spec : Deployment.Spec)
  | patch (id : String) (patch : Patch)
  | delete (id : String)
  /-- The scale-down of a deployment, with the limit on each of its calls. -/
  | scaleToZero (limit : Nat) (id : String)

/-- A change of the content of a key. -/
inductive Change where
  | create (d : Deployment)
  | patch (patch : Patch) (photon : Option Photon) (now : UInt64)
  | delete
  | scaleToZero (now : UInt64)

/-- The content of a key after a change; `none` if the change does not apply to the content. -/
def Change.result? (c : Config) : Change → Option ByteArray → Option (Option ByteArray)
  | create d, none => some (some (Kind.encode d))
  | patch p photon now, some value => (Kind.decode? value).map fun d =>
    some (Kind.encode (Deployments.patched c p photon d now))
  | delete, some _ => some none
  | scaleToZero now, some value => do
    let d ← Kind.decode? value
    if Background.asksForReplicas d then some (some (Kind.encode (Background.withoutReplicas d now)))
    else none
  | _, _ => none

namespace Writer

/-- The identifier of the deployment that an operation changes. -/
def id : Writer → String
  | create spec => Name.deploymentId spec.name
  | patch id _ | delete id | scaleToZero _ id => id

/-- The key of the deployment that an operation changes. -/
def key (c : Config) (w : Writer) : String :=
  c.deployments.key w.id

/-- The program of an operation. -/
def service (c : Config) : Writer → Service (Option Deployment)
  | create spec => some <$> Deployments.create c spec
  | patch id p => some <$> Deployments.patch c id p
  | delete id => (fun _ => none) <$> Deployments.delete c id
  | scaleToZero limit id =>
    (fun _ => none) <$> ofStore (Background.scaleOneToZero { c.deployments with limit } id)

/-! ### What an operation has learned -/

/-- A read of a key was answered with an entry. -/
def Saw (past : List Move) (key : String) (e : Entry) : Prop :=
  ∃ took, Move.call (.get key) ⟨.answered (some e), took⟩ ∈ past

/-- A photon was read under an identifier, if there is one. -/
inductive SawPhoton (c : Config) (past : List Move) : Option String → Option Photon → Prop
  | none : SawPhoton c past none none
  | some (id : String) (e : Entry) (p : Photon) (saw : Saw past (c.photons.key id) e)
      (decoded : Kind.decode? e.value = some p) : SawPhoton c past (some id) (some p)

/-- An operation that has learned `past` may ask for a change by a call.  An update names the
revision that was read, and writes what follows from the very value that was read. -/
inductive Intends (c : Config) (past : List Move) : Writer → Call → Change → Prop
  | create (spec : Deployment.Spec) (photon : Photon) (now : Timestamp)
      (photon_read : SawPhoton c past (some spec.photonId) (some photon))
      (looked : .clock now ∈ past) :
      Intends c past (.create spec)
        (.swap (c.deployments.key (Name.deploymentId spec.name)) 0
          (Kind.encode (Deployments.start c spec photon now.millis)))
        (.create (Deployments.start c spec photon now.millis))
  | patch (id : String) (p : Patch) (e : Entry) (d : Deployment) (photon : Option Photon)
      (now : Timestamp) (saw : Saw past (c.deployments.key id) e)
      (decoded : Kind.decode? e.value = some d)
      (photon_read : SawPhoton c past p.newPhotonId photon) (looked : .clock now ∈ past) :
      Intends c past (.patch id p)
        (.swap (c.deployments.key id) e.revision
          (Kind.encode (Deployments.patched c p photon d now.millis)))
        (.patch p photon now.millis)
  | delete (id : String) : Intends c past (.delete id) (.delete (c.deployments.key id)) .delete
  | scaleToZero (limit : Nat) (id : String) (e : Entry) (d : Deployment) (now : Timestamp)
      (saw : Saw past (c.deployments.key id) e) (decoded : Kind.decode? e.value = some d)
      (asks : Background.asksForReplicas d = true) (looked : .clock now ∈ past) :
      Intends c past (.scaleToZero limit id)
        (.swap (c.deployments.key id) e.revision
          (Kind.encode (Background.withoutReplicas d now.millis)))
        (.scaleToZero now.millis)

/-- No move was told whether it changed a key. -/
def Quiet (past : List Move) : Prop :=
  ∀ m ∈ past, m.verdict = none

/-- The last move, and only the last, was told whether it changed a key. -/
def Concluded (past : List Move) (verdict : Bool) : Prop :=
  ∃ before m, past = before ++ [m] ∧ Quiet before ∧ m.verdict = some verdict

/-- A scale-down has found a deployment that asks for no replicas. -/
def FoundIdle (c : Config) (past : List Move) : Writer → Prop
  | scaleToZero _ id => ∃ e d, Saw past (c.deployments.key id) e ∧
      Kind.decode? e.value = some d ∧ Background.asksForReplicas d = false
  | _ => False

/-! ### The law of operations -/

/-- An operation makes a move only before it asked for its change, and its calls read or ask for
the change. -/
def Permits (c : Config) (w : Writer) (past : List Move) (call : Option Call) : Prop :=
  Quiet past ∧ ∀ x, call = some x → x.IsRead ∨ ∃ change, Intends c past w x change

/-- An operation that succeeded has made its change, or had none to make. -/
def Succeeds (c : Config) (w : Writer) (past : List Move) : Prop :=
  Concluded past true ∨ Quiet past ∧ w.FoundIdle c past

/-- The class of errors that say that an operation came too late. -/
def IsLostRace (class' : Refusal.Class) : Prop :=
  class' = .conflict ∨ class' = .notFound

/-- An operation that failed has changed nothing, and it names a conflict or a missing object if
the store refused its change. -/
def Fails (e : Refusal) (past : List Move) : Prop :=
  Quiet past ∨ Concluded past false ∧ IsLostRace e.toClass

/-- What an operation ends with. -/
def Ends (c : Config) (w : Writer) (r : Except Refusal (Option Deployment)) (past : List Move) :
    Prop :=
  Except.casesOn r (Fails · past) fun _ => Succeeds c w past

/-! #### Reading -/

section Reading

variable {c : Config} {w : Writer} {past : List Move} {α : Type}

theorem verdict_eq_none_of_isRead {m : Move} (h : ∀ x, m.request = some x → x.IsRead) :
    m.verdict = none := by
  cases m with
  | clock now => rfl
  | call call reply =>
    have hread := h call rfl
    cases call with
    | get key => rfl
    | list start => rfl
    | getBlob key => rfl
    | putBlob key data => rfl
    | swap key expected value => exact hread.elim
    | delete key => exact hread.elim

/-- A move without a verdict keeps a writer quiet. -/
theorem Quiet.concat {past : List Move} (h : Quiet past) {m : Move} (hm : m.verdict = none) :
    Quiet (past ++ [m]) := by
  intro m' hm'
  rcases List.mem_append.1 hm' with hm' | hm'
  · exact h m' hm'
  · rw [List.mem_singleton.1 hm']
    exact hm

theorem quiet_nil : Quiet [] := fun _ hm => absurd hm List.not_mem_nil

theorem Saw.mono {past now : List Move} (hsub : past ⊆ now) {key : String} {e : Entry}
    (h : Saw past key e) : Saw now key e :=
  h.imp fun _ hm => hsub hm

theorem SawPhoton.mono {past now : List Move} (hsub : past ⊆ now) {id : Option String}
    {p : Option Photon} (h : SawPhoton c past id p) : SawPhoton c now id p := by
  cases h with
  | none => exact .none
  | some id e p saw decoded => exact .some id e p (saw.mono hsub) decoded

/-- A writer that is quiet may read. -/
theorem permits_read (h : Quiet past) {call : Option Call} (hc : ∀ x, call = some x → x.IsRead) :
    w.Permits c past call :=
  ⟨h, fun x hx => Or.inl (hc x hx)⟩

/-- What only reads leaves an operation free to go on. -/
theorem ensures_reads {p : Service α} (hp : ReadOnly p) (h : Quiet past) :
    Ensures (.history (w.Permits c)) (fun _ now => Quiet now ∧ past ⊆ now) (fun _ => Quiet) p
      past := by
  refine (hp.ensures (fun now => Quiet now ∧ past ⊆ now) (fun now _ hnow => permits_read hnow.1)
    ?_ ⟨h, fun _ hm => hm⟩).mono (fun _ _ h => h) fun _ _ h => h.1
  rintro now m _ ⟨hquiet, hsub⟩ hread rfl
  exact ⟨hquiet.concat (verdict_eq_none_of_isRead hread),
    fun _ hm => List.mem_append_left _ (hsub hm)⟩

/-- An operation may go on after anything that only reads. -/
theorem ensures_reads_bind {β : Type} {p : Service α} {f : α → Service β}
    {ok : β → List Move → Prop}
    (hp : ReadOnly p) (h : Quiet past)
    (next : ∀ a now, Quiet now → past ⊆ now →
      Ensures (.history (w.Permits c)) ok Fails (f a) now) :
    Ensures (.history (w.Permits c)) ok Fails (p >>= f) past :=
  ensures_bind.2 ((ensures_reads hp h).mono (fun a now hnow => next a now hnow.1 hnow.2)
    fun _ _ hquiet => Or.inl hquiet)

/-- A read shows an entry and its revision. -/
theorem ensures_getVersioned [Kind α] {r : Repository α} {name : String} (h : Quiet past) :
    Ensures (.history (w.Permits c))
      (fun v now => Quiet now ∧ ∃ e, Saw now (r.key name) e ∧
        Kind.decode? e.value = some v.object ∧ v.revision = e.revision)
      (fun _ => Quiet) (r.getVersioned name) past := by
  refine Repository.ensures_getVersioned
    (permits_read h fun x hx => by rw [← Option.some.inj hx]; trivial) ?_ ?_ ?_ ?_
  · rintro e a took _ rfl ha
    exact ⟨h.concat rfl, e, ⟨took, List.mem_append_right _ (.head [])⟩, ha, rfl⟩
  · rintro took _ rfl
    exact h.concat rfl
  · rintro e detail took _ rfl -
    exact h.concat rfl
  · rintro e reply _ - - rfl
    exact h.concat rfl

theorem holds_now (h : Quiet past) :
    Program.now.Holds (.history (w.Permits c))
      (fun t now => Quiet now ∧ past ⊆ now ∧ .clock t ∈ now) past := by
  refine Program.holds_now.2 ⟨permits_read h (fun x hx => nomatch hx), ?_⟩
  rintro t _ rfl
  exact ⟨h.concat rfl, List.subset_append_left _ _, List.mem_append_right _ (.head [])⟩

theorem ensures_resolvePhoton {id : String} (h : Quiet past) :
    Ensures (.history (w.Permits c))
      (fun p now => Quiet now ∧ past ⊆ now ∧ SawPhoton c now (some id) (some p))
      (fun _ => Quiet) (resolvePhoton c id) past := by
  refine ensures_bind.2 (ensures_ifFound.2 (Repository.ensures_get
    (permits_read h fun x hx => by rw [← Option.some.inj hx]; trivial) ?_ ?_ ?_ ?_))
  · rintro e a took _ rfl ha
    refine ensures_pure.2 ⟨h.concat rfl, List.subset_append_left _ _, ?_⟩
    exact .some id e a ⟨took, List.mem_append_right _ (.head [])⟩ ha
  · rintro took _ rfl
    exact ensures_throw.2 (h.concat rfl)
  · rintro e detail took _ rfl -
    exact h.concat rfl
  · rintro e reply _ he - rfl
    cases e with
    | timeout => exact h.concat rfl
    | backend => exact h.concat rfl
    | _ => exact he.elim

end Reading

/-! #### Changing -/

section Changing

variable {c : Config} {w : Writer} {past : List Move} {change : Change}

/-- A writer that is quiet may ask for the change that it intends. -/
theorem permits_change {call : Call} (h : Quiet past) (hi : Intends c past w call change) :
    w.Permits c past (some call) :=
  ⟨h, fun _ hx => Or.inr ⟨change, Option.some.inj hx ▸ hi⟩⟩

/-- A call for a change that has no answer is told nothing. -/
theorem verdict_eq_none_of_isLost {call : Call} {reply : Reply call.Answer} (h : reply.IsLost) :
    (Move.call call reply).verdict = none := by
  obtain ⟨outcome, took⟩ := reply
  cases outcome with
  | answered answer => exact absurd rfl (h answer)
  | failed causes => cases call <;> rfl
  | gaveUp => cases call <;> rfl

/-- The verdict on the change concludes a writer. -/
theorem concluded_concat (h : Quiet past) {m : Move} {verdict : Bool}
    (hm : m.verdict = some verdict) : Concluded (past ++ [m]) verdict :=
  ⟨past, m, rfl, h, hm⟩

/-- A creation concludes with the verdict on its swap. -/
theorem ensures_create {name : String} {d : Deployment} (h : Quiet past)
    (hi : Intends c past w (.swap (c.deployments.key name) 0 (Kind.encode d)) change) :
    Ensures (.history (w.Permits c)) (fun _ now => Concluded now true) Fails
      (ofStore (c.deployments.create name d)) past := by
  refine ensures_ofStore.2 (Repository.ensures_create (permits_change h hi) ?_ ?_ ?_)
  · rintro swap took _ rfl hw
    exact concluded_concat h (congrArg some hw)
  · rintro swap took _ rfl hw
    exact Or.inr ⟨concluded_concat h (congrArg some hw), Or.inl rfl⟩
  · rintro e reply _ - hlost rfl
    exact Or.inl (h.concat (verdict_eq_none_of_isLost hlost))

theorem ensures_updateAt {r : Repository Deployment} {name : String} {d : Deployment}
    {revision : UInt64} (h : Quiet past)
    (hi : Intends c past w (.swap (r.key name) revision (Kind.encode d)) change) :
    Ensures (.history (w.Permits c)) (fun _ now => Concluded now true)
      (fun e now => Fails (.store e) now) (r.updateAt name d revision) past := by
  refine Repository.ensures_updateAt (permits_change h hi) ?_ ?_ ?_
  · rintro swap took _ rfl hw
    exact concluded_concat h (congrArg some hw)
  · rintro swap took _ rfl hw
    have hconcluded := concluded_concat h (m := .call (.swap (r.key name) revision (Kind.encode d))
      ⟨.answered swap, took⟩) (congrArg some hw)
    exact ⟨fun _ => Or.inr ⟨hconcluded, Or.inr rfl⟩, fun _ => Or.inr ⟨hconcluded, Or.inl rfl⟩⟩
  · rintro e reply _ - hlost rfl
    exact Or.inl (h.concat (verdict_eq_none_of_isLost hlost))

theorem ensures_delete {name : String} (h : Quiet past)
    (hi : Intends c past w (.delete (c.deployments.key name)) change) :
    Ensures (.history (w.Permits c)) (fun _ now => Concluded now true) Fails
      (ofStore (c.deployments.delete name)) past := by
  refine ensures_ofStore.2 (Repository.ensures_delete (permits_change h hi) ?_ ?_ ?_)
  · rintro took _ rfl
    exact concluded_concat h rfl
  · rintro took _ rfl
    exact Or.inr ⟨concluded_concat h rfl, Or.inr rfl⟩
  · rintro e reply _ - hlost rfl
    exact Or.inl (h.concat (verdict_eq_none_of_isLost hlost))

end Changing

/-! #### The four operations -/

section Operations

variable {c : Config}

/-- The writer that creates keeps to its intention. -/
theorem ensures_service_create (spec : Deployment.Spec) :
    Ensures (.history ((create spec).Permits c)) (fun _ now => Concluded now true) Fails
      (Deployments.create c spec) [] := by
  refine ensures_reads_bind (readOnly_ensureWritable c) quiet_nil fun _ past h _ => ?_
  refine ensures_reads_bind (readOnly_ofCheck _) h fun _ past h _ => ?_
  refine ensures_reads_bind (readOnly_checkSpec c spec) h fun _ past h _ => ?_
  refine ensures_reads_bind (readOnly_ofCheck _) h fun total past h _ => ?_
  refine ensures_reads_bind (readOnly_checkQuota c total none) h fun _ past h _ => ?_
  refine ensures_bind.2 ((ensures_resolvePhoton h).mono ?_ fun _ _ h => Or.inl h)
  rintro photon past ⟨h, -, hphoton⟩
  refine ensures_bind.2 (ensures_lift.2 ((holds_now h).mono ?_))
  rintro now past' ⟨h, hsub, hnow⟩
  have hintends := Intends.create spec photon now (hphoton.mono hsub) hnow
  refine ensures_bind.2 ((ensures_create h hintends).mono ?_ fun _ _ h => h)
  exact fun _ _ h => ensures_pure.2 h

theorem ensures_newPhoton {w : Writer} {past : List Move} (p : Patch) (current : Deployment)
    (h : Quiet past) :
    Ensures (.history (w.Permits c))
      (fun photon now => Quiet now ∧ past ⊆ now ∧ SawPhoton c now p.newPhotonId photon)
      (fun _ => Quiet) (Deployments.newPhoton c p current) past := by
  unfold Deployments.newPhoton
  cases p.newPhotonId with
  | none => exact ensures_pure.2 ⟨h, fun _ hm => hm, .none⟩
  | some id =>
    refine ensures_bind.2 ((ensures_resolvePhoton h).mono ?_ fun _ _ h => h)
    rintro photon now hnow
    split
    · exact ensures_pure.2 hnow
    · exact ensures_throw.2 hnow.1

/-- The writer that patches keeps to its intention: it replaces the entry that it has read. -/
theorem ensures_service_patch (id : String) (p : Patch) :
    Ensures (.history ((patch id p).Permits c)) (fun _ now => Concluded now true) Fails
      (Deployments.patch c id p) [] := by
  refine ensures_reads_bind (readOnly_ensureWritable c) quiet_nil fun _ past h _ => ?_
  refine ensures_bind.2 (ensures_ofStore.2 ((ensures_getVersioned h).mono ?_ fun _ _ h => Or.inl h))
  rintro ⟨d, revision⟩ past₁ ⟨h, e, hsaw, hd, rfl⟩
  refine ensures_bind.2 ((ensures_newPhoton p d h).mono ?_ fun _ _ h => Or.inl h)
  rintro photon past₂ ⟨h, hsub₂, hphoton⟩
  split
  · exact ensures_throw.2 (Or.inl h)
  · refine ensures_reads_bind (readOnly_checkSpec c _) h fun _ past₃ h hsub₃ => ?_
    refine ensures_reads_bind (readOnly_ofCheck _) h fun replaced past₄ h hsub₄ => ?_
    refine ensures_reads_bind (readOnly_ofCheck _) h fun requested past₅ h hsub₅ => ?_
    refine ensures_reads_bind (readOnly_checkQuota c _ _) h fun _ past₆ h hsub₆ => ?_
    refine ensures_bind.2 (ensures_lift.2 ((holds_now h).mono ?_))
    rintro now past₇ ⟨h, hsub₇, hnow⟩
    have hsub : past₂ ⊆ past₇ := List.Subset.trans
      (List.Subset.trans (List.Subset.trans hsub₃ hsub₄) (List.Subset.trans hsub₅ hsub₆)) hsub₇
    have hintends := Intends.patch id p e d photon now
      (hsaw.mono (List.Subset.trans hsub₂ hsub)) hd (hphoton.mono hsub) hnow
    refine ensures_bind.2 (ensures_ofStore.2 ((ensures_updateAt h hintends).mono ?_
      fun _ _ h => h))
    exact fun _ _ h => ensures_pure.2 h

theorem ensures_service_delete (id : String) :
    Ensures (.history ((delete id).Permits c)) (fun _ now => Concluded now true) Fails
      (Deployments.delete c id) [] := by
  refine ensures_reads_bind (readOnly_ensureWritable c) quiet_nil fun _ past h _ => ?_
  exact ensures_delete h (.delete id)

/-- The writer that scales down keeps to its intention: it replaces the entry that it has read. -/
theorem ensures_scaleOneToZero (limit : Nat) (id : String) :
    Ensures (.history ((scaleToZero limit id).Permits c))
      (fun _ now => (scaleToZero limit id).Succeeds c now) Fails
      (ofStore (Background.scaleOneToZero { c.deployments with limit } id)) [] := by
  refine ensures_ofStore.2 (ensures_bind.2 ((ensures_getVersioned quiet_nil).mono ?_
    fun _ _ h => Or.inl h))
  rintro ⟨d, revision⟩ past ⟨h, e, hsaw, hd, rfl⟩
  cases hasks : Background.asksForReplicas d with
  | true =>
    simp only [if_true]
    refine ensures_bind.2 (ensures_lift.2 ((holds_now h).mono ?_))
    rintro now past' ⟨h, hsub, hnow⟩
    have hintends := Intends.scaleToZero limit id e d now (hsaw.mono hsub) hd hasks hnow
    refine ensures_bind.2 ((ensures_updateAt (r := { c.deployments with limit }) h hintends).mono
      ?_ fun _ _ h => h)
    exact fun _ _ h => ensures_pure.2 (Or.inl h)
  | false =>
    simp only [Bool.false_eq_true, if_false]
    exact ensures_pure.2 (Or.inr ⟨h, e, d, hsaw, hd, hasks⟩)

/-- Every operation reads until it knows its change, asks for it with its last call, and ends as
the store has decided. -/
theorem holds_service (c : Config) (w : Writer) :
    (w.service c).run.Holds (.history (w.Permits c)) (w.Ends c) [] := by
  show Ensures _ (fun _ past => w.Succeeds c past) Fails (w.service c) []
  cases w with
  | create spec =>
    exact ensures_map.2 ((ensures_service_create spec).mono (fun _ _ h => Or.inl h) fun _ _ h => h)
  | patch id p =>
    exact ensures_map.2 ((ensures_service_patch id p).mono (fun _ _ h => Or.inl h) fun _ _ h => h)
  | delete id =>
    exact ensures_map.2 ((ensures_service_delete id).mono (fun _ _ h => Or.inl h) fun _ _ h => h)
  | scaleToZero limit id => exact ensures_map.2 (ensures_scaleOneToZero limit id)

end Operations

end Writer

end Workplane
