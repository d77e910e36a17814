import Workplane.Proofs.Capacity.Admission
import Workplane.Proofs.Deployments.Writer
import Workplane.Proofs.Program.Alone
import Workplane.Proofs.Workspace.Integrity

/-!
# The quota law of deployments

A creation and a patch of a deployment look at the quota once, after the whole specification was
checked.  `Service.Deployments.quota_exact` says of every run, whatever answers it gets, that it is
refused for the quota exactly if the memory that the new requirement asks for is not there, by
unbounded arithmetic and with what the deployment holds already counting as free.

The proof walks through both services with a record of what a run knows of the quota and of the
deployment that it has read (`Service.Deployments.Knows`): no other call adds to it.
-/

namespace Workplane

/-- The refusal says that the quota does not admit a request. -/
def Refusal.IsOverQuota : Refusal → Prop
  | .overQuota _ => True
  | _ => False

namespace Service.Deployments

open Workspace (Config)
open Writer (Saw)

variable {c : Config} {id : String} {seen past : List Move} {α : Type}

/-! ### What a run has read -/

/-- A run has read a quota. -/
def SawQuota (c : Config) (past : List Move) (q : Quota) : Prop :=
  ∃ e, Saw past (c.quotas.key c.name) e ∧ Kind.decode? e.value = some q

/-- A run has read a deployment under an identifier. -/
def SawDeployment (c : Config) (id : String) (past : List Move) (d : Deployment) : Prop :=
  ∃ e, Saw past (c.deployments.key id) e ∧ Kind.decode? e.value = some d

/-- A run ended with a refusal for the quota. -/
def IsOverQuota (result : Except Refusal α) : Prop :=
  ∃ e, result = .error e ∧ e.IsOverQuota

/-- What succeeds is not over the quota. -/
theorem isOverQuota_ok {a : α} : IsOverQuota (.ok a) ↔ False :=
  iff_of_false (fun ⟨_, h, _⟩ => nomatch h) not_false

theorem isOverQuota_error {e : Refusal} :
    IsOverQuota (.error e : Except Refusal α) ↔ e.IsOverQuota := by
  constructor
  · rintro ⟨e', heq, h⟩
    rwa [Except.error.inj heq]
  · exact fun h => ⟨e, rfl, h⟩

/-- An entry was seen before, or by the last move. -/
theorem saw_concat_iff {m : Move} {key : String} {e : Entry} :
    Saw (past ++ [m]) key e ↔ Saw past key e ∨
      ∃ took, m = .call (.get key) ⟨.answered (some e), took⟩ := by
  constructor
  · rintro ⟨took, hmem⟩
    rcases List.mem_append.1 hmem with hmem | hmem
    · exact Or.inl ⟨took, hmem⟩
    · exact Or.inr ⟨took, (List.mem_singleton.1 hmem).symm⟩
  · rintro (⟨took, hmem⟩ | ⟨took, rfl⟩)
    · exact ⟨took, List.mem_append_left _ hmem⟩
    · exact ⟨took, List.mem_append_right _ (.head [])⟩

/-- What holds of every quota and of every deployment that a run has read, which has made some moves
already. -/
structure Knows (c : Config) (id : String) (seen : List Move) (ofQuota : Quota → Prop)
    (ofDeployment : Deployment → Prop) (past : List Move) : Prop where
  grown : seen ⊆ past
  quota : ∀ q, SawQuota c past q → ofQuota q
  deployment : ∀ d, SawDeployment c id past d → ofDeployment d

section Knows

variable {ofQuota ofQuota' : Quota → Prop} {ofDeployment : Deployment → Prop}

theorem knows_nil : Knows c id [] ofQuota ofDeployment [] := by
  constructor
  · exact fun _ hm => hm
  · rintro q ⟨e, ⟨took, hmem⟩, -⟩
    exact absurd hmem List.not_mem_nil
  · rintro d ⟨e, ⟨took, hmem⟩, -⟩
    exact absurd hmem List.not_mem_nil

/-- What is known of the quota may be weakened. -/
theorem Knows.mono (h : Knows c id seen ofQuota ofDeployment past)
    (himp : ∀ q, ofQuota q → ofQuota' q) : Knows c id seen ofQuota' ofDeployment past :=
  ⟨h.grown, fun q hq => himp q (h.quota q hq), h.deployment⟩

/-- What holds after a move holds of what it has read as well. -/
theorem Knows.move (h : Knows c id seen ofQuota ofDeployment past) {m : Move}
    (hquota : ∀ e took q, m = .call (.get (c.quotas.key c.name)) ⟨.answered (some e), took⟩ →
      Kind.decode? e.value = some q → ofQuota q)
    (hdeployment : ∀ e took d, m = .call (.get (c.deployments.key id)) ⟨.answered (some e), took⟩ →
      Kind.decode? e.value = some d → ofDeployment d) :
    Knows c id seen ofQuota ofDeployment (past ++ [m]) := by
  constructor
  · exact fun _ hm => List.mem_append_left _ (h.grown hm)
  · rintro q ⟨e, hsaw, hq⟩
    rcases saw_concat_iff.1 hsaw with hsaw | ⟨took, hm⟩
    · exact h.quota q ⟨e, hsaw, hq⟩
    · exact hquota e took q hm hq
  · rintro d ⟨e, hsaw, hd⟩
    rcases saw_concat_iff.1 hsaw with hsaw | ⟨took, hm⟩
    · exact h.deployment d ⟨e, hsaw, hd⟩
    · exact hdeployment e took d hm hd

/-- A move that reads neither adds nothing to what is known. -/
theorem Knows.concat (h : Knows c id seen ofQuota ofDeployment past) {m : Move}
    (hquota : m.request ≠ some (.get (c.quotas.key c.name)))
    (hdeployment : m.request ≠ some (.get (c.deployments.key id))) :
    Knows c id seen ofQuota ofDeployment (past ++ [m]) := by
  apply h.move
  · rintro e took q rfl
    exact absurd rfl hquota
  · rintro e took d rfl
    exact absurd rfl hdeployment

/-! ### Calls that read neither -/

/-- The environment that answers anything. -/
abbrev anything : Environment (List Move) :=
  .history fun _ _ => True

section Reading

variable {β : Type} [Kind β] {r : Repository β}

/-- A program that fails, but not for the quota, has read nothing new. -/
abbrev Calm (c : Config) (id : String) (seen : List Move) (ofQuota : Quota → Prop)
    (ofDeployment : Deployment → Prop) (e : Refusal) (now : List Move) : Prop :=
  Knows c id seen ofQuota ofDeployment now ∧ ¬e.IsOverQuota

/-- An object of another kind is looked for. -/
theorem ensures_ifFound_get (hquotas : r.Apart c.quotas) (hdeployments : r.Apart c.deployments)
    (h : Knows c id seen ofQuota ofDeployment past) (name : String) :
    Ensures anything (fun _ now => Knows c id seen ofQuota ofDeployment now)
      (Calm c id seen ofQuota ofDeployment) (ifFound (r.get name)) past := by
  have hstep {m : Move} (hm : m.request = some (.get (r.key name))) :
      Knows c id seen ofQuota ofDeployment (past ++ [m]) := by
    apply h.concat
    · rw [hm]
      exact fun heq => hquotas name c.name (Call.get.inj (Option.some.inj heq))
    · rw [hm]
      exact fun heq => hdeployments name id (Call.get.inj (Option.some.inj heq))
  refine ensures_ifFound.2 (Repository.ensures_get trivial ?_ ?_ ?_ ?_)
  · rintro e a took _ rfl -
    exact hstep rfl
  · rintro took _ rfl
    exact hstep rfl
  · rintro e detail took _ rfl -
    exact ⟨hstep rfl, not_false⟩
  · rintro e reply _ - - rfl
    split
    · exact hstep rfl
    · exact ⟨hstep rfl, not_false⟩

end Reading

theorem photons_apart_quotas (c : Config) : c.photons.Apart c.quotas :=
  Repository.apart_of_plural_ne rfl (by decide) (by decide) (by decide)

theorem secrets_apart_quotas (c : Config) : c.secrets.Apart c.quotas :=
  Repository.apart_of_plural_ne rfl (by decide) (by decide) (by decide)

theorem deployments_apart_quotas (c : Config) : c.deployments.Apart c.quotas :=
  Repository.apart_of_plural_ne rfl (by decide) (by decide) (by decide)

theorem ensures_ensureWritable (h : Knows c id seen ofQuota ofDeployment past) :
    Ensures anything (fun _ now => Knows c id seen ofQuota ofDeployment now)
      (Calm c id seen ofQuota ofDeployment) (ensureWritable c) past := by
  unfold ensureWritable
  split
  · exact ensures_pure.2 h
  · exact ensures_throw.2 ⟨h, not_false⟩

/-- A check of the declaration tells nothing of the quota. -/
theorem ensures_ofCheck_calm {check : Except Invalid α}
    (h : Knows c id seen ofQuota ofDeployment past) :
    Ensures anything (fun a now => Knows c id seen ofQuota ofDeployment now ∧ check = .ok a)
      (Calm c id seen ofQuota ofDeployment) (ofCheck check) past :=
  ensures_ofCheck (fun _ ha => ⟨h, ha⟩) fun _ _ => ⟨h, not_false⟩

/-- The checks of a specification leave what is known of the quota as it is. -/
theorem ensures_checkSpec {spec : Deployment.Spec} (h : Knows c id seen ofQuota ofDeployment past) :
    Ensures anything
      (fun _ now => Knows c id seen ofQuota ofDeployment now ∧ spec.validate = .ok ())
      (Calm c id seen ofQuota ofDeployment) (checkSpec c spec) past := by
  refine ensures_bind.2 ((ensures_ofCheck_calm h).mono ?_ fun _ _ h => h)
  rintro ⟨⟩ now ⟨h, hvalid⟩
  have hsecret (name : String) (now : List Move) (h : Knows c id seen ofQuota ofDeployment now) :
      Ensures anything (fun _ now => Knows c id seen ofQuota ofDeployment now ∧ True)
        (Calm c id seen ofQuota ofDeployment) (checkSecret c name) now := by
    refine ensures_bind.2 ((ensures_ifFound_get (secrets_apart_quotas c)
      (Workspace.secrets_apart_deployments c) h name).mono ?_ fun _ _ h => h)
    rintro (_ | v) now h
    · exact ensures_throw.2 ⟨h, not_false⟩
    · exact ensures_pure.2 ⟨h, trivial⟩
  exact (ensures_forM (fun name _ => hsecret name) h).mono (fun _ _ h => ⟨h.1, hvalid⟩)
    fun _ _ h => h

theorem ensures_resolvePhoton (h : Knows c id seen ofQuota ofDeployment past) (photonId : String) :
    Ensures anything (fun _ now => Knows c id seen ofQuota ofDeployment now)
      (Calm c id seen ofQuota ofDeployment) (resolvePhoton c photonId) past := by
  refine ensures_bind.2 ((ensures_ifFound_get (photons_apart_quotas c)
    (Workspace.photons_apart_deployments c) h photonId).mono ?_ fun _ _ h => h)
  rintro (_ | p) now h
  · exact ensures_throw.2 ⟨h, not_false⟩
  · exact ensures_pure.2 h

theorem ensures_newPhoton (h : Knows c id seen ofQuota ofDeployment past) (p : Patch)
    (d : Deployment) :
    Ensures anything (fun _ now => Knows c id seen ofQuota ofDeployment now)
      (Calm c id seen ofQuota ofDeployment) (newPhoton c p d) past := by
  unfold newPhoton
  cases p.newPhotonId with
  | none => exact ensures_pure.2 h
  | some photonId =>
    refine ensures_bind.2 ((ensures_resolvePhoton h photonId).mono ?_ fun _ _ h => h)
    intro photon now h
    split
    · exact ensures_pure.2 h
    · exact ensures_throw.2 ⟨h, not_false⟩

theorem ensures_now (h : Knows c id seen ofQuota ofDeployment past) :
    Ensures anything (fun _ now => Knows c id seen ofQuota ofDeployment now)
      (Calm c id seen ofQuota ofDeployment) (monadLift Program.now : Service Timestamp) past := by
  refine ensures_lift.2 (Program.holds_now.2 ⟨trivial, ?_⟩)
  rintro now _ rfl
  exact h.concat nofun nofun

/-- A creation is written or refused for other reasons than the quota. -/
theorem ensures_create_calm (h : Knows c id seen ofQuota ofDeployment past) (name : String)
    (d : Deployment) :
    Ensures anything (fun _ now => Knows c id seen ofQuota ofDeployment now)
      (Calm c id seen ofQuota ofDeployment) (ofStore (c.deployments.create name d)) past := by
  refine ensures_ofStore.2 (Repository.ensures_create trivial ?_ ?_ ?_)
  · rintro swap took _ rfl -
    exact h.concat nofun nofun
  · rintro swap took _ rfl -
    exact ⟨h.concat nofun nofun, not_false⟩
  · rintro e reply _ - - rfl
    exact ⟨h.concat nofun nofun, not_false⟩

theorem ensures_updateAt_calm (h : Knows c id seen ofQuota ofDeployment past) (name : String)
    (d : Deployment) (revision : UInt64) :
    Ensures anything (fun _ now => Knows c id seen ofQuota ofDeployment now)
      (Calm c id seen ofQuota ofDeployment) (ofStore (c.deployments.updateAt name d revision))
      past := by
  refine ensures_ofStore.2 (Repository.ensures_updateAt trivial ?_ ?_ ?_)
  · rintro swap took _ rfl -
    exact h.concat nofun nofun
  · rintro swap took _ rfl -
    exact ⟨fun _ => ⟨h.concat nofun nofun, not_false⟩, fun _ => ⟨h.concat nofun nofun, not_false⟩⟩
  · rintro e reply _ - - rfl
    exact ⟨h.concat nofun nofun, not_false⟩

end Knows

/-! ### The look at the quota -/

section CheckQuota

variable {ofDeployment : Deployment → Prop} {requested : Resources} {replaced : Option Resources}

/-- A read of the quota that finds none, or fails. -/
theorem Knows.of_missed_quota (h : Knows c id seen (fun _ => False) ofDeployment past)
    {reply : Reply (Option Entry)}
    (hmissed : ∀ e took q, reply = ⟨.answered (some e), took⟩ →
      Kind.decode? e.value ≠ some (q : Quota)) :
    Knows c id seen (fun _ => False) ofDeployment
      (past ++ [.call (.get (c.quotas.key c.name)) reply]) := by
  apply h.move
  · intro e took q hm hq
    obtain ⟨-, hreply⟩ := Move.call.inj hm
    exact hmissed e took q (eq_of_heq hreply) hq
  · intro e took d hm
    exact absurd (Call.get.inj (Move.call.inj hm).1).symm (deployments_apart_quotas c id c.name)

/-- After a quota was read, it is the one that is known. -/
theorem Knows.of_found_quota (h : Knows c id seen (fun _ => False) ofDeployment past) {e : Entry}
    {q : Quota} (hq : Kind.decode? e.value = some q) (took : Nat) :
    Knows c id seen (fun q' => q' = q) ofDeployment
      (past ++ [.call (.get (c.quotas.key c.name)) ⟨.answered (some e), took⟩]) := by
  apply (h.mono fun _ => False.elim).move
  · intro e' took' q' hm hq'
    obtain ⟨-, hreply⟩ := Move.call.inj hm
    obtain rfl : e = e' := by
      injection eq_of_heq hreply with houtcome
      exact Option.some.inj (Outcome.answered.inj houtcome)
    exact Option.some.inj (hq'.symm.trans hq)
  · intro e' took' d hm
    exact absurd (Call.get.inj (Move.call.inj hm).1).symm (deployments_apart_quotas c id c.name)

/-- Before the check no quota was read.  After it the request is admitted by every quota that was
read; if it is refused for the quota, one was read that does not admit it. -/
theorem ensures_checkQuota (h : Knows c id seen (fun _ => False) ofDeployment past) :
    Ensures anything
      (fun _ now => Knows c id seen (fun q => Quota.admits (some q) requested replaced = true)
        ofDeployment now)
      (fun e now => Calm c id seen (fun _ => False) ofDeployment e now ∨
        e.IsOverQuota ∧ (∃ q, SawQuota c now q) ∧
          Knows c id seen (fun q => Quota.admits (some q) requested replaced = false)
            ofDeployment now)
      (checkQuota c requested replaced) past := by
  refine ensures_bind.2 (ensures_ifFound.2 (Repository.ensures_get trivial ?_ ?_ ?_ ?_))
  · -- The quota that was found is the only one that was read, and decides.
    rintro e q took _ rfl hq
    have hknows := h.of_found_quota hq took
    split
    · rename_i hadmits
      exact ensures_pure.2 (hknows.mono fun q' hq' => hq' ▸ hadmits)
    · rename_i hrefused
      have hsaw : Saw (past ++ [.call (.get (c.quotas.key c.name)) ⟨.answered (some e), took⟩])
          (c.quotas.key c.name) e :=
        ⟨took, List.mem_append_right _ (.head [])⟩
      refine ensures_throw.2 (Or.inr ⟨trivial, ⟨q, e, hsaw, hq⟩, hknows.mono fun q' hq' => ?_⟩)
      exact hq' ▸ Bool.eq_false_iff.2 hrefused
  · rintro took _ rfl
    have hmissed : Knows c id seen (fun _ => False) ofDeployment
        (past ++ [.call (.get (c.quotas.key c.name)) ⟨.answered none, took⟩]) :=
      h.of_missed_quota fun e took' q heq => absurd (congrArg Reply.outcome heq) nofun
    exact ensures_pure.2 (hmissed.mono fun _ => False.elim)
  -- A quota that cannot be read, and a call that fails, end the run with another refusal.
  · rintro e detail took _ rfl hnone
    refine Or.inl ⟨h.of_missed_quota fun e' took' q heq hq => ?_, not_false⟩
    obtain rfl : e = e' := Option.some.inj (Outcome.answered.inj (congrArg Reply.outcome heq))
    exact nomatch hnone.symm.trans hq
  · rintro e reply _ he hlost rfl
    have hknows : Knows c id seen _ ofDeployment _ := h.of_missed_quota fun e' took q heq =>
      absurd (congrArg Reply.outcome heq) (hlost (some e'))
    cases e with
    | timeout => exact Or.inl ⟨hknows, not_false⟩
    | backend => exact Or.inl ⟨hknows, not_false⟩
    | _ => exact he.elim

end CheckQuota

/-! ### Verdicts -/

/-- A requirement passed its checks, and the quota admits it in place of another one or not. -/
structure Verdict (q : Quota) (new : Requirement) (old : Option Requirement) (requested : Resources)
    (replaced : Option Resources) (admitted : Bool) : Prop where
  valid : new.validate = .ok ()
  total : new.total = .ok requested
  total_old : old.mapM Requirement.total = .ok replaced
  admits : Quota.admits (some q) requested replaced = admitted

/-- What a run has found out that ended over the quota or not: whoever was refused for the quota has
read one, and for every quota that was read the end is the verdict on it. -/
structure Judged (c : Config) (past : List Move) (isOver : Prop) (new : Requirement)
    (old : Option Requirement) : Prop where
  saw : isOver → ∃ q, SawQuota c past q
  verdict : ∀ q, SawQuota c past q → ∃ requested replaced admitted,
    (isOver ↔ admitted = false) ∧ Verdict q new old requested replaced admitted

section Verdicts

variable {ofDeployment : Deployment → Prop} {new : Requirement} {old : Option Requirement}
  {requested : Resources} {replaced : Option Resources}

/-- A refusal for another reason judges nothing. -/
theorem Calm.judged {e : Refusal} (h : Calm c id seen (fun _ => False) ofDeployment e past) :
    Judged c past e.IsOverQuota new old :=
  ⟨fun hover => absurd hover h.2, fun q hq => (h.1.quota q hq).elim⟩

/-- What was not refused for the quota satisfies the law for every quota that was read. -/
theorem Knows.judged_of_admitted {isOver : Prop} (hover : ¬isOver)
    (h : Knows c id seen (fun q => Verdict q new old requested replaced true) ofDeployment past) :
    Judged c past isOver new old :=
  ⟨fun hover' => absurd hover' hover, fun q hq =>
    ⟨requested, replaced, true, iff_of_false hover nofun, h.quota q hq⟩⟩

/-- The check of the quota and all that follows it. -/
theorem ensures_checkQuota_bind {β : Type} {next : Unit → Service β}
    (h : Knows c id seen (fun _ => False) ofDeployment past) (hvalid : new.validate = .ok ())
    (hrequested : new.total = .ok requested) (hreplaced : old.mapM Requirement.total = .ok replaced)
    (hnext : ∀ {ofQuota : Quota → Prop} {now : List Move},
      Knows c id seen ofQuota ofDeployment now →
      Ensures anything (fun _ now => Knows c id seen ofQuota ofDeployment now)
        (Calm c id seen ofQuota ofDeployment) (next ()) now) :
    Ensures anything (fun _ now => Judged c now False new old ∧
        Knows c id seen (fun _ => True) ofDeployment now)
      (fun e now => Judged c now e.IsOverQuota new old ∧
        Knows c id seen (fun _ => True) ofDeployment now)
      (checkQuota c requested replaced >>= next) past := by
  refine ensures_bind.2 ((ensures_checkQuota h).mono ?_ ?_)
  · intro _ now hnow
    have hverdict : Knows c id seen (fun q => Verdict q new old requested replaced true)
        ofDeployment now :=
      hnow.mono fun q hadmits => ⟨hvalid, hrequested, hreplaced, hadmits⟩
    refine (hnext hverdict).mono (fun _ now h => ?_) fun e now h => ?_
    · exact ⟨h.judged_of_admitted not_false, h.mono fun _ _ => trivial⟩
    · exact ⟨h.1.judged_of_admitted h.2, h.1.mono fun _ _ => trivial⟩
  · rintro e now (hcalm | ⟨hover, hsaw, hrefused⟩)
    · exact ⟨hcalm.judged, hcalm.1.mono fun _ => False.elim⟩
    · refine ⟨⟨fun _ => hsaw, fun q hq => ⟨requested, replaced, false, iff_of_true hover rfl, ?_⟩⟩,
        hrefused.mono fun _ _ => trivial⟩
      exact ⟨hvalid, hrequested, hreplaced, hrefused.quota q hq⟩

end Verdicts

/-! ### Creations and patches -/

/-- Every run of a creation is judged by the quota that it has read. -/
theorem ensures_create_judged (c : Config) (spec : Deployment.Spec) :
    Ensures anything (fun _ now => Judged c now False spec.requirement none)
      (fun e now => Judged c now e.IsOverQuota spec.requirement none) (create c spec) [] := by
  have hstart : Knows c "" [] (fun _ => False) (fun _ => True) [] := knows_nil
  refine ensures_bind.2 ((ensures_ensureWritable hstart).mono ?_ fun _ _ h => h.judged)
  intro _ now h
  refine ensures_bind.2 ((ensures_ofCheck_calm h).mono ?_ fun _ _ h => h.judged)
  rintro _ now ⟨h, -⟩
  refine ensures_bind.2 ((ensures_checkSpec h).mono ?_ fun _ _ h => h.judged)
  rintro _ now ⟨h, hvalid⟩
  refine ensures_bind.2 ((ensures_ofCheck_calm h).mono ?_ fun _ _ h => h.judged)
  rintro requested now ⟨h, hrequested⟩
  have hrequirement := (Deployment.Spec.validate_eq_ok_iff.1 hvalid).1
  refine (ensures_checkQuota_bind h hrequirement hrequested rfl fun h => ?_).mono
    (fun _ _ h => h.1) fun _ _ h => h.1
  refine ensures_bind.2 ((ensures_resolvePhoton h spec.photonId).mono ?_ fun _ _ h => h)
  intro photon now h
  refine ensures_bind.2 ((ensures_now h).mono ?_ fun _ _ h => h)
  intro time now h
  exact ensures_bind.2 ((ensures_create_calm h _ _).mono (fun _ _ h => ensures_pure.2 h)
    fun _ _ h => h)

theorem SawDeployment.mono {now : List Move} (hsub : past ⊆ now) {d : Deployment}
    (h : SawDeployment c id past d) : SawDeployment c id now d := by
  obtain ⟨e, hsaw, hd⟩ := h
  exact ⟨e, hsaw.mono hsub, hd⟩

/-- The deployment that a patch is based on is the first that is read. -/
theorem ensures_getVersioned_first (h : Knows c id seen (fun _ => False) (fun _ => False) past) :
    Ensures anything
      (fun v now => SawDeployment c id now v.object ∧
        Knows c id now (fun _ => False) (fun d => d = v.object) now)
      (Calm c id seen (fun _ => False) (fun _ => True)) (ofStore (c.deployments.getVersioned id))
      past := by
  -- A read of the deployment tells nothing of the quota, which has another key.
  have hmove (ofDeployment : Deployment → Prop) (reply : Reply (Option Entry))
      (hfound : ∀ e took d, reply = ⟨.answered (some e), took⟩ → Kind.decode? e.value = some d →
        ofDeployment d) :
      Knows c id seen (fun _ => False) ofDeployment
        (past ++ [.call (.get (c.deployments.key id)) reply]) := by
    have hknows : Knows c id seen (fun _ => False) ofDeployment past :=
      ⟨h.grown, h.quota, fun d hd => (h.deployment d hd).elim⟩
    apply hknows.move
    · intro e took q hm
      exact absurd (Call.get.inj (Move.call.inj hm).1) (deployments_apart_quotas c id c.name)
    · intro e took d hm hd
      exact hfound e took d (eq_of_heq (Move.call.inj hm).2) hd
  have hcalm (reply : Reply (Option Entry)) := hmove (fun _ => True) reply fun _ _ _ _ _ => trivial
  refine ensures_ofStore.2 (Repository.ensures_getVersioned trivial ?_ ?_ ?_ ?_)
  · rintro e d took _ rfl hd
    have hknows := hmove (fun d' => d' = d) ⟨.answered (some e), took⟩ fun e' took' d' heq hd' => by
      obtain rfl : e = e' := Option.some.inj (Outcome.answered.inj (congrArg Reply.outcome heq))
      exact Option.some.inj (hd'.symm.trans hd)
    exact ⟨⟨e, ⟨took, List.mem_append_right _ (.head [])⟩, hd⟩, fun _ hm => hm, hknows.quota,
      hknows.deployment⟩
  · rintro took _ rfl
    exact ⟨hcalm _, not_false⟩
  · rintro e detail took _ rfl -
    exact ⟨hcalm _, not_false⟩
  · rintro e reply _ - - rfl
    exact ⟨hcalm _, not_false⟩

/-- What a run of a patch has found out of the deployment that it has read. -/
structure PatchJudged (c : Config) (id : String) (p : Patch) (past : List Move) (isOver : Prop) :
    Prop where
  saw : isOver → ∃ q, SawQuota c past q
  sawDeployment : ∀ q, SawQuota c past q → ∃ d, SawDeployment c id past d
  judged : ∀ d, SawDeployment c id past d →
    Judged c past isOver (p.apply d.spec).requirement (some d.spec.requirement)

theorem Calm.patchJudged {e : Refusal} {ofDeployment : Deployment → Prop} {p : Patch}
    (h : Calm c id seen (fun _ => False) ofDeployment e past) :
    PatchJudged c id p past e.IsOverQuota where
  saw hover := absurd hover h.2
  sawDeployment q hq := (h.1.quota q hq).elim
  judged _ _ := h.judged

/-- Every run of a patch is judged by the quota and by the deployment that it has read. -/
theorem ensures_patch_judged (c : Config) (id : String) (p : Patch) :
    Ensures anything (fun _ now => PatchJudged c id p now False)
      (fun e now => PatchJudged c id p now e.IsOverQuota) (patch c id p) [] := by
  have hstart : Knows c id [] (fun _ => False) (fun _ => False) [] := knows_nil
  refine ensures_bind.2 ((ensures_ensureWritable hstart).mono ?_ fun _ _ h => Calm.patchJudged h)
  intro _ now h
  refine ensures_bind.2 ((ensures_getVersioned_first h).mono ?_ fun _ _ h => Calm.patchJudged h)
  rintro ⟨d, revision⟩ seen ⟨hsaw, h⟩
  refine ensures_bind.2 ((ensures_newPhoton h p d).mono ?_ fun _ _ h => Calm.patchJudged h)
  intro photon now h
  split
  · have hcalm : Calm c id seen (fun _ => False) (fun d' => d' = d) .emptyPatch now :=
      ⟨h, not_false⟩
    exact ensures_throw.2 hcalm.patchJudged
  refine ensures_bind.2 ((ensures_checkSpec h).mono ?_ fun _ _ h => Calm.patchJudged h)
  rintro _ now ⟨h, hvalid⟩
  refine ensures_bind.2 ((ensures_ofCheck_calm h).mono ?_ fun _ _ h => Calm.patchJudged h)
  rintro replaced now ⟨h, hreplaced⟩
  refine ensures_bind.2 ((ensures_ofCheck_calm h).mono ?_ fun _ _ h => Calm.patchJudged h)
  rintro requested now ⟨h, hrequested⟩
  have hrequirement := (Deployment.Spec.validate_eq_ok_iff.1 hvalid).1
  have hold : (some d.spec.requirement).mapM Requirement.total = .ok (some replaced) := by
    show some <$> d.spec.requirement.total = _
    rw [hreplaced]
    rfl
  -- The only deployment that was read is the one that the verdict is about.
  have hjudged {isOver : Prop} {now : List Move}
      (h : Judged c now isOver (p.apply d.spec).requirement (some d.spec.requirement) ∧
        Knows c id seen (fun _ => True) (fun d' => d' = d) now) : PatchJudged c id p now isOver := by
    refine ⟨h.1.saw, fun _ _ => ⟨d, hsaw.mono h.2.grown⟩, fun d' hd' => ?_⟩
    obtain rfl := h.2.deployment d' hd'
    exact h.1
  refine (ensures_checkQuota_bind h hrequirement hrequested hold fun h => ?_).mono
    (fun _ _ h => hjudged h) fun _ _ h => hjudged h
  refine ensures_bind.2 ((ensures_now h).mono ?_ fun _ _ h => h)
  intro time now h
  exact ensures_bind.2 ((ensures_updateAt_calm h _ _ _).mono (fun _ _ h => ensures_pure.2 h)
    fun _ _ h => h)

/-! ### The law -/

section Law

variable {isOver : Prop} {new old : Requirement} {q : Quota}

/-- The verdict on a new deployment follows the law. -/
theorem Judged.law (h : Judged c past isOver new none) (hq : SawQuota c past q) :
    ∃ requested, new.validate = .ok () ∧ new.total = .ok requested ∧
      (q.OthersFit requested none → (¬isOver ↔ q.MemoryFits new none)) := by
  obtain ⟨requested, replaced, admitted, hover, hverdict⟩ := h.verdict q hq
  obtain rfl : none = replaced := Except.ok.inj hverdict.total_old
  refine ⟨requested, hverdict.valid, hverdict.total, fun hothers => ?_⟩
  rw [← Quota.admits_none_iff (.valid hverdict.valid) hverdict.total hothers, hverdict.admits,
    hover, Bool.not_eq_false]

/-- The verdict on a patched deployment follows the law. -/
theorem Judged.law_replacing (h : Judged c past isOver new (some old)) (hq : SawQuota c past q) :
    ∃ requested replaced, new.validate = .ok () ∧ new.total = .ok requested ∧
      old.total = .ok replaced ∧
      (old.WasValid → q.OthersFit requested (some replaced) →
        (¬isOver ↔ q.MemoryFits new (some old))) := by
  obtain ⟨requested, replaced, admitted, hover, hverdict⟩ := h.verdict q hq
  have htotal : some <$> old.total = .ok replaced := hverdict.total_old
  cases hold : old.total with
  | error i =>
    rw [hold] at htotal
    exact nomatch htotal
  | ok free =>
    rw [hold] at htotal
    obtain rfl : some free = replaced := Except.ok.inj htotal
    refine ⟨requested, free, hverdict.valid, hverdict.total, rfl, fun hwas hothers => ?_⟩
    rw [← Quota.admits_some_iff (.valid hverdict.valid) hwas hverdict.total hold hothers,
      hverdict.admits, hover, Bool.not_eq_false]

end Law

/-- A run of a creation or a patch that looks at a quota is refused for it exactly if the memory of
the new requirement is not there, given that the other resources are.  What a patch replaces counts
as free, if it was valid when it was written.  The totals that are compared exist, and a requirement
that stays as it is fits exactly if no more is used than there is. -/
theorem quota_exact (c : Config) :
    (∀ spec : Deployment.Spec, (create c spec).run.Holds anything (fun result past =>
      (IsOverQuota result → ∃ q, SawQuota c past q) ∧
      ∀ q, SawQuota c past q → ∃ requested, spec.requirement.validate = .ok () ∧
        spec.requirement.total = .ok requested ∧
        (q.OthersFit requested none →
          (¬IsOverQuota result ↔ q.MemoryFits spec.requirement none))) []) ∧
    (∀ id p, (patch c id p).run.Holds anything (fun result past =>
      (IsOverQuota result → ∃ q, SawQuota c past q) ∧
      (∀ q, SawQuota c past q → ∃ d, SawDeployment c id past d) ∧
      ∀ q d, SawQuota c past q → SawDeployment c id past d → ∃ requested replaced,
        (p.apply d.spec).requirement.validate = .ok () ∧
        (p.apply d.spec).requirement.total = .ok requested ∧
        d.spec.requirement.total = .ok replaced ∧
        (d.spec.requirement.WasValid → q.OthersFit requested (some replaced) →
          (¬IsOverQuota result ↔
            q.MemoryFits (p.apply d.spec).requirement (some d.spec.requirement)))) []) ∧
    (∀ r : Requirement, r.validate = .ok () → (∃ t, r.total = .ok t) ∧
      ∃ t, ({ r with minReplicas := some 0 } : Requirement).total = .ok t) ∧
    ∀ (q : Quota) (r : Requirement), q.MemoryFits r (some r) ↔ q.used.memory ≤ q.hard.memory := by
  refine ⟨fun spec => ?_, fun id p => ?_, fun r hr => ?_, Quota.memoryFits_self_iff⟩
  · refine Program.Holds.mono (ensures_create_judged c spec) fun result past h => ?_
    cases result with
    | ok d =>
      rw [isOverQuota_ok]
      exact ⟨h.saw, fun q hq => h.law hq⟩
    | error e =>
      rw [isOverQuota_error]
      exact ⟨h.saw, fun q hq => h.law hq⟩
  · refine Program.Holds.mono (ensures_patch_judged c id p) fun result past h => ?_
    cases result with
    | ok d =>
      rw [isOverQuota_ok]
      exact ⟨h.saw, h.sawDeployment, fun q d hq hd => (h.judged d hd).law_replacing hq⟩
    | error e =>
      rw [isOverQuota_error]
      exact ⟨h.saw, h.sawDeployment, fun q d hq hd => (h.judged d hd).law_replacing hq⟩
  · exact ⟨Requirement.exists_total_of_validate hr, Requirement.exists_total_withoutReplicas hr⟩

/-- The move has shown an object under a key that passes a test. -/
def showed {β : Type} [Kind β] (key : String) (test : β → Bool) : Move → Bool
  | .call (.get k) ⟨.answered (some e), _⟩ => k == key && (Kind.decode? e.value).any test
  | _ => false

/-- What some answered read has shown, the run has seen. -/
theorem exists_saw_of_any_showed {β : Type} [Kind β] {key : String} {test : β → Bool}
    (h : past.any (showed key test) = true) :
    ∃ a, (∃ e, Saw past key e ∧ Kind.decode? e.value = some a) ∧ test a = true := by
  obtain ⟨m, hm, h⟩ := List.any_eq_true.1 h
  unfold showed at h
  split at h
  · obtain ⟨hkey, hobject⟩ := Bool.and_eq_true_iff.1 h
    obtain ⟨a, ha, htest⟩ := (Option.any_eq_true _ _).1 hobject
    obtain rfl := beq_iff_eq.1 hkey
    exact ⟨a, ⟨_, ⟨_, hm⟩, ha⟩, htest⟩
  · exact nomatch h

/-- With six units of memory left, six replicas are created but not seven, and two replicas become
eight but not nine. -/
theorem quota_exact_six_left :
    let c : Config := { scope := "ns", name := "w", state := .normal }
    let quota := "\x7b\"name\":\"w\",\"hard\":\x7b\"cpu\":100,\"memory\":10\x7d," ++
      "\"used\":\x7b\"memory\":4\x7d\x7d"
    let deployment := "\x7b\"id\":\"d\",\"spec\":\x7b\"name\":\"d\",\"photon_id\":\"p\"," ++
      "\"resource_requirement\":\x7b\"cpu\":1,\"memory\":1,\"min_replicas\":2\x7d\x7d\x7d"
    let b : Backend := Backend.empty.afterCalls
      [.swap (c.quotas.key "w") 0 quota.toUTF8, .swap (c.deployments.key "d") 0 deployment.toUTF8]
    let spec (replicas : UInt32) : Deployment.Spec :=
      ⟨"e", "p", { cpu := 1, memory := 1, minReplicas := some replicas }, none, none, none⟩
    let change (replicas : UInt32) : Patch := ⟨"", "", some ⟨replicas, ""⟩, none, none, none⟩
    (∀ replicas ∈ [6, 7], ∃ past b' result q requested,
      (create c (spec replicas)).run.Alone b past b' (.done result) ∧ SawQuota c past q ∧
        (spec replicas).requirement.total = .ok requested ∧ q.OthersFit requested none ∧
        (¬IsOverQuota result ↔ replicas = 6)) ∧
    ∀ replicas ∈ [8, 9], ∃ past b' result q d requested replaced,
      (patch c "d" (change replicas)).run.Alone b past b' (.done result) ∧ SawQuota c past q ∧
        SawDeployment c "d" past d ∧ d.spec.requirement.WasValid ∧
        ((change replicas).apply d.spec).requirement.total = .ok requested ∧
        d.spec.requirement.total = .ok replaced ∧ q.OthersFit requested (some replaced) ∧
        (¬IsOverQuota result ↔ replicas = 8) := by
  intro c quota deployment b spec change
  let now : Timestamp := ⟨1970, 1, 1, 0, 0, 0, 0⟩
  constructor
  · intro replicas hreplicas
    have hshown : ([6, 7].all fun replicas =>
        ((create c (spec replicas)).run.undisturbedMoves now b).any
          (showed (c.quotas.key "w") fun q : Quota =>
            (spec replicas).requirement.total.toOption.any fun requested =>
              decide (q.OthersFit requested none ∧
                (q.MemoryFits (spec replicas).requirement none ↔ replicas = 6)))) = true := by
      decide +kernel
    obtain ⟨q, hq, htest⟩ :=
      exists_saw_of_any_showed (List.all_eq_true.1 hshown replicas hreplicas)
    have run := Program.Alone.start.undisturbed (p := (create c (spec replicas)).run) (b := b) now
    obtain ⟨-, law⟩ := (run.holds ((quota_exact c).1 (spec replicas))).1
    obtain ⟨requested, -, htotal, hfits⟩ := law q hq
    rw [htotal] at htest
    obtain ⟨hothers, hmemory⟩ := of_decide_eq_true htest
    exact ⟨_, _, _, q, requested, run, hq, htotal, hothers, (hfits hothers).trans hmemory⟩
  · intro replicas hreplicas
    have hshown : ([8, 9].all fun replicas =>
        ((patch c "d" (change replicas)).run.undisturbedMoves now b).any
          (showed (c.quotas.key "w") fun q : Quota =>
            ((patch c "d" (change replicas)).run.undisturbedMoves now b).any
              (showed (c.deployments.key "d") fun d : Deployment =>
                ((change replicas).apply d.spec).requirement.total.toOption.any fun requested =>
                  d.spec.requirement.total.toOption.any fun replaced =>
                    d.spec.requirement.validate.isOk &&
                      decide (q.OthersFit requested (some replaced) ∧
                        (q.MemoryFits ((change replicas).apply d.spec).requirement
                          (some d.spec.requirement) ↔ replicas = 8))))) = true := by
      decide +kernel
    obtain ⟨q, hq, hshown⟩ :=
      exists_saw_of_any_showed (List.all_eq_true.1 hshown replicas hreplicas)
    obtain ⟨d, hd, htest⟩ := exists_saw_of_any_showed hshown
    have run := Program.Alone.start.undisturbed (p := (patch c "d" (change replicas)).run) (b := b)
      now
    obtain ⟨-, -, law⟩ := (run.holds ((quota_exact c).2.1 "d" (change replicas))).1
    obtain ⟨requested, replaced, -, htotal, hold, hfits⟩ := law q d hq hd
    rw [htotal, hold] at htest
    obtain ⟨hvalid, hjudged⟩ := Bool.and_eq_true_iff.1 htest
    obtain ⟨hothers, hmemory⟩ := of_decide_eq_true hjudged
    have hwas : d.spec.requirement.WasValid := by
      cases hold : d.spec.requirement.validate with
      | ok u => exact .valid hold
      | error i =>
        rw [hold] at hvalid
        exact nomatch hvalid
    exact ⟨_, _, _, q, d, requested, replaced, run, hq, hd, hwas, htotal, hold, hothers,
      (hfits hwas hothers).trans hmemory⟩

end Service.Deployments

end Workplane
