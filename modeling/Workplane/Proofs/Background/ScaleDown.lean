import Workplane.Background.Lifecycle
import Workplane.Proofs.Objects.Deployments
import Workplane.Proofs.Storage.Restore

/-!
# Rounds of the background tasks

What the background tasks do in a round when nothing disturbs them.  A backup takes a snapshot
(`Background.undisturbed_backupOnce`).  A pass over all deployments leaves every one of them
without replicas and is otherwise true to what was there (`Background.ScaledDown`); a pass over
deployments without replicas changes nothing.
-/

namespace Workplane

variable {α : Type} {now : Timestamp} {b : Backend}

/-- A budget is no matter to a program whose calls are all answered. -/
theorem Program.undisturbed_within (budget : Nat) (p : Program α) (b : Backend) :
    (p.within budget).undisturbed now b =
      (some (p.undisturbed now b).1, (p.undisturbed now b).2) := by
  induction p generalizing budget b with
  | done a => rfl
  | clock next ih => exact ih now budget b
  | call c limit next ih => exact ih ⟨.answered (c.answer b).1, 0⟩ budget _

namespace Repository

variable [Kind α] {r : Repository α} {s : KeyStore}

theorem undisturbed_list (r : Repository α) (now : Timestamp) (b : Backend) :
    r.list.run.undisturbed now b = (.ok (r.listed b.keys), b) :=
  rfl

theorem undisturbed_getVersioned {name : String} {e : Entry} {a : α}
    (he : b.keys.get? (r.key name) = some e) (ha : Kind.decode? e.value = some a) :
    (r.getVersioned name).run.undisturbed now b = (.ok ⟨a, e.revision⟩, b) := by
  have hget : (r.request "get" (.get (r.key name))).run.undisturbed now b = (.ok (some e), b) := by
    show (Except.ok (b.keys.get? (r.key name)), b) = _
    rw [he]
  have hdecode : (decode e.value : StoreProgram α).run.undisturbed now b = (.ok a, b) := by
    unfold decode
    rw [ha]
    rfl
  rw [getVersioned, undisturbed_run_bind hget, undisturbed_run_bind hdecode]
  rfl

theorem undisturbed_updateAt {name : String} {a : α} {revision : UInt64}
    (h : b.keys.revisionOf (r.key name) = revision) :
    (r.updateAt name a revision).run.undisturbed now b =
      (.ok b.keys.nextRevision,
        { b with keys := b.keys.write (r.key name) (Kind.encode a) }) := by
  have hswap : (r.request "update" (.swap (r.key name) revision (Kind.encode a))).run.undisturbed
      now b = (.ok ⟨true, b.keys.nextRevision⟩,
        { b with keys := b.keys.write (r.key name) (Kind.encode a) }) := by
    show (Except.ok ((Call.swap (r.key name) revision (Kind.encode a)).answer b).1,
      ((Call.swap (r.key name) revision (Kind.encode a)).answer b).2) = _
    rw [Call.answer, KeyStore.compareAndSwap_of_eq h]
  rw [updateAt, undisturbed_run_bind hswap]
  rfl

end Repository

namespace Background

variable {r : Repository Deployment} {s s' : KeyStore}

/-! ### Backups -/

theorem undisturbed_backupOnce [Kind α] (r : Repository α) (schedule : BackupSchedule)
    (now : Timestamp) (b : Backend) :
    (backupOnce r schedule).undisturbed now b = (true, r.backedUp now b) := by
  rw [backupOnce, Program.undisturbed_bind, Program.undisturbed_within,
    Repository.undisturbed_backup]
  rfl

/-! ### Single deployments -/

/-- What a pass leaves of a deployment. -/
def scaledDown (now : Timestamp) (d : Deployment) : Deployment :=
  if asksForReplicas d then (withoutReplicas d now.millis).reread else d

@[simp] theorem asksForReplicas_scaledDown (now : Timestamp) (d : Deployment) :
    asksForReplicas (scaledDown now d) = false := by
  unfold scaledDown
  split
  · rfl
  · rename_i h
    exact Bool.eq_false_iff.2 h

theorem storable_withoutReplicas {d : Deployment} (hd : Kind.Storable d) (millis : UInt64) :
    Kind.Storable (withoutReplicas d millis) :=
  Deployment.storable ⟨hd.inRange.cpu, hd.inRange.accelerators⟩

theorem undisturbed_scaleOneToZero {id : String} {d : Deployment} (hd : r.Stored b.keys id d)
    (hasks : asksForReplicas d = true) :
    (scaleOneToZero r id).run.undisturbed now b =
      (.ok (), { b with
        keys := b.keys.write (r.key id) (Kind.encode (withoutReplicas d now.millis)) }) := by
  obtain ⟨e, he, hdecode⟩ := hd
  rw [scaleOneToZero, undisturbed_run_bind (Repository.undisturbed_getVersioned he hdecode)]
  simp only [hasks, if_true]
  have hnow : (monadLift Program.now : StoreProgram Timestamp).run.undisturbed now b =
      (.ok now, b) := rfl
  show ((monadLift Program.now : StoreProgram Timestamp) >>= _).run.undisturbed now b = _
  rw [undisturbed_run_bind hnow, undisturbed_run_bind
    (Repository.undisturbed_updateAt (KeyStore.revisionOf_of_get? he))]
  rfl

/-! ### Passes -/

/-- The deployments of some identifiers are scaled down, and everything else is as it was. -/
structure ScaledDown (r : Repository Deployment) (now : Timestamp) (ids : List String)
    (s s' : KeyStore) : Prop where
  clean : r.IsClean s'
  stored : ∀ id d', r.Stored s' id d' ↔
    ∃ d, r.Stored s id d ∧ d' = if id ∈ ids then scaledDown now d else d

theorem ScaledDown.nil (h : r.IsClean s) : ScaledDown r now [] s s := by
  refine ⟨h, fun id d' => ?_⟩
  constructor
  · exact fun hd' => ⟨d', hd', (if_neg List.not_mem_nil).symm⟩
  · rintro ⟨d, hd, rfl⟩
    exact hd

/-- A deployment is scaled down before others. -/
theorem ScaledDown.cons_write {d : Deployment} {ids : List String} (hd : r.Stored s d.id d)
    (hasks : asksForReplicas d = true) (hnotin : d.id ∉ ids)
    (h : ScaledDown r now ids
      (s.write (r.key d.id) (Kind.encode (withoutReplicas d now.millis))) s') :
    ScaledDown r now (d.id :: ids) s s' := by
  have hstorable := storable_withoutReplicas hd.storable now.millis
  -- What is written for `d` is what it is scaled down to.
  have hself : (if d.id ∈ d.id :: ids then scaledDown now d else d) =
      (withoutReplicas d now.millis).reread := by
    rw [if_pos (.head _), scaledDown, if_pos hasks]
  refine ⟨h.clean, fun id d' => (h.stored id d').trans ?_⟩
  constructor
  · rintro ⟨d₁, hd₁, rfl⟩
    rw [Repository.stored_write hstorable] at hd₁
    split at hd₁
    · rename_i heq
      subst heq hd₁
      refine ⟨d, hd, ?_⟩
      rw [if_neg hnotin, hself]
      rfl
    · rename_i hne
      refine ⟨d₁, hd₁, ?_⟩
      simp only [List.mem_cons, Ne.symm hne, false_or]
  · rintro ⟨d₁, hd₁, rfl⟩
    rcases Decidable.em (d.id = id) with rfl | hne
    · obtain rfl := hd.eq hd₁
      refine ⟨(withoutReplicas d now.millis).reread, ?_, ?_⟩
      · rw [Repository.stored_write hstorable, if_pos rfl]
        rfl
      · rw [if_neg hnotin, hself]
    · refine ⟨d₁, ?_, ?_⟩
      · rw [Repository.stored_write hstorable, if_neg hne]
        exact hd₁
      · simp only [List.mem_cons, Ne.symm hne, false_or]

/-- A deployment that asks for no replicas is left out. -/
theorem ScaledDown.cons_skip {d : Deployment} {ids : List String} (hd : r.Stored s d.id d)
    (hasks : ¬asksForReplicas d = true) (hnotin : d.id ∉ ids) (h : ScaledDown r now ids s s') :
    ScaledDown r now (d.id :: ids) s s' := by
  refine ⟨h.clean, fun id d' => (h.stored id d').trans ?_⟩
  refine exists_congr fun d₁ => and_congr_right fun hd₁ => ?_
  rcases Decidable.em (id = d.id) with rfl | hne
  · obtain rfl := hd.eq hd₁
    rw [if_neg hnotin, if_pos (.head _), scaledDown, if_neg hasks]
  · simp only [List.mem_cons, hne, false_or]

/-- A pass over deployments that are stored scales them down. -/
theorem undisturbed_scaleAllToZero (now : Timestamp) {ds : List Deployment}
    (hclean : r.IsClean b.keys) (hnodup : (ds.map Deployment.id).Nodup)
    (hstored : ∀ d ∈ ds, r.Stored b.keys d.id d) :
    ∃ s, (scaleAllToZero r ds).undisturbed now b = (true, { b with keys := s }) ∧
      ScaledDown r now (ds.map Deployment.id) b.keys s := by
  induction ds generalizing b with
  | nil => exact ⟨b.keys, rfl, .nil hclean⟩
  | cons d rest ih =>
    obtain ⟨hnotin, hnodup⟩ := List.nodup_cons.1 hnodup
    have hd := hstored d (.head rest)
    unfold scaleAllToZero
    split
    · rename_i hasks
      have hstorable := storable_withoutReplicas hd.storable now.millis
      -- The others are still there after the write, since they have other identifiers.
      have hothers : ∀ d' ∈ rest, r.Stored (b.keys.write (r.key d.id)
          (Kind.encode (withoutReplicas d now.millis))) d'.id d' := by
        intro d' hd'
        have hne : ¬d.id = d'.id := fun heq => hnotin (heq ▸ List.mem_map_of_mem hd')
        rw [Repository.stored_write hstorable, if_neg hne]
        exact hstored d' (.tail d hd')
      obtain ⟨s, hrest, hscaled⟩ := ih
        (b := { b with
          keys := b.keys.write (r.key d.id) (Kind.encode (withoutReplicas d now.millis)) })
        (hclean.write hstorable rfl) hnodup hothers
      refine ⟨s, ?_, hscaled.cons_write hd hasks hnotin⟩
      rw [Program.undisturbed_bind, undisturbed_scaleOneToZero hd hasks, Program.undisturbed_bind,
        hrest]
      rfl
    · rename_i hasks
      obtain ⟨s, hrest, hscaled⟩ := ih hclean hnodup fun d' hd' => hstored d' (.tail d hd')
      exact ⟨s, hrest, hscaled.cons_skip hd hasks hnotin⟩

/-- A pass over deployments without replicas does nothing. -/
theorem scaleAllToZero_eq_pure {ds : List Deployment}
    (h : ∀ d ∈ ds, asksForReplicas d = false) : scaleAllToZero r ds = pure true := by
  induction ds with
  | nil => rfl
  | cons d rest ih =>
    unfold scaleAllToZero
    rw [if_neg (by rw [h d (.head rest)]; exact Bool.false_ne_true)]
    exact ih fun d' hd' => h d' (.tail d hd')

/-- No stored deployment asks for replicas. -/
def Settled (r : Repository Deployment) (s : KeyStore) : Prop :=
  ∀ id d, r.Stored s id d → asksForReplicas d = false

theorem undisturbed_scaleToZero_of_settled (h : Settled r b.keys) :
    (scaleToZero r).undisturbed now b = (true, b) := by
  rw [scaleToZero, Program.undisturbed_bind, Repository.undisturbed_list]
  show (scaleAllToZero r (r.listed b.keys)).undisturbed now b = _
  have hlisted : ∀ d ∈ r.listed b.keys, asksForReplicas d = false := by
    intro d hd
    obtain ⟨id, hd⟩ := Repository.mem_listed.1 hd
    exact h id d hd
  rw [scaleAllToZero_eq_pure hlisted]
  rfl

/-- A pass over all deployments scales every one of them down. -/
theorem undisturbed_scaleToZero (now : Timestamp) (hclean : r.IsClean b.keys) :
    ∃ s, (scaleToZero r).undisturbed now b = (true, { b with keys := s }) ∧ r.IsClean s ∧
      ∀ id d', r.Stored s id d' ↔ ∃ d, r.Stored b.keys id d ∧ d' = scaledDown now d := by
  have hstored : ∀ d ∈ r.listed b.keys, r.Stored b.keys d.id d := by
    intro d hd
    obtain ⟨id, hd⟩ := Repository.mem_listed.1 hd
    have hid : d.id = id := hclean.objectName_eq hd
    exact hid ▸ hd
  obtain ⟨s, hpass, hscaled⟩ := undisturbed_scaleAllToZero now hclean hclean.nodup_listed hstored
  refine ⟨s, ?_, hscaled.clean, fun id d' => (hscaled.stored id d').trans ?_⟩
  · rw [scaleToZero, Program.undisturbed_bind, Repository.undisturbed_list]
    exact hpass
  · refine exists_congr fun d => and_congr_right fun hd => ?_
    have hid : d.id = id := hclean.objectName_eq hd
    have hlisted : d ∈ r.listed b.keys := Repository.mem_listed.2 ⟨id, hd⟩
    rw [if_pos (List.mem_map.2 ⟨d, hlisted, hid⟩)]

end Background

end Workplane
