import Workplane.Background.Tasks
import Workplane.Proofs.Background.ScaleDown
import Workplane.Proofs.Simulation.Worlds

/-!
# How long a scale-down can be undone

In a terminated workspace the deployments are backed up and then scaled down, all at the moment at
which the tasks start.  From then on the stored deployments stay as they are, so the snapshot
changes only once, when the backup loop of the deployments makes its second round: it then shows
deployments without replicas.  So the scale-down can be undone from the snapshot exactly until the
pause of that loop is over (`Background.scaleDown_undoable_iff`).
-/

namespace Workplane.Background

open Simulation

variable {α β : Type} [Kind α] [Kind β] {now : Timestamp} {b b' : Backend}

/-! ### Snapshots -/

/-- The snapshots of kinds whose plural names start with different letters are apart. -/
theorem backupKey_ne {r : Repository α} {r' : Repository β} (hscope : r.scope = r'.scope)
    (hplural : ∀ rest rest' : List Char,
      (Kind.plural α).toList ++ rest ≠ (Kind.plural β).toList ++ rest') :
    r.backupKey ≠ r'.backupKey := by
  intro heq
  have h := congrArg String.toList heq
  unfold Repository.backupKey at h
  rw [hscope] at h
  simp only [String.toList_append, List.append_assoc, toString] at h
  exact hplural _ _ (List.append_cancel_left (List.append_cancel_left (List.append_cancel_left h)))

theorem photons_backupKey_ne (c : Workspace.Config) :
    c.photons.backupKey ≠ c.deployments.backupKey :=
  backupKey_ne rfl fun _ _ h => nomatch (List.cons.inj h).1

theorem secrets_backupKey_ne (c : Workspace.Config) :
    c.secrets.backupKey ≠ c.deployments.backupKey :=
  backupKey_ne rfl fun _ _ h => nomatch (List.cons.inj h).1

/-- The last snapshot of the deployments shows one with a number of replicas. -/
def SnapshotShows (c : Workspace.Config) (b : Backend) (id : String) (replicas : UInt32) : Prop :=
  ∃ data, ∃ snapshot : Snapshot Deployment,
    b.blobs.get? c.deployments.backupKey = some data ∧ Snapshot.decode? data = some snapshot ∧
      ∃ d ∈ snapshot.items, d.id = id ∧ d.spec.requirement.minReplicas = some replicas

/-- The last snapshot of the deployments is read, with these items. -/
def SnapshotReads (c : Workspace.Config) (b : Backend) (items : List Deployment) : Prop :=
  ∃ data, ∃ snapshot : Snapshot Deployment,
    b.blobs.get? c.deployments.backupKey = some data ∧ Snapshot.decode? data = some snapshot ∧
      snapshot.items = items

variable {c : Workspace.Config} {backup : BackupSchedule} {lifecycle : LifecycleSchedule}
  {s : KeyStore}

/-- There is one last snapshot, and it is read in one way. -/
theorem SnapshotReads.unique {items items' : List Deployment} (h : SnapshotReads c b items)
    (h' : SnapshotReads c b items') : items = items' := by
  obtain ⟨data, snapshot, hdata, hsnapshot, rfl⟩ := h
  obtain ⟨data', snapshot', hdata', hsnapshot', rfl⟩ := h'
  obtain rfl := Option.some.inj (hdata.symm.trans hdata')
  rw [Option.some.inj (hsnapshot.symm.trans hsnapshot')]

/-- A snapshot is read with what the stored forms of the deployments are read as. -/
theorem snapshotReads_of_get? (hnow : now.IsMoment)
    (hblob : b.blobs.get? c.deployments.backupKey = some (c.deployments.snapshot now s).encode) :
    SnapshotReads c b ((c.deployments.listed s).map Deployment.reread) :=
  ⟨_, _, hblob, Snapshot.decode?_encode (s := c.deployments.snapshot now s) hnow
    (fun _ hd => Repository.storable_of_mem_listed hd) fun d _ => d.fitsSnapshot, rfl⟩

/-- A snapshot shows the deployments that were stored when it was taken. -/
theorem snapshotShows_iff_stored (hnow : now.IsMoment) (hclean : c.deployments.IsClean s)
    (hblob : b.blobs.get? c.deployments.backupKey = some (c.deployments.snapshot now s).encode)
    {id : String} {replicas : UInt32} :
    SnapshotShows c b id replicas ↔
      ∃ d, c.deployments.Stored s id d ∧ d.spec.requirement.minReplicas = some replicas := by
  have hreads := snapshotReads_of_get? hnow hblob
  constructor
  · rintro ⟨data, snapshot, hdata, hsnapshot, d, hd, rfl, hreplicas⟩
    rw [SnapshotReads.unique ⟨data, snapshot, hdata, hsnapshot, rfl⟩ hreads] at hd
    obtain ⟨d, hlisted, rfl⟩ := List.mem_map.1 hd
    obtain ⟨id, hstored⟩ := Repository.mem_listed.1 hlisted
    have hid : d.id = id := hclean.objectName_eq hstored
    exact ⟨d, hid ▸ hstored, hreplicas⟩
  · rintro ⟨d, hd, hreplicas⟩
    obtain ⟨data, snapshot, hdata, hsnapshot, hitems⟩ := hreads
    have hlisted : d ∈ c.deployments.listed s := Repository.mem_listed.2 ⟨id, hd⟩
    have hid : d.id = id := hclean.objectName_eq hd
    exact ⟨data, snapshot, hdata, hsnapshot, d.reread, hitems ▸ List.mem_map_of_mem hlisted, hid,
      hreplicas⟩

/-! ### Rounds -/

/-- The loop that keeps the deployments without replicas. -/
def scaleLoop (c : Workspace.Config) (lifecycle : LifecycleSchedule) : Routine :=
  .forever (scaleToZero { c.deployments with limit := lifecycle.attempt }) lifecycle.recheck
    lifecycle.afterFailure

theorem undisturbed_round_forever {work : Program Bool} {afterSuccess afterFailure : Nat}
    (h : work.undisturbed now b = (true, b')) :
    (Routine.forever work afterSuccess afterFailure).round.undisturbed now b =
      (some (.forever work afterSuccess afterFailure, afterSuccess), b') := by
  rw [Routine.round, Program.undisturbed_bind, h]
  rfl

theorem undisturbed_backupLoop (r : Repository α) (backup : BackupSchedule) (now : Timestamp)
    (b : Backend) :
    (backupLoop r backup).round.undisturbed now b =
      (some (backupLoop r backup, backup.afterSuccess), r.backedUp now b) :=
  undisturbed_round_forever (undisturbed_backupOnce r backup now b)

theorem undisturbed_scaleLoop (h : Settled c.deployments b.keys) :
    (scaleLoop c lifecycle).round.undisturbed now b =
      (some (scaleLoop c lifecycle, lifecycle.recheck), b) :=
  undisturbed_round_forever (undisturbed_scaleToZero_of_settled h)

/-- The first round in a terminated workspace: a backup, and then a pass. -/
theorem undisturbed_terminatedLoop (now : Timestamp) (hclean : c.deployments.IsClean b.keys) :
    ∃ s, (terminatedLoop c.deployments lifecycle).round.undisturbed now b =
        (some (scaleLoop c lifecycle, lifecycle.recheck),
          { c.deployments.backedUp now b with keys := s }) ∧
      c.deployments.IsClean s ∧ ∀ id d', c.deployments.Stored s id d' ↔
        ∃ d, c.deployments.Stored b.keys id d ∧ d' = scaledDown now d := by
  obtain ⟨s, hpass, hscaled⟩ := undisturbed_scaleToZero now
    (r := { c.deployments with limit := lifecycle.attempt })
    (b := c.deployments.backedUp now b) hclean
  refine ⟨s, ?_, hscaled⟩
  rw [terminatedLoop, backupThen, Routine.round, Program.undisturbed_bind,
    undisturbed_backupOnce]
  exact undisturbed_round_forever hpass

/-! ### The tasks of a terminated workspace -/

/-- The loops that leave the snapshot of the deployments alone. -/
def otherLoops (c : Workspace.Config) (backup : BackupSchedule) (lifecycle : LifecycleSchedule) :
    List Routine :=
  [backupLoop c.photons backup, backupLoop c.secrets backup, scaleLoop c lifecycle]

/-- A round of one of these loops changes neither the store nor the snapshot, and the loop goes on
after a pause. -/
theorem exists_undisturbed_otherLoop (now : Timestamp) (hbackup : 0 < backup.afterSuccess)
    (hlifecycle : 0 < lifecycle.recheck) (hsettled : Settled c.deployments b.keys) {r : Routine}
    (hr : r ∈ otherLoops c backup lifecycle) :
    ∃ pause b', r.round.undisturbed now b = (some (r, pause), b') ∧ 0 < pause ∧
      b'.keys = b.keys ∧
      b'.blobs.get? c.deployments.backupKey = b.blobs.get? c.deployments.backupKey := by
  simp only [otherLoops, List.mem_cons, List.not_mem_nil, or_false] at hr
  rcases hr with rfl | rfl | rfl
  · exact ⟨_, _, undisturbed_backupLoop c.photons backup now b, hbackup, rfl,
      BlobMap.get?_put_of_ne (photons_backupKey_ne c) _ _⟩
  · exact ⟨_, _, undisturbed_backupLoop c.secrets backup now b, hbackup, rfl,
      BlobMap.get?_put_of_ne (secrets_backupKey_ne c) _ _⟩
  · exact ⟨_, _, undisturbed_scaleLoop hsettled, hlifecycle, rfl, rfl⟩

/-- The deployments have been scaled down to `settled`, and the snapshot shows those of `taken`
until the second round of their backup loop is `due`, and `settled` from then on. -/
structure Descended (c : Workspace.Config) (backup : BackupSchedule)
    (lifecycle : LifecycleSchedule) (taken settled : KeyStore) (due : Nat) (w : World) :
    Prop where
  orderly : w.Orderly
  keys : w.backend.keys = settled
  tasks : ∀ t ∈ w.tasks, ∃ r ∈ backupLoop c.deployments backup :: otherLoops c backup lifecycle,
    t.resumption = .round r
  snapshot :
    (w.backend.blobs.get? c.deployments.backupKey =
        some (c.deployments.snapshot w.clock taken).encode ∧
      ⟨due, .round (backupLoop c.deployments backup)⟩ ∈ w.tasks ∧
      ∀ t ∈ w.tasks, t = ⟨due, .round (backupLoop c.deployments backup)⟩ ∨
        ∃ r ∈ otherLoops c backup lifecycle, t.resumption = .round r) ∨
    (w.backend.blobs.get? c.deployments.backupKey =
        some (c.deployments.snapshot w.clock settled).encode ∧ due ≤ w.now)

namespace Descended

variable {taken settled : KeyStore} {due : Nat} {w : World} {t : Task} {others : List Task}

/-- A round of the backup loop of the deployments. -/
theorem resume_backupLoop (h : Descended c backup lifecycle taken settled due w)
    (hbackup : 0 < backup.afterSuccess) (htasks : w.tasks = t :: others)
    (ht : t.resumption = .round (backupLoop c.deployments backup)) (hdue : due ≤ t.wakesAt) :
    Descended c backup lifecycle taken settled due ((w.wake t others).resume t.resumption) ∧
      ∃ r pause b', w.Round t others r pause b' ((w.wake t others).resume t.resumption) := by
  have hround := h.orderly.round htasks
    (undisturbed_backupLoop c.deployments backup w.clock w.backend) ht hbackup
  refine ⟨⟨hround.orderly, ?_, fun u hu => ?_, Or.inr ⟨?_, ?_⟩⟩, _, _, _, hround⟩
  · rw [hround.backend, Repository.keys_backedUp, h.keys]
  · rw [hround.tasks] at hu
    rcases Task.mem_insert.1 hu with rfl | hu
    · exact ⟨_, .head _, rfl⟩
    · exact h.tasks u (htasks ▸ .tail t hu)
  · rw [hround.backend, hround.clock, Repository.get?_backedUp, h.keys]
  · rw [hround.now]
    exact hdue

/-- A round of another loop. -/
theorem round_otherLoop (h : Descended c backup lifecycle taken settled due w)
    (hbackup : 0 < backup.afterSuccess) (hlifecycle : 0 < lifecycle.recheck)
    (hsettled : Settled c.deployments settled) (htasks : w.tasks = t :: others) {r : Routine}
    (hr : r ∈ otherLoops c backup lifecycle) (ht : t.resumption = .round r) :
    ∃ pause b', w.Round t others r pause b' ((w.wake t others).resume t.resumption) ∧
      b'.keys = settled ∧ b'.blobs.get? c.deployments.backupKey =
        w.backend.blobs.get? c.deployments.backupKey := by
  obtain ⟨pause, b', hround, hpause, hkeys, hblob⟩ :=
    exists_undisturbed_otherLoop w.clock hbackup hlifecycle (h.keys ▸ hsettled) hr
  exact ⟨pause, b', h.orderly.round htasks hround ht hpause, hkeys.trans h.keys, hblob⟩

/-- Whichever task is the first to wake up, its round keeps the description. -/
theorem resume (h : Descended c backup lifecycle taken settled due w)
    (hbackup : 0 < backup.afterSuccess) (hlifecycle : 0 < lifecycle.recheck)
    (hsettled : Settled c.deployments settled) (htasks : w.tasks = t :: others) :
    Descended c backup lifecycle taken settled due ((w.wake t others).resume t.resumption) ∧
      ∃ r pause b', w.Round t others r pause b' ((w.wake t others).resume t.resumption) := by
  have hfirst : t ∈ w.tasks := htasks ▸ .head others
  -- Tasks after the round of another loop are the remaining ones and that loop.
  have hnext {r : Routine} {pause : Nat} {b' : Backend} {w' : World}
      (hr : r ∈ otherLoops c backup lifecycle) (hround : w.Round t others r pause b' w') :
      ∀ u ∈ w'.tasks, ∃ r ∈ backupLoop c.deployments backup :: otherLoops c backup lifecycle,
        u.resumption = .round r := by
    intro u hu
    rw [hround.tasks] at hu
    rcases Task.mem_insert.1 hu with rfl | hu
    · exact ⟨r, .tail _ hr, rfl⟩
    · exact h.tasks u (htasks ▸ .tail t hu)
  rcases h.snapshot with ⟨hblob, hloop, hall⟩ | ⟨hblob, hlate⟩
  · rcases List.mem_cons.1 (htasks ▸ hloop) with rfl | hloop
    · exact h.resume_backupLoop hbackup htasks rfl (Nat.le_refl due)
    rcases hall t hfirst with rfl | ⟨r, hr, ht⟩
    · exact h.resume_backupLoop hbackup htasks rfl (Nat.le_refl due)
    obtain ⟨pause, b', hround, hkeys, hsame⟩ :=
      h.round_otherLoop hbackup hlifecycle hsettled htasks hr ht
    refine ⟨⟨hround.orderly, hround.backend ▸ hkeys, hnext hr hround, Or.inl ⟨?_, ?_, ?_⟩⟩,
      r, pause, b', hround⟩
    · rw [hround.backend, hround.clock, hsame, hblob]
    · rw [hround.tasks]
      exact Task.mem_insert.2 (Or.inr hloop)
    · intro u hu
      rw [hround.tasks] at hu
      rcases Task.mem_insert.1 hu with rfl | hu
      · exact Or.inr ⟨r, hr, rfl⟩
      · exact hall u (htasks ▸ .tail t hu)
  · obtain ⟨r, hr, ht⟩ := h.tasks t hfirst
    have hahead : due ≤ t.wakesAt := hlate.trans (h.orderly.ahead t hfirst)
    rcases List.mem_cons.1 hr with rfl | hr
    · exact h.resume_backupLoop hbackup htasks ht hahead
    obtain ⟨pause, b', hround, hkeys, hsame⟩ :=
      h.round_otherLoop hbackup hlifecycle hsettled htasks hr ht
    refine ⟨⟨hround.orderly, hround.backend ▸ hkeys, hnext hr hround, Or.inr ⟨?_, ?_⟩⟩,
      r, pause, b', hround⟩
    · rw [hround.backend, hround.clock, hsame, hblob]
    · rw [hround.now]
      exact hahead

/-- As time passes the snapshot is overtaken when it is due, and no earlier. -/
theorem passThrough (h : Descended c backup lifecycle taken settled due w)
    (hbackup : 0 < backup.afterSuccess) (hlifecycle : 0 < lifecycle.recheck)
    (hsettled : Settled c.deployments settled) {moment : Nat} (hmoment : w.now ≤ moment) :
    (w.passThrough moment).backend.keys = settled ∧
      (w.passThrough moment).backend.blobs.get? c.deployments.backupKey =
        some (c.deployments.snapshot w.clock (if moment < due then taken else settled)).encode := by
  have hstep (w' : World) (t : Task) (others : List Task)
      (hw' : Descended c backup lifecycle taken settled due w' ∧ w'.clock = w.clock ∧
        w'.now ≤ moment) (htasks : w'.tasks = t :: others) (hdue : t.wakesAt ≤ moment) :
      (Descended c backup lifecycle taken settled due ((w'.wake t others).resume t.resumption) ∧
        ((w'.wake t others).resume t.resumption).clock = w.clock ∧
        ((w'.wake t others).resume t.resumption).now ≤ moment) ∧
      ((w'.wake t others).resume t.resumption).slack moment < w'.slack moment := by
    obtain ⟨hnext, r, pause, b', hround⟩ := hw'.1.resume hbackup hlifecycle hsettled htasks
    exact ⟨⟨hnext, hround.clock.trans hw'.2.1, hround.now.trans_le hdue⟩,
      hround.slack_lt moment hdue⟩
  obtain ⟨⟨hend, hclock, hnow⟩, hdone⟩ := World.runTasks_spec _ (fun w' hw' => hw'.1.orderly) hstep
    ⟨h, rfl, hmoment⟩ (h.orderly.slack_le moment)
  refine ⟨hend.keys, ?_⟩
  rcases hend.snapshot with ⟨hblob, hloop, -⟩ | ⟨hblob, hlate⟩
  · rw [if_pos (hdone _ hloop), ← hclock]
    exact hblob
  · rw [if_neg (Nat.not_lt.2 (hlate.trans hnow)), ← hclock]
    exact hblob

end Descended

/-! ### From the start on -/

/-- At the moment at which the tasks start, the deployments are backed up and scaled down. -/
theorem exists_descended_start (hstate : c.state = .terminated) {w : World}
    (hfaults : w.faults = []) (htasks : w.tasks = [])
    (hclean : c.deployments.IsClean w.backend.keys) (hbackup : 0 < backup.afterSuccess)
    (hlifecycle : 0 < lifecycle.recheck) :
    ∃ settled, Descended c backup lifecycle w.backend.keys settled (w.now + backup.afterSuccess)
        (w.start (tasks c backup lifecycle)) ∧
      (w.start (tasks c backup lifecycle)).now = w.now ∧
      (w.start (tasks c backup lifecycle)).clock = w.clock ∧
      c.deployments.IsClean settled ∧ ∀ id d', c.deployments.Stored settled id d' ↔
        ∃ d, c.deployments.Stored w.backend.keys id d ∧ d' = scaledDown w.clock d := by
  obtain ⟨settled, hterminated, hsettled⟩ := undisturbed_terminatedLoop w.clock
    (b := c.secrets.backedUp w.clock
      (c.deployments.backedUp w.clock (c.photons.backedUp w.clock w.backend))) hclean
  -- Each task has its first round on the backend that the one before it has left.
  have hstarted := World.started_start hfaults htasks
    (.cons (undisturbed_backupLoop c.photons backup w.clock w.backend) hbackup
      (.cons (undisturbed_backupLoop c.deployments backup w.clock _) hbackup
        (.cons (undisturbed_backupLoop c.secrets backup w.clock _) hbackup
          (.cons hterminated hlifecycle (.nil _)))))
  have heq : tasks c backup lifecycle = [backupLoop c.photons backup,
      backupLoop c.deployments backup, backupLoop c.secrets backup,
      terminatedLoop c.deployments lifecycle] := by
    rw [tasks, if_pos hstate]
    rfl
  rw [heq]
  have hmem (u : Task) := hstarted.mem_tasks u
  simp only [List.not_mem_nil, List.mem_cons, exists_eq_or_imp, exists_eq_left, or_false,
    false_or] at hmem
  refine ⟨settled, ⟨hstarted.orderly, ?_, fun u hu => ?_, Or.inl ⟨?_, ?_, fun u hu => ?_⟩⟩,
    hstarted.now, hstarted.clock, hsettled⟩
  · rw [hstarted.backend]
  · rcases (hmem u).1 hu with rfl | rfl | rfl | rfl
    · exact ⟨_, .tail _ (.head _), rfl⟩
    · exact ⟨_, .head _, rfl⟩
    · exact ⟨_, .tail _ (.tail _ (.head _)), rfl⟩
    · exact ⟨_, .tail _ (.tail _ (.tail _ (.head _))), rfl⟩
  · rw [hstarted.backend, hstarted.clock]
    exact BlobMap.get?_put_self _ _ _
  · exact (hmem _).2 (Or.inr (Or.inl rfl))
  · rcases (hmem u).1 hu with rfl | rfl | rfl | rfl
    · exact Or.inr ⟨_, .head _, rfl⟩
    · exact Or.inl rfl
    · exact Or.inr ⟨_, .tail _ (.head _), rfl⟩
    · exact Or.inr ⟨_, .tail _ (.tail _ (.head _)), rfl⟩

/-- The scale-down of a deployment can be undone from the snapshot exactly until the backup loop
of the deployments makes its second round: from then on the snapshot shows it without replicas. -/
theorem scaleDown_undoable_iff (hstate : c.state = .terminated) {w : World}
    (hfaults : w.faults = []) (htasks : w.tasks = []) (hclock : w.clock.IsMoment)
    (hclean : c.deployments.IsClean w.backend.keys) (hbackup : 0 < backup.afterSuccess)
    (hlifecycle : 0 < lifecycle.recheck) {id : String} {d : Deployment} {replicas : UInt32}
    (hd : c.deployments.Stored w.backend.keys id d)
    (hreplicas : d.spec.requirement.minReplicas = some replicas) (hpos : 0 < replicas) (t : Nat) :
    let b := ((w.start (tasks c backup lifecycle)).passThrough (w.now + t)).backend
    (∃ d', c.deployments.Stored b.keys id d' ∧ d'.spec.requirement.minReplicas = some 0) ∧
      (SnapshotShows c b id replicas ↔ t < backup.afterSuccess) := by
  intro b
  obtain ⟨settled, hstart, hnow, hclock', hclean', hstored⟩ :=
    exists_descended_start hstate hfaults htasks hclean hbackup hlifecycle
  have hsettled : Settled c.deployments settled := by
    intro id d' hd'
    obtain ⟨d, -, rfl⟩ := (hstored id d').1 hd'
    exact asksForReplicas_scaledDown w.clock d
  obtain ⟨hkeys, hblob⟩ := hstart.passThrough hbackup hlifecycle hsettled
    (hnow.trans_le (Nat.le_add_right w.now t))
  have hasks : asksForReplicas d = true := by
    rw [asksForReplicas, hreplicas]
    exact bne_iff_ne.2 (UInt32.ne_of_lt hpos).symm
  constructor
  · refine ⟨scaledDown w.clock d, ?_, ?_⟩
    · show c.deployments.Stored b.keys id _
      rw [hkeys]
      exact (hstored id _).2 ⟨d, hd, rfl⟩
    · rw [scaledDown, if_pos hasks]
      rfl
  · simp only [Nat.add_lt_add_iff_left] at hblob
    split at hblob
    · rename_i hlt
      rw [snapshotShows_iff_stored (hclock' ▸ hclock) hclean hblob]
      exact iff_of_true ⟨d, hd, hreplicas⟩ hlt
    · rename_i hge
      rw [snapshotShows_iff_stored (hclock' ▸ hclock) hclean' hblob]
      refine iff_of_false ?_ hge
      rintro ⟨d', hd', hreplicas'⟩
      have hnone := hsettled id d' hd'
      rw [asksForReplicas, hreplicas'] at hnone
      exact UInt32.ne_of_lt hpos (bne_eq_false_iff_eq.1 hnone).symm

/-- A deployment that asks for three replicas. -/
def threeReplicas : Deployment where
  id := "a"
  spec := ⟨"a", "m-9d3d52e5", { shape := "cpu.small", minReplicas := some 3 }, none, none, none⟩
  system := ⟨"i", "m", "", "", "", "", ""⟩
  status := ⟨.starting, ⟨"", ""⟩⟩
  createdAt := 0
  updatedAt := 0

/-- With a pause of a second, the scale-down cannot be undone after a second any more. -/
theorem scaleDown_undoable_iff_threeReplicas :
    let c : Workspace.Config := { scope := "ns", name := "w", state := .terminated }
    let keys := KeyStore.empty.write (c.deployments.key "a") (Kind.encode threeReplicas)
    let w := { World.initial ⟨1970, 1, 1, 0, 0, 0, 0⟩ with backend := ⟨keys, .empty⟩ }
    let started := w.start (tasks c { afterSuccess := 1000 } {})
    SnapshotShows c (started.passThrough 999).backend "a" 3 ∧
      ¬SnapshotShows c (started.passThrough 1000).backend "a" 3 := by
  intro c keys w started
  have hzero : (0 : Float).isFinite = true := by decide +kernel
  have hstorable : Kind.Storable threeReplicas := Deployment.storable ⟨hzero, hzero⟩
  have hclean : c.deployments.IsClean w.backend.keys :=
    c.deployments.isClean_empty.write hstorable rfl
  have hstored : c.deployments.Stored w.backend.keys "a" threeReplicas.reread :=
    (Repository.stored_write hstorable).2 rfl
  have hlaw := scaleDown_undoable_iff (c := c) (w := w) rfl rfl rfl (by decide) hclean
    (by decide : 0 < ({ afterSuccess := 1000 } : BackupSchedule).afterSuccess)
    (by decide : 0 < ({} : LifecycleSchedule).recheck) hstored rfl (by decide : (0 : UInt32) < 3)
  have hbefore : SnapshotShows c (started.passThrough (0 + 999)).backend "a" 3 :=
    (hlaw 999).2.2 (by decide)
  have hafter : ¬SnapshotShows c (started.passThrough (0 + 1000)).backend "a" 3 :=
    fun h => absurd ((hlaw 1000).2.1 h) (by decide)
  exact ⟨hbefore, hafter⟩

end Workplane.Background
