import Workplane.Background.Tasks
import Workplane.Proofs.Background.Terminated
import Workplane.Proofs.Program.Operations
import Workplane.Proofs.Program.Processes

/-!
# A backup comes before the scale-down

The loop of a terminated workspace makes no call that may change a key before it has saved a
snapshot of the deployments (`Background.backupFirst`), whatever calls fail or are given up and
whatever runs beside it.  If no other process changes deployments, each snapshot that is saved until
the first change is one of the deployments that were there at first: whoever saves one has listed
them before, and nothing has changed them since.

The snapshot is a written form, so it shows what written deployments are read as.  It shows a
deployment exactly as it was stored if the doubles of the deployment are read back as themselves,
and only then (`Background.SnapshotOf.same`).
-/

namespace Workplane

variable {σ α ι : Type} {b : Backend}

/-! ### Calls that may change a key -/

/-- The call may change a key. -/
def Call.isChange : Call → Bool
  | .swap .. | .delete _ => true
  | .get _ | .list _ | .putBlob .. | .getBlob _ => false

/-- The move is a call that may change a key, whatever became of it. -/
def Move.isChange (m : Move) : Bool :=
  m.request.any Call.isChange

theorem Move.verdict_eq_none {m : Move} (h : m.isChange = false) : m.verdict = none := by
  cases m with
  | clock now => rfl
  | call c reply =>
    cases c with
    | swap key expected value => exact nomatch h
    | delete key => exact nomatch h
    | _ => rfl

/-- A move with a verdict is a change of an entry. -/
theorem Move.isChange_of_verdict {m : Move} {verdict : Bool} (h : m.verdict = some verdict) :
    m.isChange = true := by
  by_contra hquiet
  rw [Move.verdict_eq_none (Bool.eq_false_iff.2 hquiet)] at h
  exact nomatch h

/-! ### Listings and blobs over a trace -/

/-- A listing shows the same as long as nothing changes a key of the repository. -/
theorem Trace.IsTrue.list_replay [Kind α] {r : Repository α} {t : Trace ι} (h : t.IsTrue b)
    (hno : ∀ s ∈ t, ∀ name, s.2.changes (r.key name) = false) :
    (b.replay t).keys.list r.root = b.keys.list r.root := by
  refine KeyStore.list_eq_of_get?_eq fun key hunder => ?_
  obtain ⟨name, rfl⟩ := KeyStore.isUnder_iff.1 hunder
  exact h.get?_replay fun s hs => hno s hs name

/-- A blob that no move puts is kept. -/
theorem Trace.get?_blobs_replay {t : Trace ι} {key : String}
    (hno : ∀ s ∈ t, s.2.puts? key = none) : (b.replay t).blobs.get? key = b.blobs.get? key := by
  induction t generalizing b with
  | nil => rfl
  | cons s t ih =>
    have hs := Move.get?_blobs_after b s.2 key
    rw [hno s (.head t), Option.none_or] at hs
    exact (ih fun s' hs' => hno s' (.tail s hs')).trans hs

/-- The blob is the one that was put last. -/
theorem Trace.get?_blobs_replay_of_last {u v : Trace ι} {s : ι × Move} {key : String}
    {data : ByteArray} (hs : s.2.puts? key = some data) (hv : ∀ s' ∈ v, s'.2.puts? key = none) :
    (b.replay (u ++ s :: v)).blobs.get? key = some data := by
  have hlast := Move.get?_blobs_after (b.replay u) s.2 key
  rw [hs, Option.some_or] at hlast
  rw [Trace.replay_append]
  exact (Trace.get?_blobs_replay hv).trans hlast

/-- If a blob was put, one of the moves that put it is the last of them. -/
theorem Trace.exists_last_put {t : Trace ι} {key : String}
    (hput : ∃ s ∈ t, (s.2.puts? key).isSome = true) :
    ∃ u s v data, t = u ++ s :: v ∧ s.2.puts? key = some data ∧
      ∀ s' ∈ v, s'.2.puts? key = none := by
  induction t using List.reverseRecOn with
  | nil => exact absurd hput (by simp)
  | append_singleton t s ih =>
    cases hs : s.2.puts? key with
    | some data => exact ⟨t, s, [], data, rfl, hs, by simp⟩
    | none =>
      obtain ⟨s', hs', hsome⟩ := hput
      rcases List.mem_append.1 hs' with hs' | hs'
      · obtain ⟨u, s₀, v, data, rfl, hs₀, hv⟩ := ih ⟨s', hs', hsome⟩
        refine ⟨u, s₀, v ++ [s], data, by simp, hs₀, fun s'' hs'' => ?_⟩
        rcases List.mem_append.1 hs'' with hs'' | hs''
        · exact hv s'' hs''
        · exact List.mem_singleton.1 hs'' ▸ hs
      · rw [List.mem_singleton.1 hs', hs] at hsome
        exact nomatch hsome

/-! ### Programs with a budget -/

/-- A program that is given up as a whole takes only steps that it may take, and has no result
then. -/
theorem Program.Holds.within {env : Environment σ} {post : α → σ → Prop} {p : Program α} {s : σ}
    (h : p.Holds env post s) (budget : Nat) :
    (p.within budget).Holds env (fun r s' => ∀ a, r = some a → post a s') s := by
  induction p generalizing budget s with
  | done a => exact fun a' ha' => Option.some.inj ha' ▸ h
  | clock next ih => exact ⟨h.1, fun now s' hs => ih now (h.2 now s' hs) budget⟩
  | call c limit next ih =>
    refine ⟨h.1, fun reply s' hs => ?_⟩
    have hnext := ih reply (h.2 reply s' hs) (budget - reply.took)
    obtain ⟨outcome, took⟩ := reply
    cases outcome with
    | answered answer => exact hnext
    | failed causes => exact hnext
    | gaveUp =>
      show Program.Holds env _ (if limit ≤ budget then _ else _) s'
      split
      · exact hnext
      · exact nofun

/-! ### What a process has saved -/

namespace Repository

variable [Kind α] {r : Repository α} {past : List Move} {permits : List Move → Option Call → Prop}

/-- The data is a snapshot of the objects that a listing has shown. -/
def HasTaken (r : Repository α) (past : List Move) (data : ByteArray) : Prop :=
  ∃ entries took takenAt, .call (.list r.root) ⟨.answered entries, took⟩ ∈ past ∧
    data = Snapshot.encode (α := α)
      ⟨r.scope, Kind.plural α, takenAt, entries.filterMap fun e => Kind.decode? e.value⟩

/-- A snapshot of the objects that a listing has shown was saved. -/
def HasSaved (r : Repository α) (past : List Move) : Prop :=
  ∃ data took, r.HasTaken past data ∧
    .call (.putBlob r.backupKey data) ⟨.answered (), took⟩ ∈ past

/-- The last two moves are a listing of the objects and a look at the clock, and the data is the
snapshot of what they have shown. -/
def HasJustTaken (r : Repository α) (past : List Move) (data : ByteArray) : Prop :=
  ∃ earlier entries took takenAt, past =
      earlier ++ [.call (.list r.root) ⟨.answered entries, took⟩, .clock takenAt] ∧
    data = Snapshot.encode (α := α)
      ⟨r.scope, Kind.plural α, takenAt, entries.filterMap fun e => Kind.decode? e.value⟩

theorem HasJustTaken.hasTaken {data : ByteArray} (h : r.HasJustTaken past data) :
    r.HasTaken past data := by
  obtain ⟨earlier, entries, took, takenAt, rfl, hdata⟩ := h
  exact ⟨entries, took, takenAt, List.mem_append_right _ (.head _), hdata⟩

/-- A snapshot that was just taken shows what the listing has answered and the moment. -/
theorem HasJustTaken.eq_encode {entries : List Entry} {took : Nat} {takenAt : Timestamp}
    {data : ByteArray} (h : r.HasJustTaken
      (past ++ [.call (.list r.root) ⟨.answered entries, took⟩, .clock takenAt]) data) :
    data = Snapshot.encode (α := α)
      ⟨r.scope, Kind.plural α, takenAt, entries.filterMap fun e => Kind.decode? e.value⟩ := by
  obtain ⟨earlier, entries', took', takenAt', hmoves, rfl⟩ := h
  obtain ⟨-, hlast⟩ := List.append_inj' hmoves rfl
  simp only [List.cons.injEq, Move.call.injEq, Move.clock.injEq, heq_eq_eq, true_and,
    Reply.mk.injEq, Outcome.answered.injEq, and_true] at hlast
  obtain ⟨⟨rfl, -⟩, rfl⟩ := hlast
  rfl

theorem HasTaken.append {data : ByteArray} (h : r.HasTaken past data) (later : List Move) :
    r.HasTaken (past ++ later) data := by
  obtain ⟨entries, took, takenAt, hlist, hdata⟩ := h
  exact ⟨entries, took, takenAt, List.mem_append_left _ hlist, hdata⟩

theorem HasSaved.append (h : r.HasSaved past) (later : List Move) :
    r.HasSaved (past ++ later) := by
  obtain ⟨data, took, htaken, hput⟩ := h
  exact ⟨data, took, htaken.append later, List.mem_append_left _ hput⟩

/-- A backup lists, looks at the clock and puts a snapshot of what was listed. -/
theorem ensures_backup (hlist : ∀ now, permits now (some (.list r.root)))
    (hclock : ∀ now, permits now none)
    (hput : ∀ now data, r.HasJustTaken now data →
      permits now (some (.putBlob r.backupKey data))) :
    Ensures (.history permits) (fun _ now => r.HasSaved now) (fun _ _ => True) r.backup past := by
  refine ensures_bind.2 (ensures_list (hlist past) ?_ fun _ _ _ _ _ _ => trivial)
  rintro entries took _ rfl
  refine ensures_bind.2 (ensures_lift.2 (Program.holds_now.2 ⟨hclock _, ?_⟩))
  rintro takenAt _ rfl
  have htaken : r.HasJustTaken (past ++ [.call (.list r.root) ⟨.answered entries, took⟩] ++
      [.clock takenAt]) (Snapshot.encode (α := α) ⟨r.scope, Kind.plural α, takenAt,
        entries.filterMap fun e => Kind.decode? e.value⟩) :=
    ⟨past, entries, took, takenAt, List.append_assoc .., rfl⟩
  refine ensures_bind.2 (ensures_request (hput _ _ htaken) ?_ fun _ _ _ _ _ _ => trivial)
  rintro answer took' _ rfl
  exact ensures_pure.2 ⟨_, took', htaken.hasTaken.append _, List.mem_append_right _ (.head [])⟩

end Repository

namespace Background

section Rounds

variable [Kind α] {past : List Move} {permits : List Move → Option Call → Prop}

/-- An attempt to back up that succeeds has saved a snapshot. -/
theorem holds_backupOnce {r : Repository α} {schedule : BackupSchedule}
    (hlist : ∀ now, permits now (some (.list r.root))) (hclock : ∀ now, permits now none)
    (hput : ∀ now data, r.HasJustTaken now data →
      permits now (some (.putBlob r.backupKey data))) :
    (backupOnce r schedule).Holds (.history permits) (fun ok now => ok = true → r.HasSaved now)
      past := by
  have hbackup : r.backup.run.Holds (.history permits) _ past :=
    Repository.ensures_backup hlist hclock hput
  refine Program.holds_bind.2 ((hbackup.within schedule.attempt).mono fun result now h => ?_)
  split
  · exact fun _ => h _ rfl
  · exact nofun

end Rounds

/-! ### The loop of a terminated workspace -/

variable {c : Workspace.Config} {backup : BackupSchedule} {lifecycle : LifecycleSchedule}

/-- A key may be changed once a snapshot of the deployments was saved. -/
def ChangesAfterSaving (c : Workspace.Config) (past : List Move) (call : Option Call) : Prop :=
  call.any Call.isChange = true → c.deployments.HasSaved past

/-- The loop of a terminated workspace: it has saved a snapshot when it is about to scale down. -/
inductive SavesFirst (c : Workspace.Config) (lifecycle : LifecycleSchedule) :
    Routine → List Move → Prop
  | first (past : List Move) :
    SavesFirst c lifecycle (terminatedLoop c.deployments lifecycle) past
  | later (past : List Move) (saved : c.deployments.HasSaved past) :
    SavesFirst c lifecycle (scaleLoop c lifecycle) past

/-- With a snapshot saved, a program may do anything. -/
theorem holds_of_hasSaved (p : Program α) {past : List Move}
    (h : c.deployments.HasSaved past) :
    p.Holds (.history (ChangesAfterSaving c)) (fun _ now => c.deployments.HasSaved now) past := by
  induction p generalizing past with
  | done a => exact h
  | call x limit next ih => exact ⟨fun _ => h, fun reply _ hs => ih reply (hs ▸ h.append _)⟩
  | clock next ih => exact ⟨fun _ => h, fun t _ hs => ih t (hs ▸ h.append _)⟩

/-- The loop of a terminated workspace saves before it changes anything. -/
theorem lawful_savesFirst (c : Workspace.Config) (lifecycle : LifecycleSchedule) :
    Process.Lawful (.history (ChangesAfterSaving c)) (SavesFirst c lifecycle) := by
  intro r past hr
  have hscale {now : List Move} (h : c.deployments.HasSaved now) : Process.RoundHolds
      (.history (ChangesAfterSaving c)) (SavesFirst c lifecycle) (scaleLoop c lifecycle).round now :=
    Process.roundHolds_forever ((holds_of_hasSaved _ h).mono fun _ now h => .later now h)
  cases hr with
  | first =>
    refine Process.roundHolds_untilSuccess ((holds_backupOnce ?_ ?_ ?_).mono fun ok now h => ?_)
    · exact fun _ => nofun
    · exact fun _ => nofun
    · exact fun _ _ _ => nofun
    · cases ok with
      | true => exact hscale (h rfl)
      | false => exact .first now
  | later saved => exact hscale ‹_›

/-! ### Snapshots of the deployments -/

/-- Only snapshots of deployments that were just listed are put under the key of the deployments. -/
def PutsSnapshots (c : Workspace.Config) (past : List Move) (call : Option Call) : Prop :=
  ∀ data, call = some (.putBlob c.deployments.backupKey data) →
    c.deployments.HasJustTaken past data

/-- The loops that a workspace may run. -/
inductive IsLoop (c : Workspace.Config) : Routine → Prop
  | photons (backup : BackupSchedule) : IsLoop c (backupLoop c.photons backup)
  | deployments (backup : BackupSchedule) : IsLoop c (backupLoop c.deployments backup)
  | secrets (backup : BackupSchedule) : IsLoop c (backupLoop c.secrets backup)
  | terminated (lifecycle : LifecycleSchedule) :
    IsLoop c (terminatedLoop c.deployments lifecycle)
  | scale (lifecycle : LifecycleSchedule) : IsLoop c (scaleLoop c lifecycle)

/-- Every task is one of the loops. -/
theorem isLoop_of_mem_tasks {r : Routine} (h : r ∈ tasks c backup lifecycle) : IsLoop c r := by
  rw [tasks, List.mem_append] at h
  rcases h with h | h
  · simp only [List.mem_cons, List.not_mem_nil, or_false] at h
    rcases h with rfl | rfl | rfl
    · exact .photons backup
    · exact .deployments backup
    · exact .secrets backup
  · split at h
    · rw [List.mem_singleton.1 h]
      exact .terminated lifecycle
    · exact absurd h List.not_mem_nil

/-- The loops of a workspace list, look at the clock and put snapshots of what they have just listed,
and the scale-down reads deployments and writes them without replicas. -/
theorem lawful_isLoop {permits : List Move → Option Call → Prop}
    (hread : ∀ past x, Call.IsRead x → permits past (some x)) (hclock : ∀ past, permits past none)
    (hphotons : ∀ past data, c.photons.HasJustTaken past data →
      permits past (some (.putBlob c.photons.backupKey data)))
    (hdeployments : ∀ past data, c.deployments.HasJustTaken past data →
      permits past (some (.putBlob c.deployments.backupKey data)))
    (hsecrets : ∀ past data, c.secrets.HasJustTaken past data →
      permits past (some (.putBlob c.secrets.backupKey data)))
    (hswap : ∀ past id revision d now, Kind.Storable d → permits past
      (some (.swap (c.deployments.key id) revision (Kind.encode (withoutReplicas d now))))) :
    Process.Lawful (.history permits) fun r _ => IsLoop c r := by
  have hbackup {α : Type} [Kind α] {r : Repository α} (schedule : BackupSchedule)
      (hput : ∀ past data, r.HasJustTaken past data →
        permits past (some (.putBlob r.backupKey data))) (past : List Move) :
      (backupOnce r schedule).Holds (.history permits) (fun _ _ => True) past :=
    (holds_backupOnce (fun _ => hread _ _ trivial) hclock hput).mono fun _ _ _ => trivial
  have hscale (lifecycle : LifecycleSchedule) (past : List Move) : Process.RoundHolds
      (.history permits) (fun r _ => IsLoop c r) (scaleLoop c lifecycle).round past := by
    have hpass : (scaleToZero { c.deployments with limit := lifecycle.attempt }).Holds
        (.history permits) (fun _ _ => True) past := by
      refine holds_scaleToZero (fun id _ _ => ?_) (fun _ _ => ?_) trivial
      · exact ensures_scaleOneToZero (hread _ _ trivial) fun e d _ _ _ hd _ =>
          ⟨hclock _, fun _ _ _ => hswap _ id e.revision d _ (Kind.storable_of_decode? hd)⟩
      · exact Repository.ensures_list (hread _ _ trivial) (fun _ _ _ _ => trivial)
          fun _ _ _ _ _ _ => trivial
    exact Process.roundHolds_forever (hpass.mono fun _ _ _ => .scale lifecycle)
  intro r past hr
  cases hr with
  | photons backup =>
    exact Process.roundHolds_forever ((hbackup backup hphotons past).mono
      fun _ _ _ => .photons backup)
  | deployments backup =>
    exact Process.roundHolds_forever ((hbackup backup hdeployments past).mono
      fun _ _ _ => .deployments backup)
  | secrets backup =>
    exact Process.roundHolds_forever ((hbackup backup hsecrets past).mono
      fun _ _ _ => .secrets backup)
  | terminated lifecycle =>
    refine Process.roundHolds_untilSuccess ((hbackup _ hdeployments past).mono fun ok now _ => ?_)
    cases ok with
    | true => exact hscale lifecycle now
    | false => exact .terminated lifecycle
  | scale lifecycle => exact hscale lifecycle past

/-- Every loop puts only snapshots that it has just taken. -/
theorem lawful_putsSnapshots (c : Workspace.Config) :
    Process.Lawful (.history (PutsSnapshots c)) fun r _ => IsLoop c r := by
  -- The backups of the other kinds have other keys.
  have hother {key : String} (hne : key ≠ c.deployments.backupKey) (past : List Move)
      (data : ByteArray) : PutsSnapshots c past (some (.putBlob key data)) :=
    fun _ hcall => absurd (Call.putBlob.inj (Option.some.inj hcall)).1 hne
  refine lawful_isLoop (fun past x hread data hcall => ?_) (fun _ => nofun)
    (fun past data _ => hother (photons_backupKey_ne c) past data) (fun past data htaken => ?_)
    (fun past data _ => hother (secrets_backupKey_ne c) past data) fun _ _ _ _ _ _ => nofun
  · rw [Option.some.inj hcall] at hread
    exact hread.elim
  · intro data' hcall
    obtain rfl := (Call.putBlob.inj (Option.some.inj hcall)).2
    exact htaken

/-! ### Runs -/

section Runs

variable [DecidableEq ι] {start now : ι → Process α} {t u : Trace ι} {i : ι}

/-- What was just listed were the objects that were there then. -/
theorem exists_listing_of_hasJustTaken {β : Type} [Kind β] {r : Repository β} (h : u.IsTrue b)
    {data : ByteArray} (htaken : r.HasJustTaken (u.own i) data) :
    ∃ before entries took taken after,
      u = before ++ (i, .call (.list r.root) ⟨.answered entries, took⟩) :: after ∧
        Trace.own after i = [.clock taken] ∧
        data = (r.snapshot taken (b.replay before).keys).encode := by
  obtain ⟨earlier, entries, took, taken, hown, rfl⟩ := htaken
  obtain ⟨before, after, rfl, -, hafter⟩ := Trace.exists_of_own_eq hown
  have hentries : entries = (b.replay before).keys.list r.root := h.at entries rfl
  exact ⟨before, entries, took, taken, after, rfl, hafter, by rw [hentries]; rfl⟩

/-- A snapshot of a listing shows the objects that were there at first, if none was changed. -/
theorem exists_eq_encode_of_hasJustTaken {β : Type} [Kind β] {r : Repository β} (h : u.IsTrue b)
    (hno : ∀ s ∈ u, ∀ name, s.2.changes (r.key name) = false) {data : ByteArray}
    (htaken : r.HasJustTaken (u.own i) data) :
    ∃ taken, (i, .clock taken) ∈ u ∧ data = (r.snapshot taken b.keys).encode := by
  obtain ⟨before, entries, took, taken, after, rfl, hafter, rfl⟩ :=
    exists_listing_of_hasJustTaken h htaken
  have hclock : (i, .clock taken) ∈ after := Trace.mem_own.1 (hafter ▸ .head [])
  have hbefore := (Trace.isTrue_append.1 h).1
  refine ⟨taken, List.mem_append_right _ (.tail _ hclock), ?_⟩
  unfold Repository.snapshot Repository.listed
  rw [hbefore.list_replay fun s hs => hno s (List.mem_append_left _ hs)]

/-- The last snapshot of the deployments is one of those in a store, and is read with what their
stored forms are read as. -/
structure SnapshotOf (c : Workspace.Config) (b : Backend) (s : KeyStore) : Prop where
  /-- The snapshot is read, with every deployment that the store holds. -/
  reads : SnapshotReads c b ((c.deployments.listed s).map Deployment.reread)
  /-- It shows a deployment as it is, if no other has the same identifier, exactly if what is read of
  the deployment is the same when it is written and read once more. -/
  same : ∀ id d, c.deployments.Stored s id d →
    (∀ id' d', c.deployments.Stored s id' d' → d'.id = d.id → d' = d) →
    ((∃ items, SnapshotReads c b items ∧ d ∈ items) ↔ d.reread = d)

/-- A blob with a snapshot of the keys is read as one. -/
theorem snapshotOf_of_get? {s : KeyStore} {taken : Timestamp} (htaken : taken.IsMoment)
    (hblob : b.blobs.get? c.deployments.backupKey = some (c.deployments.snapshot taken s).encode) :
    SnapshotOf c b s := by
  have hreads := snapshotReads_of_get? htaken hblob
  refine ⟨hreads, fun id d hd hsingle => ⟨?_, fun hsame => ?_⟩⟩
  · rintro ⟨items, hitems, hmem⟩
    rw [hitems.unique hreads] at hmem
    obtain ⟨d', hd', hreread⟩ := List.mem_map.1 hmem
    obtain ⟨id', hd'⟩ := Repository.mem_listed.1 hd'
    -- What is read of a deployment has its identifier, so it comes from none but itself.
    have hid : d'.id = d.id := by
      rw [← hreread]
      rfl
    obtain rfl := hsingle id' d' hd' hid
    exact hreread
  · exact ⟨_, hreads, List.mem_map.2 ⟨d, Repository.mem_listed.2 ⟨id, hd⟩, hsame⟩⟩

/-- In a run from `b` with the moves `t`, process `i` changes keys only after a backup. -/
structure BackupFirst (c : Workspace.Config) (backup : BackupSchedule)
    (lifecycle : LifecycleSchedule) (start : ι → Process α) (b : Backend) (t : Trace ι) (i : ι) :
    Prop where
  /-- Before a call that may change a key, the process has saved a snapshot of the deployments. -/
  saved : ∀ u m v, t = u ++ (i, m) :: v → m.isChange = true →
    c.deployments.HasSaved (Trace.own u i)
  /-- As long as it has saved none, the keys are as they were, unless other processes change
  them. -/
  unchanged : ¬c.deployments.HasSaved (t.own i) →
    (∀ j m, j ≠ i → (j, m) ∈ t → m.verdict ≠ some true) → (b.replay t).keys = b.keys
  /-- If the other processes are tasks of a workspace or put no snapshot of the deployments, and no
  deployment has been changed before a call that may change a key, then the last snapshot is one of
  all deployments that were there at first, taken at a time that the clock has shown. -/
  shows : (∀ j, j ≠ i → (∃ r ∈ tasks c backup lifecycle, start j = .pause r) ∨
      ∀ m data, (j, m) ∈ t → m.request ≠ some (.putBlob c.deployments.backupKey data)) →
    ∀ u m v, t = u ++ (i, m) :: v → m.isChange = true →
      (∀ s ∈ u, ∀ id, s.2.changes (c.deployments.key id) = false) →
      ∃ taken, (∃ j, (j, .clock taken) ∈ u) ∧
        (b.replay u).blobs.get? c.deployments.backupKey =
          some (c.deployments.snapshot taken b.keys).encode ∧
        (taken.IsMoment → SnapshotOf c (b.replay u) b.keys)

/-- The loop of a terminated workspace changes keys only after a backup, whatever runs beside it
and whichever calls fail. -/
theorem backupFirst (h : Concurrent start b t now)
    (hi : start i = .pause (terminatedLoop c.deployments lifecycle)) :
    BackupFirst c backup lifecycle start b t i := by
  have hsaved : ∀ u m v, t = u ++ (i, m) :: v → m.isChange = true →
      c.deployments.HasSaved (Trace.own u i) :=
    fun u m v => h.of_routine (lawful_savesFirst c lifecycle) hi (.first [])
  refine ⟨hsaved, fun hnot hothers => ?_, fun hothers u m v huv hm hno => ?_⟩
  · refine h.isTrue.keys_replay fun s hs => ?_
    obtain ⟨j, m⟩ := s
    rcases Decidable.em (j = i) with rfl | hne
    · -- A change would need a snapshot that was saved before.
      obtain ⟨u, v, rfl⟩ := List.append_of_mem hs
      have hquiet : m.isChange = false := by
        refine Bool.eq_false_iff.2 fun hm => hnot ?_
        rw [Trace.own_append]
        exact (hsaved u m v rfl hm).append _
      rw [Move.verdict_eq_none hquiet]
      exact nofun
    · exact hothers j m hne hs
  · have htrue : u.IsTrue b := (Trace.isTrue_append.1 (huv ▸ h.isTrue)).1
    -- Each process that puts a snapshot is a task, and has listed the deployments before.
    have hput : ∀ s ∈ u, ∀ data, s.2.puts? c.deployments.backupKey = some data →
        ∃ taken, (∃ j, (j, .clock taken) ∈ u) ∧
          data = (c.deployments.snapshot taken b.keys).encode := by
      rintro ⟨j, m'⟩ hs data hdata
      have hrequest := Move.request_of_puts? hdata
      obtain ⟨u₁, u₂, hu⟩ := List.append_of_mem hs
      have hsplit : t = u₁ ++ (j, m') :: (u₂ ++ (i, m) :: v) := by
        rw [huv, hu, List.append_assoc]
        rfl
      have htask : ∃ r, IsLoop c r ∧ start j = .pause r := by
        rcases Decidable.em (j = i) with rfl | hne
        · exact ⟨_, .terminated lifecycle, hi⟩
        rcases hothers j hne with ⟨r, hr, hj⟩ | hnone
        · exact ⟨r, isLoop_of_mem_tasks hr, hj⟩
        · exact absurd hrequest (hnone m' data (huv ▸ List.mem_append_left _ hs))
      obtain ⟨r, hr, hj⟩ := htask
      have hpermits := h.of_routine (lawful_putsSnapshots c) hj hr hsplit
      have hsub (s : ι × Move) (hs : s ∈ u₁) : s ∈ u := hu ▸ List.mem_append_left _ hs
      obtain ⟨taken, hclock, hencode⟩ := exists_eq_encode_of_hasJustTaken (i := j)
        (Trace.isTrue_append.1 (hu ▸ htrue)).1 (fun s hs => hno s (hsub s hs))
        (hpermits data hrequest)
      exact ⟨taken, ⟨j, hsub _ hclock⟩, hencode⟩
    obtain ⟨data, took, -, hmem⟩ := hsaved u m v huv hm
    have hsome : ∃ s ∈ u, (s.2.puts? c.deployments.backupKey).isSome = true :=
      ⟨_, Trace.mem_own.1 hmem, by simp [Move.puts?]⟩
    obtain ⟨u₁, s, u₂, data, hu, hs, hlast⟩ := Trace.exists_last_put hsome
    have hblob : (b.replay u).blobs.get? c.deployments.backupKey = some data := by
      rw [hu]
      exact Trace.get?_blobs_replay_of_last hs hlast
    have hmem : s ∈ u := hu ▸ List.mem_append_right _ (.head _)
    obtain ⟨taken, hclock, rfl⟩ := hput s hmem data hs
    exact ⟨taken, hclock, hblob, fun htaken => snapshotOf_of_get? htaken hblob⟩

end Runs

/-- If a deployment asks for replicas, the first round changes keys. -/
theorem keys_undisturbed_terminatedLoop_ne (clock : Timestamp)
    (hclean : c.deployments.IsClean b.keys) {id : String} {d : Deployment}
    (hd : c.deployments.Stored b.keys id d) (hasks : asksForReplicas d = true) :
    ((terminatedLoop c.deployments lifecycle).round.undisturbed clock b).2.keys ≠ b.keys := by
  obtain ⟨s, hround, -, hstored⟩ := undisturbed_terminatedLoop clock hclean
  rw [hround]
  rintro rfl
  have hdown := (hstored id _).2 ⟨d, hd, rfl⟩
  have hnone := asksForReplicas_scaledDown clock d
  rw [← hd.eq hdown, hasks] at hnone
  exact nomatch hnone

theorem storable_threeReplicas : Kind.Storable threeReplicas :=
  have hzero : (0 : Float).isFinite = true := by decide +kernel
  Deployment.storable ⟨hzero, hzero⟩

theorem isClean_threeReplicas : c.deployments.IsClean
    (KeyStore.empty.write (c.deployments.key "a") (Kind.encode threeReplicas)) :=
  c.deployments.isClean_empty.write storable_threeReplicas rfl

theorem stored_threeReplicas : c.deployments.Stored
    (KeyStore.empty.write (c.deployments.key "a") (Kind.encode threeReplicas)) "a"
    threeReplicas.reread :=
  (Repository.stored_write storable_threeReplicas).2 rfl

/-- A deployment whose processor share is read back as another double every time. -/
def largeCpu : Deployment :=
  let requirement := { cpu := 8.314568688035391e145, memory := 1, minReplicas := some 3 }
  { threeReplicas with spec := { threeReplicas.spec with requirement } }

theorem storable_largeCpu : Kind.Storable largeCpu :=
  Deployment.storable ⟨by decide +kernel, by decide +kernel⟩

/-- The first round of the loop beside the backup loop of the deployments: when it comes to a change,
the snapshot shows one deployment as it was, but not the other one. -/
theorem backupFirst_largeCpu :
    let c : Workspace.Config := { scope := "ns", name := "w", state := .terminated }
    let large : Deployment := { largeCpu with id := "b" }
    let b : Backend :=
      ⟨(KeyStore.empty.write (c.deployments.key "a") (Kind.encode threeReplicas)).write
        (c.deployments.key "b") (Kind.encode large), .empty⟩
    let start : Bool → Process Unit := fun other =>
      .pause (if other then backupLoop c.deployments {} else terminatedLoop c.deployments {})
    ∃ t now u m v, Concurrent start b t now ∧ BackupFirst c {} {} start b t false ∧
      t = u ++ (false, m) :: v ∧ m.isChange = true ∧
      ∃ items, SnapshotReads c (b.replay u) items ∧
        (∃ d, c.deployments.Stored b.keys "a" d ∧ d ∈ items) ∧
        ∃ d, c.deployments.Stored b.keys "b" d ∧ d ∉ items := by
  intro c large b start
  have hlarge : Kind.Storable large := Deployment.storable storable_largeCpu.inRange
  have hclean : c.deployments.IsClean b.keys := isClean_threeReplicas.write hlarge rfl
  have ha : c.deployments.Stored b.keys "a" threeReplicas.reread :=
    (Repository.stored_write hlarge).2 ((if_neg (by decide)).mpr stored_threeReplicas)
  have hb : c.deployments.Stored b.keys "b" large.reread := (Repository.stored_write hlarge).2 rfl
  have hsingle {id id' : String} {d d' : Deployment} (hd : c.deployments.Stored b.keys id d)
      (hd' : c.deployments.Stored b.keys id' d') (hid : d'.id = d.id) : d' = d := by
    obtain rfl : d.id = id := hclean.objectName_eq hd
    obtain rfl : d'.id = id' := hclean.objectName_eq hd'
    exact (hid ▸ hd').eq hd
  have hpause : start false = .pause (terminatedLoop c.deployments {}) := rfl
  obtain ⟨t, hown, hend, hrun⟩ :=
    Concurrent.nil.reaches_round (rfl : b.replay [] = b) hpause ⟨1970, 1, 1, 0, 0, 0, 0⟩
  have hfirst : BackupFirst c {} {} start b t false := backupFirst hrun hpause
  have hne : (b.replay t).keys ≠ b.keys := by
    rw [show b.replay t = _ from hend]
    exact keys_undisturbed_terminatedLoop_ne _ hclean ha rfl
  obtain ⟨u, ⟨j, m⟩, v, rfl, hverdict, hbefore⟩ := hrun.isTrue.exists_first_change hne
  obtain rfl : j = false := (hown (j, m) (List.mem_append_right _ (.head v))).1
  have hm : m.isChange = true := Move.isChange_of_verdict hverdict
  obtain ⟨taken, ⟨j, hclock⟩, -, hshown⟩ := hfirst.shows (fun j hj => by
    obtain rfl : j = true := Bool.eq_true_of_not_eq_false hj
    exact Or.inl ⟨backupLoop c.deployments {}, by simp [tasks], rfl⟩)
    u m v rfl hm fun s hs id => hbefore s hs _
  obtain rfl := (hown (j, .clock taken) (List.mem_append_left _ hclock)).2 taken rfl
  have hof : SnapshotOf c (b.replay u) b.keys := hshown (by decide)
  have hkept : threeReplicas.reread.reread = threeReplicas.reread :=
    threeReplicas.reread.reread_eq_iff.2 ⟨by decide +kernel, by decide +kernel⟩
  obtain ⟨items, hitems, hmem⟩ := (hof.same "a" _ ha fun _ _ => hsingle ha).2 hkept
  refine ⟨_, _, u, m, v, hrun, hfirst, rfl, hm, items, hitems, ⟨_, ha, hmem⟩, _, hb, fun hnot => ?_⟩
  have hcpu : Double.reread largeCpu.reread.spec.requirement.cpu ≠
      largeCpu.reread.spec.requirement.cpu := by decide +kernel
  have hspec : large.reread.spec = largeCpu.reread.spec := rfl
  have hsame := (hof.same "b" _ hb fun _ _ => hsingle hb).1 ⟨items, hitems, hnot⟩
  exact hcpu (hspec ▸ (large.reread.reread_eq_iff.1 hsame).1)

end Background

end Workplane
