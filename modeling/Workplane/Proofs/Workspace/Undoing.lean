import Workplane.Proofs.Http.Atomic
import Workplane.Proofs.Workspace.Frozen

/-!
# How long a scale-down can be undone, whatever happens

The law of `Background.scaleDown_undoable_iff` holds whenever the tasks of a terminated workspace
make their moves, whichever calls fail and whatever requests are handled beside them: the last
snapshot shows a deployment with its replicas exactly if the deployments were listed for it before
the deployment was scaled down (`Workspace.scaleDown_undoable_iff_listed`).

A snapshot is put by a process that has just listed the deployments, so it is one of the store at
the moment of that listing (`Workspace.ListedLast.blob`).  At that moment a deployment has all its
replicas or none, since the first change of its key takes them away for good
(`Workspace.exists_settled`).
-/

namespace Workplane.Workspace

open Background Http

variable {ι κ : Type} {b : Backend} {c : Config} {backup : BackupSchedule}
  {lifecycle : LifecycleSchedule} {requests : κ → String × Request} {s s' : KeyStore}

/-! ### Stores that are scaled down -/

theorem ScaledOnly.isClean (h : ScaledOnly c s s') (hs : c.deployments.IsClean s) :
    c.deployments.IsClean s' := by
  intro id e' he'
  obtain ⟨e, he⟩ : ∃ e, s.get? (c.deployments.key id) = some e := by
    rw [← Option.isSome_iff_exists, ← h.present, he']
    rfl
  obtain ⟨d, hd, hid⟩ := hs id e he
  rcases h.descends id e e' he he' with rfl | ⟨d', now, hd', -, -, hdecode⟩
  · exact ⟨d, hd, hid⟩
  · obtain rfl := Option.some.inj (hd.symm.trans hd')
    exact ⟨_, hdecode, hid⟩

/-- A deployment without replicas stays as it is. -/
theorem ScaledOnly.stored_of_not_asks (h : ScaledOnly c s s') {id : String} {d : Deployment}
    (hd : c.deployments.Stored s id d) (hnone : asksForReplicas d = false) :
    c.deployments.Stored s' id d := by
  obtain ⟨e, he, hdecode⟩ := hd
  obtain ⟨e', he'⟩ : ∃ e', s'.get? (c.deployments.key id) = some e' := by
    rw [← Option.isSome_iff_exists, h.present, he]
    rfl
  rcases h.descends id e e' he he' with rfl | ⟨d', now, hd', hasks, -, -⟩
  · exact ⟨e', he', hdecode⟩
  · obtain rfl := Option.some.inj (hdecode.symm.trans hd')
    rw [hnone] at hasks
    exact nomatch hasks

/-! ### Changes of the tasks -/

/-- Keys are changed only by writing a deployment without replicas. -/
def WritesWithoutReplicas (c : Config) (_ : List Move) (call : Option Call) : Prop :=
  ∀ x, call = some x → x.isChange = true → ∃ id revision d now, Kind.Storable d ∧
    x = .swap (c.deployments.key id) revision (Kind.encode (withoutReplicas d now))

theorem lawful_writesWithoutReplicas (c : Config) :
    Process.Lawful (.history (WritesWithoutReplicas c)) fun r _ => IsLoop c r := by
  have hput (past : List Move) (key : String) (data : ByteArray) :
      WritesWithoutReplicas c past (some (.putBlob key data)) := by
    rintro _ hx hchange
    rw [← Option.some.inj hx] at hchange
    exact nomatch hchange
  refine lawful_isLoop (fun past x hread y hy hchange => ?_) (fun _ => nofun)
    (fun past data _ => hput past _ data) (fun past data _ => hput past _ data)
    (fun past data _ => hput past _ data) fun past id revision d now hd x hx _ => ?_
  · obtain rfl := Option.some.inj hy
    cases x with
    | swap key revision value => exact hread.elim
    | delete key => exact hread.elim
    | _ => exact nomatch hchange
  · exact ⟨id, revision, d, now, hd, (Option.some.inj hx).symm⟩

/-- What such a change leaves at the key of a deployment has no replicas. -/
theorem WritesWithoutReplicas.exists_stored {past : List Move} {m : Move}
    (h : WritesWithoutReplicas c past m.request) (hm : m.IsTrue b) {id : String}
    (hchanges : m.changes (c.deployments.key id) = true) :
    ∃ d, c.deployments.Stored (m.after b).keys id d ∧
      d.spec.requirement.minReplicas = some 0 := by
  have hverdict := hm.verdict_of_changes hchanges
  obtain ⟨x, hx, hchange⟩ : ∃ x, m.request = some x ∧ x.isChange = true := by
    rw [← Option.any_eq_true]
    exact Move.isChange_of_verdict hverdict
  obtain ⟨id', revision, d, now, hd, rfl⟩ := h x hx hchange
  obtain rfl : id' = id := c.deployments.key_injective (Move.eq_of_changes_of_swap hx hchanges)
  refine ⟨(withoutReplicas d now).reread, ?_, rfl⟩
  rw [(hm.swap_written hx hverdict).2]
  exact (Repository.stored_write (storable_withoutReplicas hd now)).2 (if_pos rfl ▸ rfl)

section Runs

variable [DecidableEq κ] {t u : Trace (Fin (tasks c backup lifecycle).length ⊕ κ)}
  {now : Fin (tasks c backup lifecycle).length ⊕ κ → Process Response}

/-- In a terminated workspace only the loop of a task changes keys, and it was begun for that. -/
theorem exists_task_of_changes (h : Concurrent (processes c backup lifecycle requests) b t now)
    (hstate : c.state = .terminated) {i : Fin (tasks c backup lifecycle).length ⊕ κ} {m : Move}
    (hm : (i, m) ∈ t) (hverdict : m.verdict = some true) :
    processes c backup lifecycle requests i = .pause (terminatedLoop c.deployments lifecycle) := by
  have hwritable : c.state.isWritable = false := by
    rw [hstate]
    rfl
  by_contra hother
  refine verdict_ne_of_not_isWritable h hwritable (fun k hk => ?_) hm hverdict
  rcases tasks_getElem k.val k.isLt with ⟨hlt, -⟩ | ⟨-, -, heq⟩
  · exact hlt
  · subst hk
    exact absurd (congrArg Process.pause heq) hother

/-- From its first change on, a deployment has no replicas. -/
theorem exists_settled (h : Concurrent (processes c backup lifecycle requests) b t now)
    (hstate : c.state = .terminated) {id : String}
    (hchanged : ∃ s ∈ t, s.2.changes (c.deployments.key id) = true) :
    ∃ d, c.deployments.Stored (b.replay t).keys id d ∧
      d.spec.requirement.minReplicas = some 0 := by
  obtain ⟨⟨i, m⟩, hmem, hchanges⟩ := hchanged
  obtain ⟨u, v, ht⟩ := List.append_of_mem hmem
  have hm : m.IsTrue (b.replay u) := (ht ▸ h.isTrue).at
  have hstart := exists_task_of_changes h hstate hmem (hm.verdict_of_changes hchanges)
  have hwrites : WritesWithoutReplicas c (Trace.own u i) m.request :=
    h.of_routine (lawful_writesWithoutReplicas c) hstart (.terminated lifecycle) ht
  obtain ⟨d, hd, hreplicas⟩ := hwrites.exists_stored hm hchanges
  have hafter : c.deployments.Stored (b.replay (u ++ [(i, m)])).keys id d := by
    rw [Trace.replay_append]
    exact hd
  have hsince := scaledOnly_replay (u := u ++ [(i, m)]) (v := v) h hstate (by rw [ht]; simp)
  exact ⟨d, hsince.stored_of_not_asks hafter (by rw [asksForReplicas, hreplicas]; rfl), hreplicas⟩

/-! ### Snapshots -/

/-- The last snapshot of the deployments was put by a process that has listed them after the moves
`u`, and has then only looked at the clock. -/
def ListedLast [DecidableEq ι] (c : Config) (t u : Trace ι) : Prop :=
  ∃ i entries took taken w m v, t =
      u ++ (i, .call (.list c.deployments.root) ⟨.answered entries, took⟩) :: w ++ (i, m) :: v ∧
    Trace.own w i = [.clock taken] ∧ (m.puts? c.deployments.backupKey).isSome = true ∧
    ∀ s ∈ v, s.2.puts? c.deployments.backupKey = none

/-- Only tasks put snapshots, and these are of deployments that were just listed. -/
theorem hasJustTaken_of_puts? (h : Concurrent (processes c backup lifecycle requests) b t now)
    {u v : Trace (Fin (tasks c backup lifecycle).length ⊕ κ)}
    {i : Fin (tasks c backup lifecycle).length ⊕ κ} {m : Move} (ht : t = u ++ (i, m) :: v)
    {data : ByteArray} (hdata : m.puts? c.deployments.backupKey = some data) :
    c.deployments.HasJustTaken (Trace.own u i) data := by
  have hrequest := Move.request_of_puts? hdata
  cases i with
  | inl k =>
    exact h.of_routine (lawful_putsSnapshots c) rfl
      (isLoop_of_mem_tasks (List.getElem_mem k.isLt)) ht data hrequest
  | inr x =>
    have hpermits := (h.of_program rfl (holds_handle_asks c (requests x).1 (requests x).2)).2 u m v
      ht
    exact absurd hrequest (hpermits.ne_putBlob _ _)

/-- The last snapshot is one of the deployments at the moment of its listing. -/
theorem ListedLast.blob (h : Concurrent (processes c backup lifecycle requests) b t now)
    (hlast : ListedLast c t u) : ∃ i taken, (i, .clock taken) ∈ t ∧
      (b.replay t).blobs.get? c.deployments.backupKey =
        some (c.deployments.snapshot taken (b.replay u).keys).encode := by
  obtain ⟨i, entries, took, taken, w, m, v, rfl, hown, hput, hv⟩ := hlast
  obtain ⟨data, hdata⟩ := Option.isSome_iff_exists.1 hput
  have htaken := hasJustTaken_of_puts? h rfl hdata
  have hmoves : Trace.own (u ++ (i, .call (.list c.deployments.root) ⟨.answered entries, took⟩) :: w)
      i = Trace.own u i ++
        [.call (.list c.deployments.root) ⟨.answered entries, took⟩, .clock taken] := by
    rw [Trace.own_append, ← hown]
    simp [Trace.own]
  rw [hmoves] at htaken
  have hclock : (i, .clock taken) ∈ w := Trace.mem_own.1 (hown ▸ .head [])
  have hentries : entries = (b.replay u).keys.list c.deployments.root :=
    (Trace.isTrue_append.1 h.isTrue).1.at entries rfl
  refine ⟨i, taken, List.mem_append_left _ (List.mem_append_right _ (.tail _ hclock)), ?_⟩
  rw [Trace.get?_blobs_replay_of_last hdata hv, htaken.eq_encode, hentries]
  rfl

/-- If a deployment was changed, then a snapshot was put before that. -/
theorem exists_listedLast (h : Concurrent (processes c backup lifecycle requests) b t now)
    (hstate : c.state = .terminated)
    (hchanged : ∃ s ∈ t, ∃ id, s.2.changes (c.deployments.key id) = true) :
    ∃ u, ListedLast c t u := by
  obtain ⟨⟨i, m⟩, hmem, id, hchanges⟩ := hchanged
  obtain ⟨u, v, ht⟩ := List.append_of_mem hmem
  have hm : m.IsTrue (b.replay u) := (ht ▸ h.isTrue).at
  have hverdict := hm.verdict_of_changes hchanges
  have hstart := exists_task_of_changes h hstate hmem hverdict
  obtain ⟨data, took, -, hput⟩ := h.of_routine (lawful_savesFirst c lifecycle) hstart (.first []) ht
    (Move.isChange_of_verdict hverdict)
  have hsome : ∃ s ∈ t, (s.2.puts? c.deployments.backupKey).isSome = true :=
    ⟨_, ht ▸ List.mem_append_left _ (Trace.mem_own.1 hput), by simp [Move.puts?]⟩
  obtain ⟨u, ⟨j, m⟩, v, data, rfl, hdata, hv⟩ := Trace.exists_last_put hsome
  obtain ⟨before, entries, took, taken, after, rfl, hafter, -⟩ :=
    exists_listing_of_hasJustTaken (Trace.isTrue_append.1 h.isTrue).1
      (hasJustTaken_of_puts? h rfl hdata)
  exact ⟨before, j, entries, took, taken, after, m, v, rfl, hafter, by rw [hdata]; rfl, hv⟩

/-- From the change of a deployment on, it has no replicas and there is a last snapshot; and the
last snapshot shows the deployment with its replicas exactly if the deployments were listed for it
before the change. -/
theorem scaleDown_undoable_iff_listed
    (h : Concurrent (processes c backup lifecycle requests) b t now)
    (hstate : c.state = .terminated) (hclock : ∀ i shown, (i, .clock shown) ∈ t → shown.IsMoment)
    (hclean : c.deployments.IsClean b.keys) {id : String} {d : Deployment} {replicas : UInt32}
    (hd : c.deployments.Stored b.keys id d)
    (hreplicas : d.spec.requirement.minReplicas = some replicas) (hpos : 0 < replicas) :
    ((∃ s ∈ t, s.2.changes (c.deployments.key id) = true) →
      (∃ d', c.deployments.Stored (b.replay t).keys id d' ∧
        d'.spec.requirement.minReplicas = some 0) ∧ ∃ u, ListedLast c t u) ∧
    ∀ u, ListedLast c t u → (SnapshotShows c (b.replay t) id replicas ↔
      ∀ s ∈ u, s.2.changes (c.deployments.key id) = false) := by
  refine ⟨fun hchanged => ⟨exists_settled h hstate hchanged, exists_listedLast h hstate ?_⟩,
    fun u hlast => ?_⟩
  · obtain ⟨s, hs, hchanges⟩ := hchanged
    exact ⟨s, hs, id, hchanges⟩
  obtain ⟨i, taken, htaken, hblob⟩ := hlast.blob h
  obtain ⟨v, rfl⟩ : ∃ v, t = u ++ v := by
    obtain ⟨i, entries, took, taken, w, m, v, rfl, -⟩ := hlast
    exact ⟨_, List.append_assoc ..⟩
  obtain ⟨now', hu⟩ := h.exists_of_append
  have hclean' : c.deployments.IsClean (b.replay u).keys :=
    (scaledOnly_replay hu hstate (List.nil_append u).symm).isClean hclean
  rw [snapshotShows_iff_stored (hclock i taken htaken) hclean' hblob]
  constructor
  · rintro ⟨d', hd', hreplicas'⟩ s hs
    by_contra hchanges
    obtain ⟨d₀, hd₀, hnone⟩ := exists_settled hu hstate ⟨s, hs, Bool.of_not_eq_false hchanges⟩
    rw [hd'.eq hd₀, hnone] at hreplicas'
    rw [← Option.some.inj hreplicas'] at hpos
    exact absurd hpos (by decide)
  · intro hno
    obtain ⟨e, he, hdecode⟩ := hd
    exact ⟨d, ⟨e, (hu.isTrue.get?_replay hno).trans he, hdecode⟩, hreplicas⟩

variable (backup lifecycle requests) in
/-- In every terminated workspace the snapshot that shows a deployment with its replicas can be
overwritten by one that does not: the loop makes its first round, and then the deployments are backed
up beside it. -/
theorem exists_run_overwritten (hstate : c.state = .terminated)
    (hclean : c.deployments.IsClean b.keys) {id : String} {d : Deployment} {replicas : UInt32}
    (hd : c.deployments.Stored b.keys id d)
    (hreplicas : d.spec.requirement.minReplicas = some replicas) (hpos : 0 < replicas)
    {clock : Timestamp} (hmoment : clock.IsMoment) :
    ∃ t v now now', Concurrent (processes c backup lifecycle requests) b t now ∧
      Concurrent (processes c backup lifecycle requests) b (t ++ v) now' ∧
      (∀ i shown, (i, .clock shown) ∈ t ++ v → shown.IsMoment) ∧
      (∃ s ∈ t, s.2.changes (c.deployments.key id) = true) ∧
      SnapshotShows c (b.replay t) id replicas ∧
      ¬SnapshotShows c (b.replay (t ++ v)) id replicas := by
  have hlength : (tasks c backup lifecycle).length = 4 := by
    simp [tasks, hstate]
  have hloop : processes c backup lifecycle requests (.inl ⟨3, by omega⟩) =
      .pause (terminatedLoop c.deployments lifecycle) := by
    simp [processes, tasks, hstate]
  have hbackup : processes c backup lifecycle requests (.inl ⟨1, by omega⟩) =
      .pause (backupLoop c.deployments backup) := rfl
  obtain ⟨t, ht, hend, hrun⟩ := Concurrent.nil.reaches_round (rfl : b.replay [] = b) hloop clock
  obtain ⟨v, hv, hend', hrun'⟩ := hrun.reaches_round rfl
    ((Function.update_of_ne (by simp) ..).trans hbackup) clock
  obtain ⟨s, hround : (terminatedLoop c.deployments lifecycle).round.undisturbed clock b = _,
    hclean', hdown⟩ := undisturbed_terminatedLoop clock hclean
  have hend : b.replay t = { c.deployments.backedUp clock b with keys := s } :=
    Eq.trans hend (congrArg Prod.snd hround)
  have hkeys : (b.replay t).keys = s := by
    rw [hend]
  have hend' : b.replay (t ++ v) = c.deployments.backedUp clock (b.replay t) :=
    Eq.trans hend' (congrArg Prod.snd (undisturbed_backupLoop c.deployments backup clock _))
  have hnone {d' : Deployment} (hd' : c.deployments.Stored s id d') :
      d'.spec.requirement.minReplicas ≠ some replicas := by
    intro hsome
    obtain ⟨d, -, rfl⟩ := (hdown id d').1 hd'
    have hasks := asksForReplicas_scaledDown clock d
    rw [asksForReplicas, hsome] at hasks
    obtain rfl : replicas = 0 := bne_eq_false_iff_eq.1 hasks
    exact absurd hpos (by decide)
  refine ⟨t, v, _, _, hrun, hrun', fun i shown h => ?_, ?_, ?_, ?_⟩
  · obtain rfl : shown = clock := by
      rcases List.mem_append.1 h with h | h
      · exact (ht _ h).2 shown rfl
      · exact (hv _ h).2 shown rfl
    exact hmoment
  · by_contra hunchanged
    have hget : (b.replay t).keys.get? _ = _ := hrun.isTrue.get?_replay fun s hs =>
      Bool.eq_false_iff.2 fun h => hunchanged ⟨s, hs, h⟩
    obtain ⟨e, he, hdecode⟩ := hd
    rw [hkeys] at hget
    exact hnone ⟨e, hget.trans he, hdecode⟩ hreplicas
  -- The first snapshot is of the keys at first, and the second one of what the loop has left.
  · refine (snapshotShows_iff_stored hmoment hclean ?_).2 ⟨d, hd, hreplicas⟩
    rw [hend]
    exact Repository.get?_backedUp c.deployments clock b
  · have hblob := Repository.get?_backedUp c.deployments clock (b.replay t)
    rw [← hend', hkeys] at hblob
    rw [snapshotShows_iff_stored hmoment hclean' hblob]
    rintro ⟨d', hd', hsome⟩
    exact hnone hd' hsome

end Runs

/-- After the first round of the loop the snapshot shows the replicas, and it was listed before the
change; after the first backup that follows it does not show them any more. -/
theorem scaleDown_undoable_iff_listed_threeReplicas :
    let c : Config := { scope := "ns", name := "w", state := .terminated }
    let b : Backend :=
      ⟨KeyStore.empty.write (c.deployments.key "a") (Kind.encode threeReplicas), .empty⟩
    let requests : Unit → String × Request :=
      fun _ => ("1", ⟨.delete, "/api/v1/deployments/a", "".toUTF8⟩)
    ∃ t v now now', Concurrent (processes c {} {} requests) b t now ∧
      Concurrent (processes c {} {} requests) b (t ++ v) now' ∧
      (SnapshotShows c (b.replay t) "a" 3 ∧
        ∃ u, ListedLast c t u ∧ ∀ s ∈ u, s.2.changes (c.deployments.key "a") = false) ∧
      ¬SnapshotShows c (b.replay (t ++ v)) "a" 3 ∧
        ∃ u, ListedLast c (t ++ v) u ∧ ∃ s ∈ u, s.2.changes (c.deployments.key "a") = true := by
  intro c b requests
  have hclean : c.deployments.IsClean b.keys := isClean_threeReplicas
  have hstored : c.deployments.Stored b.keys "a" threeReplicas.reread := stored_threeReplicas
  have hmoment : Timestamp.IsMoment ⟨1970, 1, 1, 0, 0, 0, 0⟩ := by decide
  obtain ⟨t, v, now, now', hrun, hrun', hclock, hchanged, hbefore, hafter⟩ :=
    exists_run_overwritten {} {} requests rfl hclean hstored (rfl : _ = some (3 : UInt32))
      (by decide) hmoment
  have hlaw := scaleDown_undoable_iff_listed hrun rfl
    (fun i shown h => hclock i shown (List.mem_append_left v h)) hclean hstored rfl (by decide)
  have hlaw' := scaleDown_undoable_iff_listed hrun' rfl hclock hclean hstored rfl (by decide)
  obtain ⟨u, hlast⟩ := (hlaw.1 hchanged).2
  obtain ⟨s, hs, hchanges⟩ := hchanged
  obtain ⟨u', hlast'⟩ := (hlaw'.1 ⟨s, List.mem_append_left v hs, hchanges⟩).2
  refine ⟨t, v, now, now', hrun, hrun', ⟨hbefore, u, hlast, (hlaw.2 u hlast).1 hbefore⟩, hafter,
    u', hlast', ?_⟩
  by_contra hnone
  exact hafter ((hlaw'.2 u' hlast').2 fun s hs => Bool.eq_false_iff.2 fun h => hnone ⟨s, hs, h⟩)

end Workplane.Workspace
