import Workplane.Proofs.Background.Progress
import Workplane.Proofs.Background.Schedule
import Workplane.Proofs.Workspace.Integrity

/-!
# Backups of one kind without those of another

Each kind that users own has a backup loop, which makes calls of its own: it lists the objects of its
kind and puts their snapshot.  Where two runs differ only in what becomes of the calls of one kind,
the loops of the other kinds do the same in both (`Background.isolated`).  Only the loop of a
terminated workspace writes keys; so it is one of the tasks that are not affected, unless the calls
about the deployments are those that differ.  All of this is about the runs of the tasks that a
workspace starts, in which the loops also keep their schedules
(`Background.backupsOnSchedule_run`) and time does not stop.
-/

namespace Workplane

open Workspace (Config)

namespace Background

variable {c : Config} {backup : BackupSchedule} {lifecycle : LifecycleSchedule}

/-! ### The kinds and their calls -/

/-- The kinds that users own. -/
inductive UserKind where
  | photons
  | deployments
  | secrets
  deriving DecidableEq, Repr

namespace UserKind

/-- The place of the backup loop of a kind among the tasks. -/
def task : UserKind → Nat
  | photons => 0
  | deployments => 1
  | secrets => 2

/-- What the keys of a kind start with. -/
def root (c : Config) : UserKind → String
  | photons => c.photons.root
  | deployments => c.deployments.root
  | secrets => c.secrets.root

/-- The key of the snapshot of a kind. -/
def backupKey (c : Config) : UserKind → String
  | photons => c.photons.backupKey
  | deployments => c.deployments.backupKey
  | secrets => c.secrets.backupKey

/-- A call lists a kind or puts its snapshot. -/
def IsAbout (c : Config) (k : UserKind) (x : Call) : Prop :=
  x = .list (k.root c) ∨ ∃ data, x = .putBlob (k.backupKey c) data

/-- Kinds with the same keys for their objects are the same. -/
theorem root_injective {k k' : UserKind} (h : k.root c = k'.root c) : k = k' := by
  have hne {α β : Type} [Kind α] [Kind β] {r : Repository α} {r' : Repository β}
      (hapart : r.Apart r') : r.root ≠ r'.root :=
    fun hroot => hapart "" "" (congrArg (· ++ "") hroot)
  cases k <;> cases k'
  case photons.photons | deployments.deployments | secrets.secrets => rfl
  case photons.deployments => exact absurd h (hne (Workspace.photons_apart_deployments c))
  case photons.secrets => exact absurd h.symm (hne (Workspace.secrets_apart_photons c))
  case deployments.photons => exact absurd h.symm (hne (Workspace.photons_apart_deployments c))
  case deployments.secrets => exact absurd h.symm (hne (Workspace.secrets_apart_deployments c))
  case secrets.photons => exact absurd h (hne (Workspace.secrets_apart_photons c))
  case secrets.deployments => exact absurd h (hne (Workspace.secrets_apart_deployments c))

/-- Kinds with the same key for their snapshot are the same. -/
theorem backupKey_injective {k k' : UserKind} (h : k.backupKey c = k'.backupKey c) : k = k' := by
  have hne : c.photons.backupKey ≠ c.secrets.backupKey :=
    backupKey_ne rfl fun _ _ h => nomatch (List.cons.inj h).1
  cases k <;> cases k'
  case photons.photons | deployments.deployments | secrets.secrets => rfl
  case photons.deployments => exact absurd h (photons_backupKey_ne c)
  case photons.secrets => exact absurd h hne
  case deployments.photons => exact absurd h.symm (photons_backupKey_ne c)
  case deployments.secrets => exact absurd h.symm (secrets_backupKey_ne c)
  case secrets.photons => exact absurd h.symm hne
  case secrets.deployments => exact absurd h (secrets_backupKey_ne c)

/-- A call is about one kind at most. -/
theorem IsAbout.eq {k k' : UserKind} {x : Call} (h : k.IsAbout c x) (h' : k'.IsAbout c x) :
    k = k' := by
  rcases h with rfl | ⟨data, rfl⟩
  · rcases h' with h' | ⟨data', h'⟩
    · exact root_injective (Call.list.inj h')
    · exact nomatch h'
  · rcases h' with h' | ⟨data', h'⟩
    · exact nomatch h'
    · exact backupKey_injective (Call.putBlob.inj h').1

theorem IsAbout.keys_answer {k : UserKind} {x : Call} (h : k.IsAbout c x) (b : Backend) :
    (x.answer b).2.keys = b.keys := by
  rcases h with rfl | ⟨data, rfl⟩
  · rfl
  · rfl

end UserKind

/-- The place of the loop of a terminated workspace among the tasks. -/
def lifecycleTask : Nat := 3

/-- The calls of each task. -/
inductive MayCall (c : Config) : Nat → Call → Prop
  | backup (k : UserKind) {x : Call} (about : k.IsAbout c x) : MayCall c k.task x
  | lifecycle {x : Call} (about : UserKind.deployments.IsAbout c x) : MayCall c lifecycleTask x
  | get (id : String) : MayCall c lifecycleTask (.get (c.deployments.key id))
  | swap (id : String) (expected : UInt64) (value : ByteArray) :
    MayCall c lifecycleTask (.swap (c.deployments.key id) expected value)

/-- The routines of each task. -/
inductive MayRun (c : Config) (backup : BackupSchedule) (lifecycle : LifecycleSchedule) :
    Nat → Routine → Prop
  | photons : MayRun c backup lifecycle UserKind.photons.task (backupLoop c.photons backup)
  | deployments :
    MayRun c backup lifecycle UserKind.deployments.task (backupLoop c.deployments backup)
  | secrets : MayRun c backup lifecycle UserKind.secrets.task (backupLoop c.secrets backup)
  | terminated : MayRun c backup lifecycle lifecycleTask (terminatedLoop c.deployments lifecycle)
  | scale : MayRun c backup lifecycle lifecycleTask (scaleLoop c lifecycle)

/-- The routines make the calls of their tasks. -/
theorem lawful_mayRun (c : Config) (backup : BackupSchedule) (lifecycle : LifecycleSchedule)
    (task : Nat) :
    Process.Lawful (.history (OnlyCalls (MayCall c task)))
      fun r _ => MayRun c backup lifecycle task r := by
  have hbackup {α : Type} [Kind α] {r : Repository α} (schedule : BackupSchedule) {task : Nat}
      (hcalls : ∀ x, IsOfBackup r x → MayCall c task x) (past : List Move) :
      (backupOnce r schedule).Holds (.history (OnlyCalls (MayCall c task))) (fun _ _ => True)
        past := by
    refine (holds_backupOnce (fun _ x hx => ?_) (fun _ x hx => nomatch hx)
      fun _ data _ x hx => ?_).mono fun _ _ _ => trivial
    · exact hcalls x (Or.inl (Option.some.inj hx).symm)
    · exact hcalls x (Or.inr ⟨data, (Option.some.inj hx).symm⟩)
  -- The pass lists the deployments, then reads and writes them one by one.
  have hscale (past : List Move) : Process.RoundHolds
      (.history (OnlyCalls (MayCall c lifecycleTask)))
      (fun r _ => MayRun c backup lifecycle lifecycleTask r) (scaleLoop c lifecycle).round past := by
    have hpass : (scaleToZero { c.deployments with limit := lifecycle.attempt }).Holds
        (.history (OnlyCalls (MayCall c lifecycleTask))) (fun _ _ => True) past := by
      refine holds_scaleToZero (fun id _ _ => ?_) (fun _ _ => ?_) trivial
      · refine ensures_scaleOneToZero (fun x hx => ?_) fun _ _ _ _ _ _ _ =>
          ⟨fun x hx => (nomatch hx), fun _ _ _ x hx => ?_⟩
        · obtain rfl := Option.some.inj hx
          exact .get id
        · obtain rfl := Option.some.inj hx
          exact .swap id _ _
      · exact Repository.ensures_list
          (fun x hx => .lifecycle (Or.inl (Option.some.inj hx).symm)) (fun _ _ _ _ => trivial)
          fun _ _ _ _ _ _ => trivial
    exact Process.roundHolds_forever (hpass.mono fun _ _ _ => .scale)
  rintro r past hr
  cases hr with
  | photons =>
    exact Process.roundHolds_forever ((hbackup backup (fun _ h => .backup .photons h) past).mono
      fun _ _ _ => .photons)
  | deployments =>
    exact Process.roundHolds_forever
      ((hbackup backup (fun _ h => .backup .deployments h) past).mono fun _ _ _ => .deployments)
  | secrets =>
    exact Process.roundHolds_forever ((hbackup backup (fun _ h => .backup .secrets h) past).mono
      fun _ _ _ => .secrets)
  | terminated =>
    refine Process.roundHolds_untilSuccess
      ((hbackup lifecycle.backup (fun _ h => .lifecycle h) past).mono fun ok now _ => ?_)
    cases ok with
    | true => exact hscale now
    | false => exact .terminated
  | scale => exact hscale past

/-! ### What the other tasks see -/

namespace UserKind

/-- The tasks that make no call about a kind; what they read is written by none of the others. -/
def others : UserKind → Nat → Bool
  | photons, i => i != photons.task
  | secrets, i => i != secrets.task
  | deployments, i => i != deployments.task && i != lifecycleTask

/-- What those tasks see of two backends is the same. -/
def SeenAlike (c : Config) : UserKind → Backend → Backend → Prop
  | deployments, b, b' => ∀ k, k ≠ deployments → b.keys.list (k.root c) = b'.keys.list (k.root c)
  | _, b, b' => b.keys = b'.keys

theorem others_task {k k' : UserKind} : k.others k'.task = true ↔ k' ≠ k := by
  cases k <;> cases k' <;> decide

theorem others_lifecycleTask {k : UserKind} : k.others lifecycleTask = true ↔ k ≠ deployments := by
  cases k <;> decide

theorem seenAlike_iff_of_ne {k : UserKind} (hk : k ≠ deployments) {b b' : Backend} :
    k.SeenAlike c b b' ↔ b.keys = b'.keys := by
  cases k with
  | photons => exact Iff.rfl
  | deployments => exact absurd rfl hk
  | secrets => exact Iff.rfl

/-- Backends with the same keys are seen alike. -/
theorem SeenAlike.of_keys_eq {k : UserKind} {b₁ b₁' b₂ b₂' : Backend}
    (h : k.SeenAlike c b₁ b₂) (h₁ : b₁'.keys = b₁.keys) (h₂ : b₂'.keys = b₂.keys) :
    k.SeenAlike c b₁' b₂' := by
  cases k with
  | deployments =>
    intro k hk
    rw [h₁, h₂]
    exact h k hk
  | photons => exact h₁.trans (h.trans h₂.symm)
  | secrets => exact h₁.trans (h.trans h₂.symm)

end UserKind

/-- A swap of a deployment lists the same of the other kinds. -/
theorem list_swap {k : UserKind} (hk : k ≠ .deployments) (s : KeyStore) (id : String)
    (expected : UInt64) (value : ByteArray) :
    (s.compareAndSwap (c.deployments.key id) expected value).2.list (k.root c) =
      s.list (k.root c) := by
  refine KeyStore.list_eq_of_get?_eq fun key hunder => ?_
  obtain ⟨name, rfl⟩ := KeyStore.isUnder_iff.1 hunder
  have hne : c.deployments.key id ≠ k.root c ++ name := by
    cases k with
    | photons => exact fun h => Workspace.photons_apart_deployments c name id h.symm
    | deployments => exact absurd rfl hk
    | secrets => exact fun h => Workspace.secrets_apart_deployments c name id h.symm
  unfold KeyStore.compareAndSwap
  split
  · exact KeyStore.get?_write_of_ne hne s value
  · rfl

/-- What a task asks of the keys is answered alike where the keys are the same. -/
theorem MayCall.answer_eq {task : Nat} {x : Call} (h : MayCall c task x) {b b' : Backend}
    (hkeys : b.keys = b'.keys) :
    (x.answer b).1 = (x.answer b').1 ∧ (x.answer b).2.keys = (x.answer b').2.keys := by
  obtain ⟨keys, blobs⟩ := b
  obtain ⟨keys', blobs'⟩ := b'
  obtain rfl : keys = keys' := hkeys
  cases h with
  | backup k about | lifecycle about =>
    rcases about with rfl | ⟨data, rfl⟩
    · exact ⟨rfl, rfl⟩
    · exact ⟨rfl, rfl⟩
  | get id => exact ⟨rfl, rfl⟩
  | swap id expected value => exact ⟨rfl, rfl⟩

/-- The tasks that make no call about a kind see nothing of the others. -/
theorem separation (c : Config) (backup : BackupSchedule) (lifecycle : LifecycleSchedule)
    (k : UserKind) :
    Separation k.others (MayCall c) (MayRun c backup lifecycle) (k.SeenAlike c) where
  lawful := lawful_mayRun c backup lifecycle
  seen i x hothers hx b b' hsame := by
    -- Stores that look alike without the deployments can differ in them; otherwise they are the
    -- same.
    rcases Decidable.em (k = .deployments) with rfl | hk
    · cases hx with
      | backup k' about =>
        have hk' := UserKind.others_task.1 hothers
        have hafter := hsame.of_keys_eq (about.keys_answer b) (about.keys_answer b')
        rcases about with rfl | ⟨data, rfl⟩
        · exact ⟨hsame k' hk', hafter⟩
        · exact ⟨rfl, hafter⟩
      | _ => exact absurd rfl (UserKind.others_lifecycleTask.1 hothers)
    · rw [UserKind.seenAlike_iff_of_ne hk] at hsame ⊢
      exact hx.answer_eq hsame
  hidden i x hothers hx b b' hsame := by
    have habout {k' : UserKind} (about : k'.IsAbout c x) : k.SeenAlike c (x.answer b).2 b' :=
      hsame.of_keys_eq (about.keys_answer b) rfl
    cases hx with
    | backup k' about => exact habout about
    | lifecycle about => exact habout about
    | get id => exact hsame
    | swap id expected value =>
      -- The task that writes is hidden only where the deployments are left out.
      have hk : k = .deployments := by
        by_contra hne
        rw [UserKind.others_lifecycleTask.2 hne] at hothers
        exact nomatch hothers
      subst hk
      exact fun k' hk' => (list_swap hk' b.keys id expected value).trans (hsame k' hk')

/-! ### Runs -/

/-- The background tasks of a workspace when they start. -/
def started (c : Config) (backup : BackupSchedule) (lifecycle : LifecycleSchedule) (b : Backend) :
    Timeline :=
  .start b (tasks c backup lifecycle)

theorem agenda_started (c : Config) (backup : BackupSchedule) (lifecycle : LifecycleSchedule)
    (b : Backend) : (started c backup lifecycle b).agenda =
      [⟨0, UserKind.photons.task, 0, .first (backupLoop c.photons backup)⟩,
        ⟨0, UserKind.deployments.task, 0, .first (backupLoop c.deployments backup)⟩,
        ⟨0, UserKind.secrets.task, 0, .first (backupLoop c.secrets backup)⟩] ++
      if c.state = .terminated then
        [⟨0, lifecycleTask, 0, .pause (terminatedLoop c.deployments lifecycle)⟩]
      else [] := by
  unfold started Timeline.start tasks
  split
  · rfl
  · rfl

/-- What the tasks that make no call about a kind see of the start is what they see without the
others. -/
theorem shadows_started (c : Config) (backup : BackupSchedule) (lifecycle : LifecycleSchedule)
    (k : UserKind) (b : Backend) :
    Timeline.Shadows k.others (MayCall c) (MayRun c backup lifecycle) (k.SeenAlike c)
      (started c backup lifecycle b)
      { started c backup lifecycle b with
        agenda := onlyTasks k.others (started c backup lifecycle b).agenda } where
  orderly := Timeline.orderly_start b _
  keeps t ht := by
    rw [agenda_started] at ht
    rcases List.mem_append.1 ht with ht | ht
    · simp only [List.mem_cons, List.not_mem_nil, or_false] at ht
      rcases ht with rfl | rfl | rfl
      · exact .photons
      · exact .deployments
      · exact .secrets
    · split at ht
      · rw [List.mem_singleton.1 ht]
        exact .terminated
      · exact absurd ht List.not_mem_nil
  agenda := rfl
  past := rfl
  view := by
    cases k with
    | deployments => exact fun _ _ => rfl
    | photons => rfl
    | secrets => rfl

/-- Conditions that differ only in what becomes of the calls about a kind are the same for the tasks
that make no such call. -/
theorem agree_others {k : UserKind} {E : Conditions} {fate : (task turns moment : Nat) → Call → Fate}
    (h : ∀ task turns moment x, ¬k.IsAbout c x →
      fate task turns moment x = E.fate task turns moment x) :
    Conditions.Agree k.others (MayCall c) E { E with fate } where
  clock := rfl
  cancel := rfl
  fate task turns moment x hothers hx := by
    refine (h task turns moment x fun habout => ?_).symm
    cases hx with
    | backup k' about => exact absurd (about.eq habout) (UserKind.others_task.1 hothers)
    | lifecycle about =>
      exact absurd (habout.eq about) (UserKind.others_lifecycleTask.1 hothers)
    | get id => rcases habout with h | ⟨data, h⟩ <;> exact nomatch h
    | swap id expected value => rcases habout with h | ⟨data, h⟩ <;> exact nomatch h

/-- Where two runs differ in what becomes of the calls about one kind, the backup loops of the other
kinds do the same in both. -/
theorem isolated {k k' : UserKind} (hk : k' ≠ k) {E : Conditions}
    {fate : (task turns moment : Nat) → Call → Fate}
    (hfate : ∀ task turns moment x, ¬k.IsAbout c x →
      fate task turns moment x = E.fate task turns moment x) (b : Backend) (n n' : Nat) :
    ((started c backup lifecycle b).run E n).DoesSame
      ((started c backup lifecycle b).run { E with fate } n') k'.task :=
  (shadows_started c backup lifecycle k b).doesSame (separation c backup lifecycle k)
    (agree_others hfate) n n' (UserKind.others_task.2 hk)

/-! ### Backups on schedule -/

/-- The loops make their first attempts at once. -/
theorem exists_began (c : Config) (backup : BackupSchedule) (lifecycle : LifecycleSchedule)
    (b : Backend) (E : Conditions) :
    ∃ n, ∀ k : UserKind, (0, .began) ∈ ((started c backup lifecycle b).run E n).own k.task := by
  have hbegan (k : UserKind) (us vs : List Slot) {r : Routine}
      (hagenda : (started c backup lifecycle b).agenda = us ++ ⟨0, k.task, 0, .first r⟩ :: vs)
      (hus : ∀ u ∈ us, u.moment = 0) :
      ∃ n, (0, .began) ∈ ((started c backup lifecycle b).run E n).own k.task := by
    obtain ⟨n, vs', hn⟩ := Timeline.exists_first E hagenda hus
    refine ⟨n + 1, ?_⟩
    rw [Timeline.run_succ, Timeline.own_step hn, if_pos rfl]
    exact List.mem_append_right _ (.head [])
  have hstart := agenda_started c backup lifecycle b
  have horder := Timeline.orderly_start b (tasks c backup lifecycle)
  -- What was done stays done, so the tasks may need different numbers of steps.
  have hstays {k : UserKind} {n m : Nat} (hle : n ≤ m)
      (h : (0, .began) ∈ ((started c backup lifecycle b).run E n).own k.task) :
      (0, .began) ∈ ((started c backup lifecycle b).run E m).own k.task := by
    obtain ⟨d, rfl⟩ := Nat.exists_eq_add_of_le hle
    obtain ⟨later, hown, -⟩ := Timeline.exists_own (horder.run E n).sorted E d k.task
    rw [Timeline.run_add]
    exact hown ▸ List.mem_append_left later h
  obtain ⟨n₁, h₁⟩ := hbegan .photons [] _ hstart nofun
  obtain ⟨n₂, h₂⟩ := hbegan .deployments [_] _ hstart (by simp)
  obtain ⟨n₃, h₃⟩ := hbegan .secrets [_, _] _ hstart (by simp)
  refine ⟨n₁ + n₂ + n₃, fun k => ?_⟩
  cases k with
  | photons => exact hstays (by omega) h₁
  | deployments => exact hstays (by omega) h₂
  | secrets => exact hstays (by omega) h₃

/-- Each of the backup loops has kept its schedule. -/
structure BackupsOnSchedule (c : Config) (backup : BackupSchedule) (E : Conditions)
    (t : Timeline) : Prop where
  photons : KeepsSchedule E c.photons backup t.now (t.own UserKind.photons.task)
  deployments : KeepsSchedule E c.deployments backup t.now (t.own UserKind.deployments.task)
  secrets : KeepsSchedule E c.secrets backup t.now (t.own UserKind.secrets.task)

theorem backupsOnSchedule_run (c : Config) (backup : BackupSchedule)
    (lifecycle : LifecycleSchedule) (b : Backend) (E : Conditions) (n : Nat) :
    BackupsOnSchedule c backup E ((started c backup lifecycle b).run E n) := by
  have hplace (k : UserKind) : onlyTasks (· = k.task) (started c backup lifecycle b).agenda =
      onlyTasks (· = k.task)
        [⟨0, UserKind.photons.task, 0, .first (backupLoop c.photons backup)⟩,
          ⟨0, UserKind.deployments.task, 0, .first (backupLoop c.deployments backup)⟩,
          ⟨0, UserKind.secrets.task, 0, .first (backupLoop c.secrets backup)⟩] := by
    rw [agenda_started]
    split
    · cases k <;> rfl
    · rw [List.append_nil]
  exact ⟨keepsSchedule_run (hplace .photons) E n, keepsSchedule_run (hplace .deployments) E n,
    keepsSchedule_run (hplace .secrets) E n⟩

/-- In a run of the background tasks, whatever becomes of their calls and whenever they are
cancelled, the backup loops make their first attempts at once and keep their schedules, and time
comes to any moment if all pauses take a while.  In runs that differ only in what becomes of the
calls about one kind, the loops of the other kinds do the same. -/
theorem backups_on_schedule_and_isolated (c : Config) (backup : BackupSchedule)
    (lifecycle : LifecycleSchedule) (b : Backend) :
    (∀ E, ∃ n, ∀ k : UserKind, (0, .began) ∈ ((started c backup lifecycle b).run E n).own k.task) ∧
    (∀ E n, BackupsOnSchedule c backup E ((started c backup lifecycle b).run E n)) ∧
    (0 < backup.afterSuccess → 0 < backup.afterFailure → 0 < lifecycle.recheck →
      0 < lifecycle.afterFailure →
      ∀ E moment, ∃ n, ((started c backup lifecycle b).run E n).DoneBefore moment) ∧
    ∀ (k : UserKind) (E : Conditions) (fate : (task turns moment : Nat) → Call → Fate),
      (∀ task turns moment x, ¬k.IsAbout c x →
        fate task turns moment x = E.fate task turns moment x) →
      ∀ n n' k', k' ≠ k → ((started c backup lifecycle b).run E n).DoesSame
        ((started c backup lifecycle b).run { E with fate } n') k'.task := by
  refine ⟨exists_began c backup lifecycle b, backupsOnSchedule_run c backup lifecycle b,
    fun h₁ h₂ h₃ h₄ E moment => ?_, fun k E fate hfate n n' k' hk => isolated hk hfate b n n'⟩
  refine Timeline.exists_doneBefore (Timeline.orderly_start b _) (fun t ht => ?_) E moment
  have hagenda : t ∈ (started c backup lifecycle b).agenda := ht
  rw [agenda_started] at hagenda
  rcases List.mem_append.1 hagenda with hmem | hmem
  · simp only [List.mem_cons, List.not_mem_nil, or_false] at hmem
    rcases hmem with rfl | rfl | rfl <;> exact ⟨h₁, h₂⟩
  · split at hmem
    · rw [List.mem_singleton.1 hmem]
      exact ⟨h₄, h₃, h₄⟩
    · exact absurd hmem List.not_mem_nil

/-- The photons can never be listed, and the loops of the other kinds do what they do anyway, for as
long as one likes, on a store with a photon, a deployment and a secret. -/
theorem backups_isolated_hangingListing :
    let c : Config := { scope := "ws", name := "w", state := .terminated }
    let photon := "\x7b\"id\":\"p\",\"name\":\"n\",\"image\":\"i\"\x7d"
    let deployment := "\x7b\"id\":\"d\",\"spec\":\x7b\"name\":\"d\",\"photon_id\":\"p\"," ++
      "\"resource_requirement\":\x7b\"resource_shape\":\"cpu.small\",\"min_replicas\":3\x7d\x7d\x7d"
    let secret := "\x7b\"name\":\"s\",\"value\":\"v\"\x7d"
    let b : Backend := Backend.empty.afterCalls [.swap (c.photons.key "p") 0 photon.toUTF8,
      .swap (c.deployments.key "d") 0 deployment.toUTF8, .swap (c.secrets.key "s") 0 secret.toUTF8]
    let fine : Conditions := ⟨fun _ _ _ _ => .answered 0, fun _ => ⟨1970, 1, 1, 0, 0, 0, 0⟩, none⟩
    let hanging : Conditions :=
      { fine with fate := fun _ _ _ x => if x = .list c.photons.root then .hangs else .answered 0 }
    ((c.photons.listed b.keys).length = 1 ∧ (c.deployments.listed b.keys).length = 1 ∧
      (c.secrets.listed b.keys).length = 1) ∧
    ∀ moment, ∃ n n',
      ((started c {} {} b).run fine n).DoneBefore moment ∧
      ((started c {} {} b).run hanging n').DoneBefore moment ∧
      ∀ k : UserKind, k ≠ .photons →
        Timeline.before moment (((started c {} {} b).run fine n).own k.task) =
          Timeline.before moment (((started c {} {} b).run hanging n').own k.task) := by
  intro c photon deployment secret b fine hanging
  refine ⟨by decide +kernel, fun moment => ?_⟩
  obtain ⟨-, -, hdone, hisolated⟩ := backups_on_schedule_and_isolated c {} {} b
  have hexists := hdone (by decide) (by decide) (by decide) (by decide)
  obtain ⟨n, hn⟩ := hexists fine moment
  obtain ⟨n', hn'⟩ := hexists hanging moment
  refine ⟨n, n', hn, hn', fun k hk => ?_⟩
  have hfate (task turns moment : Nat) (x : Call) (hx : ¬UserKind.photons.IsAbout c x) :
      hanging.fate task turns moment x = fine.fate task turns moment x :=
    if_neg fun h => hx (Or.inl h)
  exact (hisolated .photons fine hanging.fate hfate n n' k hk).before moment hn hn'

end Background

end Workplane
