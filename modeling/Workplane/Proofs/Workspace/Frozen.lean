import Workplane.Proofs.Background.BackupFirst
import Workplane.Proofs.Http.Requests

/-!
# Workspaces that take no changes

In a paused workspace no key ever changes, and in a terminated one only the loop that scales the
deployments down changes any (`Workspace.frozen`), whatever requests are handled beside the
background tasks.  A request makes no call for a change in such a workspace, and a backup loop makes
none at all.  So the loop of a terminated workspace finds a deployment as it read it when it writes
it back, and what it writes is that deployment without replicas (`Workspace.ScaledOnly`); its doubles
are those that the stored form is read as, which need not be the same.
-/

namespace Workplane

variable {σ α ι κ : Type} {b : Backend}

/-! ### Programs that change no keys -/

/-- No call may change a key. -/
def KeepsKeys (_ : List Move) (call : Option Call) : Prop :=
  call.any Call.isChange = false

section Keyed

variable {R : KeyStore → KeyStore → Prop} {s s' : KeyStore}

theorem Environment.keyed_permits (hrefl : ∀ s, R s s) {call : Option Call}
    (h : call.any Call.isChange = false) : (Environment.keyed R).permits s call := by
  rintro m b rfl rfl hm
  rw [hm.keys_after (by rw [Move.verdict_eq_none h]; exact nofun)]
  exact hrefl _

theorem Environment.eq_of_keyed_allows {m : Move} (h : m.isChange = false)
    (hallows : (Environment.keyed R).allows s m s') : s' = s := by
  obtain ⟨b, rfl, hm, rfl⟩ := hallows
  exact hm.keys_after (by rw [Move.verdict_eq_none h]; exact nofun)

/-- What a process finds at a key is what is there. -/
theorem Environment.get?_of_keyed_allows {key : String} {e : Entry} {took : Nat}
    (hallows : (Environment.keyed R).allows s (.call (.get key) ⟨.answered (some e), took⟩) s') :
    s' = s ∧ s.get? key = some e := by
  refine ⟨eq_of_keyed_allows rfl hallows, ?_⟩
  obtain ⟨b, rfl, hm, -⟩ := hallows
  exact (hm _ rfl).symm

/-- A program without calls that may change a key keeps the keys. -/
theorem Program.Holds.keyed {p : Program α} {past : List Move} {post : α → List Move → Prop}
    (h : p.Holds (.history KeepsKeys) post past) (hrefl : ∀ s, R s s) :
    p.Holds (.keyed R) (fun _ s' => s' = s) s := by
  induction p generalizing past with
  | done a => rfl
  | call c limit next ih =>
    refine ⟨Environment.keyed_permits hrefl h.1, fun reply s' hallows => ?_⟩
    obtain rfl := Environment.eq_of_keyed_allows (m := .call c reply) h.1 hallows
    exact ih reply (h.2 reply _ rfl)
  | clock next ih =>
    refine ⟨Environment.keyed_permits hrefl h.1, fun now s' hallows => ?_⟩
    obtain rfl := Environment.eq_of_keyed_allows rfl hallows
    exact ih now (h.2 now _ rfl)

end Keyed

/-! ### Backup loops -/

namespace Background

/-- The loop backs up a repository. -/
inductive IsBackupLoop : Routine → Prop
  | intro {α : Type} [Kind α] (r : Repository α) (schedule : BackupSchedule) :
    IsBackupLoop (backupLoop r schedule)

theorem keepsKeys_backupOnce [Kind α] (r : Repository α) (schedule : BackupSchedule)
    (past : List Move) :
    (backupOnce r schedule).Holds (.history KeepsKeys) (fun ok now => ok = true → r.HasSaved now)
      past :=
  holds_backupOnce (fun _ => rfl) (fun _ => rfl) fun _ _ _ => rfl

theorem lawful_isBackupLoop : Process.Lawful (.history KeepsKeys) fun r _ => IsBackupLoop r := by
  rintro _ past ⟨r, schedule⟩
  exact Process.roundHolds_forever ((keepsKeys_backupOnce r schedule past).mono
    fun _ _ _ => .intro r schedule)

end Background

namespace Workspace

open Background Http

variable {c : Config} {backup : BackupSchedule} {lifecycle : LifecycleSchedule}
  {requests : κ → String × Request} {s s' s'' : KeyStore}

/-! ### Scaling down -/

/-- An entry is as it was, or holds its deployment without replicas. -/
def Descends (e e' : Entry) : Prop :=
  e' = e ∨ ∃ d now, Kind.decode? e.value = some d ∧ asksForReplicas d = true ∧
    e'.value = Kind.encode (withoutReplicas d now) ∧
    Kind.decode? e'.value = some (withoutReplicas d now).reread

/-- No key has come or gone, and only deployments have changed, by losing their replicas. -/
structure ScaledOnly (c : Config) (s s' : KeyStore) : Prop where
  present : ∀ key, (s'.get? key).isSome = (s.get? key).isSome
  elsewhere : ∀ key, (∀ id, c.deployments.key id ≠ key) → s'.get? key = s.get? key
  descends : ∀ id e e', s.get? (c.deployments.key id) = some e →
    s'.get? (c.deployments.key id) = some e' → Descends e e'

theorem Descends.trans {e e' e'' : Entry} (h : Descends e e') (h' : Descends e' e'') :
    Descends e e'' := by
  rcases h with rfl | ⟨d, now, hd, hasks, hvalue, hdecode⟩
  · exact h'
  rcases h' with rfl | ⟨d', now', hd', hasks', -, -⟩
  · exact Or.inr ⟨d, now, hd, hasks, hvalue, hdecode⟩
  · -- A deployment without replicas is not scaled down again.
    obtain rfl := Option.some.inj (hdecode.symm.trans hd')
    exact nomatch hasks'

theorem ScaledOnly.refl (c : Config) (s : KeyStore) : ScaledOnly c s s :=
  ⟨fun _ => rfl, fun _ _ => rfl, fun _ _ _ he he' => Or.inl (Option.some.inj (he'.symm.trans he))⟩

theorem ScaledOnly.trans (h : ScaledOnly c s s') (h' : ScaledOnly c s' s'') :
    ScaledOnly c s s'' := by
  refine ⟨fun key => (h'.present key).trans (h.present key),
    fun key hkey => (h'.elsewhere key hkey).trans (h.elsewhere key hkey), ?_⟩
  intro id e e'' he he''
  obtain ⟨e', he'⟩ : ∃ e', s'.get? (c.deployments.key id) = some e' := by
    rw [← Option.isSome_iff_exists, h.present, he]
    rfl
  exact (h.descends id e e' he he').trans (h'.descends id e' e'' he' he'')

/-- A deployment that is there is written without its replicas. -/
theorem ScaledOnly.write {id : String} {e : Entry} {d : Deployment}
    (he : s.get? (c.deployments.key id) = some e) (hd : Kind.decode? e.value = some d)
    (hasks : asksForReplicas d = true) (now : UInt64) :
    ScaledOnly c s (s.write (c.deployments.key id) (Kind.encode (withoutReplicas d now))) := by
  refine ⟨fun key => ?_, fun key hkey => KeyStore.get?_write_of_ne (hkey id) s _, ?_⟩
  · rcases Decidable.em (c.deployments.key id = key) with rfl | hne
    · rw [KeyStore.get?_write_self, he]
      rfl
    · rw [KeyStore.get?_write_of_ne hne]
  · intro id' e₁ e' he₁ he'
    rcases Decidable.em (id = id') with rfl | hne
    · obtain rfl := Option.some.inj (he.symm.trans he₁)
      rw [KeyStore.get?_write_self] at he'
      have hvalue : e'.value = Kind.encode (withoutReplicas d now) := by
        rw [← Option.some.inj he']
      have hstorable := storable_withoutReplicas (Kind.storable_of_decode? hd) now
      refine Or.inr ⟨d, now, hd, hasks, hvalue, ?_⟩
      rw [hvalue]
      exact hstorable.decode?_encode
    · rw [KeyStore.get?_write_of_ne fun heq => hne (c.deployments.key_injective heq)] at he'
      exact Or.inl (Option.some.inj (he'.symm.trans he₁))

/-- A deployment is still there as it was read when it is written, if nobody else changes keys. -/
theorem ensures_scaleOneToZero_keyed (limit : Nat) (id : String) (s : KeyStore) :
    Ensures (.keyed (ScaledOnly c)) (fun _ _ => True) (fun _ _ => True)
      (scaleOneToZero { c.deployments with limit } id) s := by
  refine ensures_scaleOneToZero (Environment.keyed_permits (ScaledOnly.refl c) rfl) ?_
  intro e d took s' hallows hd hasks
  obtain ⟨rfl, he⟩ := Environment.get?_of_keyed_allows hallows
  refine ⟨Environment.keyed_permits (ScaledOnly.refl c) rfl, fun now s'' hallows => ?_⟩
  obtain rfl := Environment.eq_of_keyed_allows rfl hallows
  rintro m b hrequest rfl hm
  rcases Decidable.em (m.verdict = some true) with hverdict | hverdict
  · rw [(hm.swap_written hrequest hverdict).2]
    exact .write he hd hasks _
  · rw [hm.keys_after hverdict]
    exact .refl c _

/-- The loop of a terminated workspace, before and after its backup. -/
inductive IsTerminatedLoop (c : Config) (lifecycle : LifecycleSchedule) : Routine → Prop
  | first : IsTerminatedLoop c lifecycle (terminatedLoop c.deployments lifecycle)
  | later : IsTerminatedLoop c lifecycle (scaleLoop c lifecycle)

theorem lawful_isTerminatedLoop (c : Config) (lifecycle : LifecycleSchedule) :
    Process.Lawful (.keyed (ScaledOnly c)) fun r _ => IsTerminatedLoop c lifecycle r := by
  have hscale (s : KeyStore) : Process.RoundHolds (.keyed (ScaledOnly c))
      (fun r _ => IsTerminatedLoop c lifecycle r) (scaleLoop c lifecycle).round s := by
    have hpass : (scaleToZero { c.deployments with limit := lifecycle.attempt }).Holds
        (.keyed (ScaledOnly c)) (fun _ _ => True) s := by
      refine Background.holds_scaleToZero (fun id s _ => ?_) (fun _ _ => ?_) trivial
      · exact ensures_scaleOneToZero_keyed lifecycle.attempt id s
      · exact Repository.ensures_list (Environment.keyed_permits (ScaledOnly.refl c) rfl)
          (fun _ _ _ _ => trivial) fun _ _ _ _ _ _ => trivial
    exact Process.roundHolds_forever (hpass.mono fun _ _ _ => .later)
  intro r s hr
  cases hr with
  | first =>
    refine Process.roundHolds_untilSuccess
      (((keepsKeys_backupOnce c.deployments _ []).keyed (ScaledOnly.refl c)).mono fun ok s' _ => ?_)
    cases ok with
    | true => exact hscale s'
    | false => exact .first
  | later => exact hscale s

/-! ### The processes of a workspace -/

/-- The background tasks of a workspace and the handling of requests, each with its identifier. -/
def processes (c : Config) (backup : BackupSchedule) (lifecycle : LifecycleSchedule)
    (requests : κ → String × Request) :
    Fin (tasks c backup lifecycle).length ⊕ κ → Process Response
  | .inl k => .pause (tasks c backup lifecycle)[k]
  | .inr x => .program (Api.handle c (requests x).1 (requests x).2)

/-- The loop of a terminated workspace is the last task, and all others are backup loops. -/
theorem tasks_getElem (k : Nat) (hk : k < (tasks c backup lifecycle).length) :
    (k < 3 ∧ IsBackupLoop (tasks c backup lifecycle)[k]) ∨
      k = 3 ∧ c.state = .terminated ∧
        (tasks c backup lifecycle)[k] = terminatedLoop c.deployments lifecycle := by
  match k with
  | 0 => exact Or.inl ⟨by decide, .intro c.photons backup⟩
  | 1 => exact Or.inl ⟨by decide, .intro c.deployments backup⟩
  | 2 => exact Or.inl ⟨by decide, .intro c.secrets backup⟩
  | k + 3 =>
    refine Or.inr ?_
    have hlength : (tasks c backup lifecycle).length =
        3 + (if c.state = .terminated then 1 else 0) := by
      unfold tasks
      split <;> rfl
    rw [hlength] at hk
    split at hk
    · rename_i hstate
      obtain rfl : k = 0 := by omega
      refine ⟨rfl, hstate, ?_⟩
      simp [tasks, hstate]
    · omega

section Runs

variable [DecidableEq κ] {t : Trace (Fin (tasks c backup lifecycle).length ⊕ κ)}
  {now : Fin (tasks c backup lifecycle).length ⊕ κ → Process Response}

/-- Only the loop of a terminated workspace may change keys if users may not. -/
theorem verdict_ne_of_not_isWritable
    (h : Concurrent (processes c backup lifecycle requests) b t now)
    (hstate : c.state.isWritable = false) {i : Fin (tasks c backup lifecycle).length ⊕ κ}
    (hi : ∀ k, i = .inl k → k.val < 3) {m : Move} (hm : (i, m) ∈ t) : m.verdict ≠ some true := by
  suffices hnone : m.verdict = none by
    rw [hnone]
    exact nofun
  obtain ⟨u, v, huv⟩ := List.append_of_mem hm
  cases i with
  | inl k =>
    have hloop : IsBackupLoop (tasks c backup lifecycle)[k] := by
      rcases tasks_getElem k.val k.isLt with ⟨-, hloop⟩ | ⟨hk, -⟩
      · exact hloop
      · exact absurd (hi k rfl) (by omega)
    exact Move.verdict_eq_none (h.of_routine lawful_isBackupLoop rfl hloop huv)
  | inr x =>
    have hpermits := (h.of_program rfl (holds_handle_asks c (requests x).1 (requests x).2)).2 u m v
      huv
    refine Writer.verdict_eq_none_of_isRead fun call hcall => (hpermits call hcall).resolve_right ?_
    rintro ⟨hwritable, -⟩
    rw [hstate] at hwritable
    exact nomatch hwritable

/-- In a terminated workspace, deployments have lost their replicas since any earlier moment, and
nothing else has changed. -/
theorem scaledOnly_replay (h : Concurrent (processes c backup lifecycle requests) b t now)
    (hstate : c.state = .terminated) {u v : Trace (Fin (tasks c backup lifecycle).length ⊕ κ)}
    (ht : t = u ++ v) : ScaledOnly c (b.replay u).keys (b.replay t).keys := by
  have hwritable : c.state.isWritable = false := by
    rw [hstate]
    rfl
  have hlength : 3 < (tasks c backup lifecycle).length := by
    simp [tasks, hstate]
  have hloop : (processes c backup lifecycle requests (.inl ⟨3, hlength⟩)).Holds
      (.keyed (ScaledOnly c)) (fun r _ => IsTerminatedLoop c lifecycle r) (fun _ _ => True)
      b.keys := by
    show IsTerminatedLoop c lifecycle (tasks c backup lifecycle)[3]
    rcases tasks_getElem 3 hlength with ⟨hlt, -⟩ | ⟨-, -, heq⟩
    · exact absurd hlt (by decide)
    · exact heq ▸ .first
  refine (h.keyed (ScaledOnly.refl c) (fun _ _ _ => ScaledOnly.trans)
    (lawful_isTerminatedLoop c lifecycle) hloop ?_).2 u v ht
  intro i m hne hm
  refine verdict_ne_of_not_isWritable h hwritable (fun k hk => ?_) hm
  rcases tasks_getElem k.val k.isLt with ⟨hlt, -⟩ | ⟨heq, -⟩
  · exact hlt
  · exact absurd (hk.trans (congrArg Sum.inl (Fin.ext heq))) hne

/-- What a run of a workspace that takes no changes has done, from `b` on. -/
structure Frozen (c : Config) (backup : BackupSchedule) (lifecycle : LifecycleSchedule)
    (requests : κ → String × Request) (b : Backend)
    (t : Trace (Fin (tasks c backup lifecycle).length ⊕ κ))
    (now : Fin (tasks c backup lifecycle).length ⊕ κ → Process Response) : Prop where
  /-- In a paused workspace the keys are as they were. -/
  paused : c.state = .paused → (b.replay t).keys = b.keys
  /-- In a terminated workspace, deployments have lost their replicas since any earlier moment, and
  nothing else has changed. -/
  terminated : c.state = .terminated → ∀ u v, t = u ++ v →
    ScaledOnly c (b.replay u).keys (b.replay t).keys
  /-- Only requests that want no change have succeeded. -/
  refused : ∀ x response, now (.inr x) = .program (.done response) → response.isSuccess = true →
    (requests x).2.method = .get ∨ (requests x).2.method = .head

/-- A workspace that is not normal is frozen, except that its deployments may lose their
replicas. -/
theorem frozen (h : Concurrent (processes c backup lifecycle requests) b t now)
    (hstate : c.state ≠ .normal) : Frozen c backup lifecycle requests b t now := by
  have hwritable : c.state.isWritable = false := beq_eq_false_iff_ne.2 hstate
  refine ⟨fun hpaused => ?_, fun hterminated _ _ => scaledOnly_replay h hterminated,
    fun x response hdone hsuccess => ?_⟩
  · refine h.isTrue.keys_replay fun s hs => verdict_ne_of_not_isWritable h hwritable ?_ hs
    intro k _
    rcases tasks_getElem k.val k.isLt with ⟨hk, -⟩ | ⟨-, hterminated, -⟩
    · exact hk
    · rw [hpaused] at hterminated
      exact nomatch hterminated
  · have hend := (h.of_program rfl (holds_handle_asks c (requests x).1 (requests x).2)).1 response
      hdone
    rcases hend hsuccess with hget | hhead | hnormal
    · exact Or.inl hget
    · exact Or.inr hhead
    · rw [hwritable] at hnormal
      exact absurd hnormal Bool.false_ne_true

end Runs

/-- The first round of the loop of a terminated workspace changes keys. -/
theorem frozen_threeReplicas :
    let c : Config := { scope := "ns", name := "w", state := .terminated }
    let b : Backend :=
      ⟨KeyStore.empty.write (c.deployments.key "a") (Kind.encode threeReplicas), .empty⟩
    let requests : Unit → String × Request :=
      fun _ => ("1", ⟨.delete, "/api/v1/deployments/a", "".toUTF8⟩)
    c.state ≠ .normal ∧ ∃ t now, Concurrent (processes c {} {} requests) b t now ∧
      Frozen c {} {} requests b t now ∧ (b.replay t).keys ≠ b.keys := by
  intro c b requests
  have hpause : processes c {} {} requests (.inl ⟨3, by decide⟩) =
      .pause (terminatedLoop c.deployments {}) := rfl
  obtain ⟨t, -, hend, hrun⟩ :=
    Concurrent.nil.reaches_round (rfl : b.replay [] = b) hpause ⟨1970, 1, 1, 0, 0, 0, 0⟩
  refine ⟨nofun, t, _, hrun, frozen hrun nofun, ?_⟩
  have hclean : c.deployments.IsClean b.keys := isClean_threeReplicas
  have hstored : c.deployments.Stored b.keys "a" threeReplicas.reread := stored_threeReplicas
  have hasks : asksForReplicas threeReplicas.reread = true := rfl
  rw [show b.replay t = _ from hend]
  exact keys_undisturbed_terminatedLoop_ne _ hclean hstored hasks

end Workspace

end Workplane
