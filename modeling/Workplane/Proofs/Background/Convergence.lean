import Workplane.Proofs.Background.BackupFirst
import Workplane.Proofs.Deployments.Creation
import Workplane.Proofs.Deployments.LostUpdate

/-!
# One pass of the scale-down

A pass lists the deployments and attempts to scale down those that ask for replicas, one after
another.  An attempt reads its deployment again and replaces what it has read (`ScaleAttempt`).  If
nobody else writes, it fails only since one of its own calls has no answer, and has changed nothing
then; a failure neither stops the pass nor is it forgotten (`ScalePass`).  So a pass scales down
exactly the deployments whose calls are answered, and tells that all is done exactly if it is
(`scaleToZero_converges`).
-/

namespace Workplane

/-- The call reads or changes a single key. -/
def Call.IsAt (key : String) : Call → Prop
  | .get k | .swap k _ _ | .delete k => k = key
  | .list _ | .putBlob .. | .getBlob _ => False

/-- The move is a call at a key that had no answer. -/
def Move.Loses (key : String) (m : Move) : Prop :=
  m.IsLost ∧ ∃ c, m.request = some c ∧ c.IsAt key

theorem Move.not_loses_list {key root : String} {reply : Reply (Call.list root).Answer} :
    ¬Move.Loses key (.call (.list root) reply) := by
  rintro ⟨-, c, hc, hat⟩
  obtain rfl := Option.some.inj hc
  exact hat

namespace Background

variable {r : Repository Deployment} {d : Deployment} {ds : List Deployment} {b b₁ b' : Backend}
  {past ms moves : List Move} {key : String} {done ok : Bool}

/-! ### Attempts -/

/-- The moves of an attempt to scale down a deployment that is stored, whether it succeeds, and what
it leaves. -/
inductive ScaleAttempt (r : Repository Deployment) (d : Deployment) (b : Backend) :
    List Move → Bool → Backend → Prop
  | unread (read : Reply (Option Entry)) (lost : read.IsLost) :
    ScaleAttempt r d b [.call (.get (r.key d.id)) read] false b
  | unwritten (read : Reply (Option Entry)) (answered : ¬read.IsLost) (now : Timestamp)
      (revision : UInt64) (written : Reply Swap) (lost : written.IsLost) :
    ScaleAttempt r d b [.call (.get (r.key d.id)) read, .clock now,
      .call (.swap (r.key d.id) revision (Kind.encode (withoutReplicas d now.millis))) written]
      false b
  | written (read : Reply (Option Entry)) (answered : ¬read.IsLost) (now : Timestamp)
      (revision : UInt64) (written : Reply Swap) (answered' : ¬written.IsLost) :
    ScaleAttempt r d b [.call (.get (r.key d.id)) read, .clock now,
      .call (.swap (r.key d.id) revision (Kind.encode (withoutReplicas d now.millis))) written]
      true { b with keys := b.keys.write (r.key d.id) (Kind.encode (withoutReplicas d now.millis)) }

namespace ScaleAttempt

/-- An attempt loses a call exactly if it fails, and only calls at its own key. -/
theorem loses_iff (h : ScaleAttempt r d b ms done b₁) :
    (∃ m ∈ ms, m.Loses key) ↔ r.key d.id = key ∧ done = false := by
  cases h with
  | unread read lost =>
    simp [Move.Loses, Move.IsLost, Move.request, Call.IsAt, lost]
  | unwritten read answered now revision written lost =>
    simp [Move.Loses, Move.IsLost, Move.request, Call.IsAt, answered, lost]
  | written read answered now revision written answered' =>
    simp [Move.Loses, Move.IsLost, Move.request, Call.IsAt, answered, answered']

/-- An attempt has changed nothing, or written its deployment without replicas. -/
theorem eq_or_write (h : ScaleAttempt r d b ms done b₁) :
    done = false ∧ b₁ = b ∨ done = true ∧ ∃ now, .clock now ∈ ms ∧
      b₁ = { b with
        keys := b.keys.write (r.key d.id) (Kind.encode (withoutReplicas d now.millis)) } := by
  cases h with
  | unread => exact Or.inl ⟨rfl, rfl⟩
  | unwritten => exact Or.inl ⟨rfl, rfl⟩
  | written read answered now => exact Or.inr ⟨rfl, now, by simp, rfl⟩

theorem get?_of_ne (h : ScaleAttempt r d b ms done b₁) (hne : r.key d.id ≠ key) :
    b₁.keys.get? key = b.keys.get? key := by
  rcases h.eq_or_write with ⟨-, rfl⟩ | ⟨-, now, -, rfl⟩
  · rfl
  · exact KeyStore.get?_write_of_ne hne _ _

theorem blobs_eq (h : ScaleAttempt r d b ms done b₁) : b₁.blobs = b.blobs := by
  rcases h.eq_or_write with ⟨-, rfl⟩ | ⟨-, now, -, rfl⟩
  · rfl
  · rfl

end ScaleAttempt

/-- A scale-down of what is stored is an attempt that is made or lost. -/
theorem ensures_scaleOneToZero_alone (hd : r.Stored b.keys d.id d)
    (hasks : asksForReplicas d = true) :
    Ensures (.alone fun _ _ => True)
      (fun _ s => ∃ ms, s.1 = past ++ ms ∧ ScaleAttempt r d b ms true s.2)
      (fun _ s => ∃ ms, s.1 = past ++ ms ∧ ScaleAttempt r d b ms false s.2)
      (scaleOneToZero r d.id) (past, b) := by
  obtain ⟨e, he, hdecode⟩ := hd
  refine ensures_bind.2 (Repository.ensures_getVersioned trivial ?_ ?_ ?_ ?_)
  · rintro e' d' took _ ⟨htrue, rfl⟩ hdecode'
    obtain rfl : e' = e := Option.some.inj ((htrue _ rfl).trans he)
    obtain rfl : d' = d := Option.some.inj (hdecode'.symm.trans hdecode)
    have hread : ¬(⟨.answered (some e'), took⟩ : Reply (Option Entry)).IsLost := fun h => h _ rfl
    -- Nobody else writes, so the deployment still has the revision that was read.
    have hrevision : b.keys.revisionOf (r.key d'.id) = e'.revision :=
      KeyStore.revisionOf_of_get? he
    simp only [hasks, if_true]
    refine ensures_bind.2 (ensures_lift.2 (Program.holds_now.2 ⟨trivial, ?_⟩))
    rintro now _ ⟨-, rfl⟩
    refine ensures_bind.2 (Repository.ensures_updateAt trivial ?_ ?_ ?_)
    · rintro swap took' _ ⟨htrue', rfl⟩ -
      have hswap := KeyStore.compareAndSwap_of_eq hrevision
        (Kind.encode (withoutReplicas d' now.millis))
      have hwritten : ¬(⟨.answered swap, took'⟩ : Reply Swap).IsLost := fun h => h _ rfl
      refine ensures_pure.2 ⟨_, by simp only [List.append_assoc]; rfl, ?_⟩
      show ScaleAttempt r d' b _ true { b with
        keys := (b.keys.compareAndSwap (r.key d'.id) e'.revision
          (Kind.encode (withoutReplicas d' now.millis))).2 }
      rw [hswap]
      exact .written _ hread now _ _ hwritten
    · rintro swap took' _ ⟨htrue', rfl⟩ hrefused
      have hswap : swap = (b.keys.compareAndSwap (r.key d'.id) e'.revision
        (Kind.encode (withoutReplicas d' now.millis))).1 := htrue' swap rfl
      rw [hswap, KeyStore.compareAndSwap_of_eq hrevision] at hrefused
      exact nomatch hrefused
    · rintro error reply s - hlost hs
      obtain rfl := Environment.eq_of_lost hs hlost
      exact ⟨_, by simp only [List.append_assoc]; rfl, .unwritten _ hread now _ reply hlost⟩
  · rintro took _ ⟨htrue, rfl⟩
    exact absurd ((htrue _ rfl).trans he) (Option.some_ne_none e).symm
  · rintro e' detail took _ ⟨htrue, rfl⟩ hbroken
    obtain rfl : e' = e := Option.some.inj ((htrue _ rfl).trans he)
    rw [hdecode] at hbroken
    exact nomatch hbroken
  · rintro error reply s - hlost hs
    obtain rfl := Environment.eq_of_lost hs hlost
    exact ⟨_, rfl, .unread reply hlost⟩

/-! ### Passes -/

/-- The moves of a pass over deployments that are stored, what it tells, and what it leaves. -/
inductive ScalePass (r : Repository Deployment) :
    List Deployment → Backend → List Move → Bool → Backend → Prop
  | nil (b : Backend) : ScalePass r [] b [] true b
  | skip {d : Deployment} {ds : List Deployment} {b b' : Backend} {moves : List Move} {ok : Bool}
      (idle : asksForReplicas d = false) (rest : ScalePass r ds b moves ok b') :
    ScalePass r (d :: ds) b moves ok b'
  | attempt {d : Deployment} {ds : List Deployment} {b b₁ b' : Backend} {ms moves : List Move}
      {done ok : Bool} (asks : asksForReplicas d = true) (first : ScaleAttempt r d b ms done b₁)
      (rest : ScalePass r ds b₁ moves ok b') : ScalePass r (d :: ds) b (ms ++ moves) (done && ok) b'

/-- A pass over what is stored makes one attempt for each deployment that asks for replicas. -/
theorem holds_scaleAllToZero_alone (hnodup : (ds.map Deployment.id).Nodup)
    (hstored : ∀ d ∈ ds, r.Stored b.keys d.id d) :
    (scaleAllToZero r ds).Holds (.alone fun _ _ => True)
      (fun ok s => ∃ moves, s.1 = past ++ moves ∧ ScalePass r ds b moves ok s.2) (past, b) := by
  induction ds generalizing b past with
  | nil => exact ⟨[], (List.append_nil past).symm, .nil b⟩
  | cons d ds ih =>
    obtain ⟨hnotin, hnodup⟩ := List.nodup_cons.1 hnodup
    have hd := hstored d (.head ds)
    unfold scaleAllToZero
    split
    · rename_i hasks
      -- An attempt on `d` leaves the others alone, so the rest of the pass finds them as listed.
      have hrest {past : List Move} {ms : List Move} {done : Bool} {b₁ : Backend}
          (first : ScaleAttempt r d b ms done b₁) :
          (scaleAllToZero r ds).Holds (.alone fun _ _ => True)
            (fun ok s => ∃ moves, s.1 = past ++ moves ∧
              ScalePass r (d :: ds) b (ms ++ moves) (done && ok) s.2) (past, b₁) := by
        refine (ih hnodup fun d' hd' => ?_).mono ?_
        · obtain ⟨e, he, hdecode⟩ := hstored d' (.tail d hd')
          have hne : r.key d.id ≠ r.key d'.id := fun heq =>
            hnotin (r.key_injective heq ▸ List.mem_map_of_mem hd')
          exact ⟨e, (first.get?_of_ne hne).trans he, hdecode⟩
        · rintro ok s ⟨moves, hmoves, rest⟩
          exact ⟨moves, hmoves, .attempt hasks first rest⟩
      refine Program.holds_bind.2 (Program.Holds.mono (ensures_scaleOneToZero_alone hd hasks) ?_)
      rintro (e | u) ⟨past', b₁⟩ ⟨ms, rfl, first⟩
      · refine Program.holds_bind.2 ((hrest first).mono ?_)
        rintro ok s ⟨moves, hmoves, pass⟩
        exact ⟨ms ++ moves, by rw [hmoves, List.append_assoc], pass⟩
      · refine Program.holds_bind.2 ((hrest first).mono ?_)
        rintro ok s ⟨moves, hmoves, pass⟩
        exact ⟨ms ++ moves, by rw [hmoves, List.append_assoc], pass⟩
    · rename_i hidle
      refine (ih hnodup fun d' hd' => hstored d' (.tail d hd')).mono ?_
      rintro ok s ⟨moves, hmoves, rest⟩
      exact ⟨moves, hmoves, .skip (Bool.eq_false_iff.2 hidle) rest⟩

namespace ScalePass

/-- A pass touches no blob. -/
theorem blobs_eq (h : ScalePass r ds b moves ok b') : b'.blobs = b.blobs := by
  induction h with
  | nil => rfl
  | skip _ _ ih => exact ih
  | attempt _ first _ ih => exact ih.trans first.blobs_eq

/-- A key of no deployment that asks for replicas is left alone. -/
theorem elsewhere (h : ScalePass r ds b moves ok b')
    (hne : ∀ d ∈ ds, asksForReplicas d = true → r.key d.id ≠ key) :
    b'.keys.get? key = b.keys.get? key ∧ ∀ m ∈ moves, ¬m.Loses key := by
  induction h with
  | nil => exact ⟨rfl, nofun⟩
  | skip _ _ ih => exact ih fun d' hd' => hne d' (.tail _ hd')
  | attempt asks first _ ih =>
    obtain ⟨hget, hmoves⟩ := ih fun d' hd' => hne d' (.tail _ hd')
    have hself := hne _ (.head _) asks
    refine ⟨hget.trans (first.get?_of_ne hself), fun m hm hlost => ?_⟩
    rcases List.mem_append.1 hm with hm | hm
    · exact hself (first.loses_iff.1 ⟨m, hm, hlost⟩).1
    · exact hmoves m hm hlost

/-- A deployment that asks for replicas is scaled down, or one of its calls was lost and it is as it
was. -/
theorem outcome (h : ScalePass r ds b moves ok b') (hnodup : (ds.map Deployment.id).Nodup)
    (hd : d ∈ ds) (hasks : asksForReplicas d = true) :
    ((∀ m ∈ moves, ¬m.Loses (r.key d.id)) ∧ ∃ now, .clock now ∈ moves ∧
      b'.content (r.key d.id) = some (Kind.encode (withoutReplicas d now.millis))) ∨
    (∃ m ∈ moves, m.Loses (r.key d.id)) ∧ ok = false ∧
      b'.keys.get? (r.key d.id) = b.keys.get? (r.key d.id) := by
  induction h with
  | nil => exact absurd hd List.not_mem_nil
  | skip idle rest ih =>
    rcases List.mem_cons.1 hd with rfl | hd
    · rw [idle] at hasks
      exact nomatch hasks
    · exact ih (List.nodup_cons.1 hnodup).2 hd
  | @attempt d₁ ds b b₁ b' ms moves done ok asks first rest ih =>
    obtain ⟨hnotin, hnodup⟩ := List.nodup_cons.1 hnodup
    rcases List.mem_cons.1 hd with rfl | hd
    · -- The rest of the pass leaves the key alone.
      have hothers : ∀ d' ∈ ds, asksForReplicas d' = true → r.key d'.id ≠ r.key d.id :=
        fun d' hd' _ heq => hnotin (r.key_injective heq ▸ List.mem_map_of_mem hd')
      obtain ⟨hget, hmoves⟩ := rest.elsewhere hothers
      rcases first.eq_or_write with ⟨rfl, rfl⟩ | ⟨rfl, now, hnow, rfl⟩
      · obtain ⟨m, hm, hlost⟩ := first.loses_iff.2 ⟨rfl, rfl⟩
        exact Or.inr ⟨⟨m, List.mem_append_left _ hm, hlost⟩, rfl, hget⟩
      · refine Or.inl ⟨fun m hm hlost => ?_, now, List.mem_append_left _ hnow, ?_⟩
        · rcases List.mem_append.1 hm with hm | hm
          · exact nomatch (first.loses_iff.1 ⟨m, hm, hlost⟩).2
          · exact hmoves m hm hlost
        · rw [Backend.content, hget, KeyStore.get?_write_self, Option.map_some]
    · have hne : r.key d₁.id ≠ r.key d.id := fun heq =>
        hnotin (r.key_injective heq ▸ List.mem_map_of_mem hd)
      rcases ih hnodup hd with ⟨hmoves, now, hnow, hcontent⟩ | ⟨⟨m, hm, hlost⟩, rfl, hget⟩
      · refine Or.inl ⟨fun m hm hlost => ?_, now, List.mem_append_right _ hnow, hcontent⟩
        rcases List.mem_append.1 hm with hm | hm
        · exact hne (first.loses_iff.1 ⟨m, hm, hlost⟩).1
        · exact hmoves m hm hlost
      · exact Or.inr ⟨⟨m, List.mem_append_right _ hm, hlost⟩, Bool.and_false done,
          hget.trans (first.get?_of_ne hne)⟩

/-- A pass that fails has lost a call of some deployment. -/
theorem exists_lost (h : ScalePass r ds b moves ok b') (hok : ok = false) :
    ∃ d ∈ ds, asksForReplicas d = true ∧ ∃ m ∈ moves, m.Loses (r.key d.id) := by
  induction h with
  | nil => exact nomatch hok
  | skip _ _ ih =>
    obtain ⟨d, hd, hasks, hlost⟩ := ih hok
    exact ⟨d, .tail _ hd, hasks, hlost⟩
  | attempt asks first _ ih =>
    rcases Bool.and_eq_false_iff.1 hok with hdone | hok
    · obtain ⟨m, hm, hlost⟩ := first.loses_iff.2 ⟨rfl, hdone⟩
      exact ⟨_, .head _, asks, m, List.mem_append_left _ hm, hlost⟩
    · obtain ⟨d, hd, hasks, m, hm, hlost⟩ := ih hok
      exact ⟨d, .tail _ hd, hasks, m, List.mem_append_right _ hm, hlost⟩

end ScalePass

/-! ### The whole pass -/

/-- The deployments were listed. -/
def WasListed (r : Repository Deployment) (past : List Move) : Prop :=
  ∃ entries took, Move.call (.list r.root) ⟨.answered entries, took⟩ ∈ past

theorem not_wasListed_of_lost {reply : Reply (Call.list r.root).Answer} (h : reply.IsLost) :
    ¬WasListed r [.call (.list r.root) reply] := by
  rintro ⟨entries, took, hmem⟩
  obtain rfl := (Move.call.inj (List.mem_singleton.1 hmem)).2
  exact h entries rfl

/-- What a pass does alone: it ends as the listing has no answer, or goes over what was listed. -/
theorem holds_scaleToZero_alone (hown : ∀ name d, r.Stored b.keys name d → d.id = name) :
    (scaleToZero r).Holds (.alone fun _ _ => True)
      (fun ok s => (∃ reply, s = ([.call (.list r.root) reply], b) ∧ reply.IsLost ∧ ok = false) ∨
        ∃ entries took moves, s.1 = .call (.list r.root) ⟨.answered entries, took⟩ :: moves ∧
          ScalePass r (r.listed b.keys) b moves ok s.2) ([], b) := by
  have hstored : ∀ d ∈ r.listed b.keys, r.Stored b.keys d.id d := by
    intro d hd
    obtain ⟨name, hd⟩ := Repository.mem_listed.1 hd
    exact hown name d hd ▸ hd
  have hlist : Ensures (.alone fun _ _ => True)
      (fun ds s => ds = r.listed b.keys ∧ s.2 = b ∧ ∃ entries took,
        s.1 = [.call (.list r.root) ⟨.answered entries, took⟩])
      (fun _ s => ∃ reply, s = ([.call (.list r.root) reply], b) ∧ reply.IsLost)
      r.list ([], b) := by
    refine Repository.ensures_list trivial ?_ ?_
    · rintro entries took _ ⟨htrue, rfl⟩
      obtain rfl : entries = b.keys.list r.root := htrue _ rfl
      exact ⟨rfl, rfl, _, took, rfl⟩
    · rintro e reply s - hlost hs
      obtain rfl := Environment.eq_of_lost hs hlost
      exact ⟨reply, rfl, hlost⟩
  refine Program.holds_bind.2 (Program.Holds.mono hlist ?_)
  rintro (e | ds) ⟨past, b₁⟩ hresult
  · obtain ⟨reply, hs, hlost⟩ := hresult
    exact Or.inl ⟨reply, hs, hlost, rfl⟩
  · obtain ⟨rfl, rfl, entries, took, rfl⟩ := hresult
    refine (holds_scaleAllToZero_alone (Repository.nodup_listed hown) hstored).mono ?_
    rintro ok s ⟨moves, hmoves, pass⟩
    exact Or.inr ⟨entries, took, moves, hmoves, pass⟩

/-- A pass over deployments that ask for no replicas asks for no change. -/
theorem holds_scaleToZero_of_settled (h : Settled r b.keys) :
    (scaleToZero r).Holds (.alone fun past b' => b' = b ∧ ∀ m ∈ past, m.isChange = false)
      (fun _ s => s.2 = b ∧ ∀ m ∈ s.1, m.isChange = false) ([], b) := by
  have hlist : Ensures (.alone fun past b' => b' = b ∧ ∀ m ∈ past, m.isChange = false)
      (fun ds s => ds = r.listed b.keys ∧ s.2 = b ∧ ∀ m ∈ s.1, m.isChange = false)
      (fun _ s => s.2 = b ∧ ∀ m ∈ s.1, m.isChange = false) r.list ([], b) := by
    have honly {reply : Reply (Call.list r.root).Answer} :
        ∀ m ∈ [] ++ [Move.call (.list r.root) reply], m.isChange = false := by
      simp [Move.isChange, Move.request, Call.isChange]
    refine Repository.ensures_list ⟨rfl, fun _ hm => absurd hm List.not_mem_nil⟩ ?_ ?_
    · rintro entries took _ ⟨htrue, rfl⟩
      obtain rfl : entries = b.keys.list r.root := htrue _ rfl
      exact ⟨rfl, rfl, honly⟩
    · rintro e reply s - hlost hs
      obtain rfl := Environment.eq_of_lost hs hlost
      exact ⟨rfl, honly⟩
  have hidle : ∀ d ∈ r.listed b.keys, asksForReplicas d = false := by
    intro d hd
    obtain ⟨id, hd⟩ := Repository.mem_listed.1 hd
    exact h id d hd
  refine Program.holds_bind.2 (Program.Holds.mono hlist ?_)
  rintro (e | ds) s hresult
  · exact hresult
  · obtain ⟨rfl, hs⟩ := hresult
    simp only [scaleAllToZero_eq_pure hidle]
    exact hs

/-- A pass over a settled store changes nothing. -/
theorem eq_of_settled_of_alone {q : Program Bool} (h : Settled r b.keys)
    (run : (scaleToZero r).Alone b past b' q) : b' = b ∧ ∀ m ∈ past, m.isChange = false := by
  have hend := run.holds_alone (holds_scaleToZero_of_settled h)
  cases q with
  | done ok => exact hend
  | call c limit next => exact hend.1
  | clock next => exact hend.1

/-- What a pass has done that is over, with `ok` as its result. -/
structure Converged (r : Repository Deployment) (b : Backend) (past : List Move) (b' : Backend)
    (ok : Bool) : Prop where
  /-- Nothing but a listing without an answer keeps a pass from going over the deployments. -/
  listed : WasListed r past ∨ ∃ reply, past = [.call (.list r.root) reply] ∧ reply.IsLost
  /-- A deployment that asks for replicas and has lost no call is stored without replicas at the
  time of a look at the clock.  It is read back as it was otherwise, if its doubles are. -/
  scaled : WasListed r past → ∀ id d, r.Stored b.keys id d → asksForReplicas d = true →
    (∀ m ∈ past, ¬m.Loses (r.key id)) → ∃ now : Timestamp, .clock now ∈ past ∧
      b'.content (r.key id) = some (Kind.encode (withoutReplicas d now.millis)) ∧
      r.Stored b'.keys id (withoutReplicas d now.millis).reread ∧
      ((withoutReplicas d now.millis).reread = withoutReplicas d now.millis ↔
        Double.reread d.spec.requirement.cpu = d.spec.requirement.cpu ∧
          Double.reread d.spec.requirement.accelerators = d.spec.requirement.accelerators)
  /-- Every other entry is kept, with its value and its revision. -/
  kept : ∀ key, (∀ id d, r.key id = key → r.Stored b.keys id d → asksForReplicas d = true →
    WasListed r past → ∃ m ∈ past, m.Loses key) → b'.keys.get? key = b.keys.get? key
  blobs : b'.blobs = b.blobs
  /-- The pass succeeds exactly if the deployments were listed and none asks for replicas now. -/
  ok_iff : ok = true ↔ WasListed r past ∧ Settled r b'.keys
  /-- After a success, another pass asks for no change, and makes none. -/
  next : ok = true → ∀ later b'' q, (scaleToZero r).Alone b' later b'' q →
    b'' = b' ∧ ∀ m ∈ later, m.isChange = false

theorem stored_of_content {id : String} {a : Deployment} (ha : Kind.Storable a)
    (h : b.content (r.key id) = some (Kind.encode a)) : r.Stored b.keys id a.reread := by
  obtain ⟨e, he, hvalue⟩ := Option.map_eq_some_iff.1 h
  refine ⟨e, he, ?_⟩
  rw [hvalue]
  exact ha.decode?_encode

section Listed

variable (hown : ∀ name d, r.Stored b.keys name d → d.id = name)
  (pass : ScalePass r (r.listed b.keys) b moves ok b')
include hown pass

/-- What a pass leaves of a deployment that asks for replicas: scaled down, or untouched because a
call of its was lost. -/
theorem ScalePass.outcome_of_stored {id : String} (hd : r.Stored b.keys id d)
    (hasks : asksForReplicas d = true) :
    ((∀ m ∈ moves, ¬m.Loses (r.key id)) ∧ ∃ now, .clock now ∈ moves ∧
      b'.content (r.key id) = some (Kind.encode (withoutReplicas d now.millis))) ∨
    (∃ m ∈ moves, m.Loses (r.key id)) ∧ ok = false ∧
      b'.keys.get? (r.key id) = b.keys.get? (r.key id) := by
  obtain rfl := hown id d hd
  exact pass.outcome (Repository.nodup_listed hown) (Repository.mem_listed.2 ⟨_, hd⟩) hasks

/-- A deployment none of whose calls was lost is scaled down. -/
theorem ScalePass.scaled {id : String} (hd : r.Stored b.keys id d)
    (hasks : asksForReplicas d = true) (hmoves : ∀ m ∈ moves, ¬m.Loses (r.key id)) :
    ∃ now, .clock now ∈ moves ∧
      b'.content (r.key id) = some (Kind.encode (withoutReplicas d now.millis)) ∧
      r.Stored b'.keys id (withoutReplicas d now.millis).reread := by
  rcases pass.outcome_of_stored hown hd hasks with
    ⟨-, now, hnow, hcontent⟩ | ⟨⟨m, hm, hlost⟩, -⟩
  · have hstorable := storable_withoutReplicas hd.storable now.millis
    exact ⟨now, hnow, hcontent, stored_of_content hstorable hcontent⟩
  · exact absurd hlost (hmoves m hm)

/-- An entry that needs nothing, or whose calls were lost, is untouched. -/
theorem ScalePass.kept (h : ∀ id d, r.key id = key → r.Stored b.keys id d →
    asksForReplicas d = true → ∃ m ∈ moves, m.Loses key) :
    b'.keys.get? key = b.keys.get? key := by
  by_cases hasked : ∃ id d, r.key id = key ∧ r.Stored b.keys id d ∧ asksForReplicas d = true
  · obtain ⟨id, d, rfl, hd, hasks⟩ := hasked
    obtain ⟨m, hm, hlost⟩ := h id d rfl hd hasks
    rcases pass.outcome_of_stored hown hd hasks with ⟨hmoves, -⟩ | ⟨-, -, hget⟩
    · exact absurd hlost (hmoves m hm)
    · exact hget
  · refine (pass.elsewhere fun d hd hasks heq => hasked ?_).1
    obtain ⟨id, hd⟩ := Repository.mem_listed.1 hd
    exact ⟨id, d, hown id d hd ▸ heq, hd, hasks⟩

/-- A pass says that it is done exactly if nothing is left to be scaled down. -/
theorem ScalePass.ok_iff : ok = true ↔ Settled r b'.keys := by
  constructor
  · intro hok id d' hd'
    by_cases hasked : ∃ d, r.Stored b.keys id d ∧ asksForReplicas d = true
    · obtain ⟨d, hd, hasks⟩ := hasked
      rcases pass.outcome_of_stored hown hd hasks with ⟨-, now, -, hcontent⟩ | ⟨-, hfailed, -⟩
      · have hstorable := storable_withoutReplicas hd.storable now.millis
        rw [hd'.eq (stored_of_content hstorable hcontent)]
        rfl
      · rw [hok] at hfailed
        exact nomatch hfailed
    · have hget : b'.keys.get? (r.key id) = b.keys.get? (r.key id) := by
        refine pass.kept hown fun id' d hkey hd hasks => ?_
        obtain rfl := r.key_injective hkey
        exact absurd ⟨d, hd, hasks⟩ hasked
      obtain ⟨e, he, hdecode⟩ := hd'
      by_contra hasks
      exact hasked ⟨d', ⟨e, hget ▸ he, hdecode⟩, Bool.eq_true_of_not_eq_false hasks⟩
  · intro hsettled
    by_contra hok
    obtain ⟨d, hd, hasks, hlost⟩ := pass.exists_lost (Bool.eq_false_iff.2 hok)
    obtain ⟨id, hd⟩ := Repository.mem_listed.1 hd
    obtain rfl := hown id d hd
    rcases pass.outcome_of_stored hown hd hasks with ⟨hmoves, -⟩ | ⟨-, -, hget⟩
    · obtain ⟨m, hm, hlost⟩ := hlost
      exact hmoves m hm hlost
    · obtain ⟨e, he, hdecode⟩ := hd
      rw [hsettled d.id d ⟨e, hget.trans he, hdecode⟩] at hasks
      exact nomatch hasks

end Listed

/-- A pass over deployments that are stored under their own identifiers scales down those whose
calls are answered, and tells whether all are scaled down. -/
theorem scaleToZero_converges (hown : ∀ name d, r.Stored b.keys name d → d.id = name)
    (run : (scaleToZero r).Alone b past b' (.done ok)) : Converged r b past b' ok := by
  have hend := run.holds_alone (holds_scaleToZero_alone hown)
  rcases hend with ⟨reply, hend, hlost, rfl⟩ | ⟨entries, took, moves, hpast, pass⟩
  · obtain ⟨rfl, rfl⟩ := Prod.mk.inj hend
    have hnot : ¬WasListed r [.call (.list r.root) reply] := not_wasListed_of_lost hlost
    refine ⟨Or.inr ⟨reply, rfl, hlost⟩, fun hlisted => absurd hlisted hnot, fun _ _ => rfl, rfl,
      ?_, nofun⟩
    exact ⟨nofun, fun h => absurd h.1 hnot⟩
  · obtain rfl : past = .call (.list r.root) ⟨.answered entries, took⟩ :: moves := hpast
    have pass : ScalePass r (r.listed b.keys) b moves ok b' := pass
    have hlisted : WasListed r (.call (.list r.root) ⟨.answered entries, took⟩ :: moves) :=
      ⟨entries, took, .head moves⟩
    have hok := pass.ok_iff hown
    refine ⟨Or.inl hlisted, fun _ id d hd hasks hmoves => ?_,
      fun key hkey => pass.kept hown ?_, pass.blobs_eq,
      hok.trans (and_iff_right hlisted).symm,
      fun htrue _ _ _ => eq_of_settled_of_alone (hok.1 htrue)⟩
    · obtain ⟨now, hnow, hcontent, hstored⟩ :=
        pass.scaled hown hd hasks fun m hm => hmoves m (.tail _ hm)
      exact ⟨now, .tail _ hnow, hcontent, hstored, (withoutReplicas d now.millis).reread_eq_iff⟩
    · intro id d hid hd hasks
      obtain ⟨m, hm, hlost⟩ := hkey id d hid hd hasks hlisted
      rcases List.mem_cons.1 hm with rfl | hm
      · exact absurd hlost Move.not_loses_list
      · exact ⟨m, hm, hlost⟩

/-- A pass that succeeds and changes more of a deployment than it means to. -/
theorem scaleToZero_converges_largeCpu :
    let r : Repository Deployment := { scope := "ns" }
    let b : Backend := ⟨KeyStore.empty.write (r.key "a") (Kind.encode largeCpu), .empty⟩
    (∀ name d, r.Stored b.keys name d → d.id = name) ∧
      ∃ past b', (scaleToZero r).Alone b past b' (.done true) ∧ Converged r b past b' true ∧
        ∃ d d', r.Stored b.keys "a" d ∧ r.Stored b'.keys "a" d' ∧
          d'.spec.requirement.cpu ≠ d.spec.requirement.cpu := by
  intro r b
  have hstorable : Kind.Storable largeCpu :=
    Deployment.storable ⟨by decide +kernel, by decide +kernel⟩
  have hclean : r.IsClean b.keys := r.isClean_empty.write hstorable rfl
  have hown : ∀ name d, r.Stored b.keys name d → d.id = name :=
    fun _ _ hd => hclean.objectName_eq hd
  have hlarge : r.Stored b.keys "a" largeCpu.reread := (Repository.stored_write hstorable).2 rfl
  have hcpu : Double.reread (Double.reread largeCpu.spec.requirement.cpu) ≠
      Double.reread largeCpu.spec.requirement.cpu := by decide +kernel
  let now : Timestamp := ⟨1970, 1, 1, 0, 0, 0, 0⟩
  obtain ⟨s, hpass, -, hstored⟩ := undisturbed_scaleToZero now hclean
  obtain ⟨past, run⟩ := Program.exists_alone_undisturbed (scaleToZero r) now b
  rw [hpass] at run
  have hdown : scaledDown now largeCpu.reread =
      (withoutReplicas largeCpu.reread now.millis).reread := if_pos rfl
  have hafter := (hstored "a" _).2 ⟨_, hlarge, rfl⟩
  rw [hdown] at hafter
  refine ⟨hown, past, _, run, scaleToZero_converges hown run, largeCpu.reread, _, hlarge, hafter,
    ?_⟩
  have hreread (d : Deployment) :
      d.reread.spec.requirement.cpu = Double.reread d.spec.requirement.cpu := rfl
  have hkept (d : Deployment) (millis : UInt64) :
      (withoutReplicas d millis).spec.requirement.cpu = d.spec.requirement.cpu := rfl
  rw [hreread, hkept, hreread]
  exact hcpu

end Background

end Workplane
