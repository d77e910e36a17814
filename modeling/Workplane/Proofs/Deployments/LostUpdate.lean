import Mathlib.Data.List.Forall2
import Workplane.Proofs.Deployments.Writer
import Workplane.Proofs.Program.Undisturbed

/-!
# No update is lost

Operations that change deployments run at the same time on one store, interleaved call by call.
Then an update replaces exactly the value that it was computed from, a creation finds its key
absent, and the content of a key is what the changes that took place make of it, one after
another.  An operation that comes too late changes nothing and says so.
-/

namespace Workplane

open Workspace (Config)

/-- The value under a key. -/
def Backend.content (b : Backend) (key : String) : Option ByteArray :=
  (b.keys.get? key).map Entry.value

namespace Writer

variable {ι : Type} [DecidableEq ι] {c : Config} {ops : ι → Writer} {b : Backend} {t : Trace ι}
  {rest : ι → Program (Except Refusal (Option Deployment))}

/-! ### What is known of a single move -/

theorem Intends.mono {past now : List Move} (hsub : past ⊆ now) {w : Writer} {call : Call}
    {change : Change} (h : Intends c past w call change) : Intends c now w call change := by
  cases h with
  | create spec photon t photon_read looked =>
    exact .create spec photon t (photon_read.mono hsub) (hsub looked)
  | patch id p e d photon t saw decoded photon_read looked =>
    exact .patch id p e d photon t (saw.mono hsub) decoded (photon_read.mono hsub) (hsub looked)
  | delete id => exact .delete id
  | scaleToZero limit id e d t saw decoded asks looked =>
    exact .scaleToZero limit id e d t (saw.mono hsub) decoded asks (hsub looked)

/-- A move that was told whether it changed a key asked for the change of its operation. -/
theorem intends_of_verdict (run : Interleaving (fun i => ((ops i).service c).run) b t rest)
    {u v : Trace ι} {i : ι} {m : Move} (ht : t = u ++ (i, m) :: v) (hm : m.verdict ≠ none) :
    ∃ call change, m.request = some call ∧ Intends c (u.own i) (ops i) call change := by
  have hpermits := (run.holds fun i => holds_service c (ops i)).2 u i m v ht
  have hnot : ¬∀ x, m.request = some x → x.IsRead := fun h => hm (verdict_eq_none_of_isRead h)
  obtain ⟨x, hx⟩ := not_forall.1 hnot
  obtain ⟨hreq, hx⟩ := Classical.not_imp.1 hx
  obtain ⟨change, hchange⟩ := (hpermits.2 x hreq).resolve_left hx
  exact ⟨x, change, hreq, hchange⟩

/-- Only the last move of an operation was told whether it changed a key. -/
theorem Concluded.verdict_eq {past : List Move} {verdict verdict' : Bool} {m : Move}
    (h : Concluded past verdict) (hm : m ∈ past) (hv : m.verdict = some verdict') :
    verdict = verdict' := by
  obtain ⟨before, last, rfl, hquiet, hlast⟩ := h
  rcases List.mem_append.1 hm with hm | hm
  · rw [hquiet m hm] at hv
    exact absurd hv.symm (Option.some_ne_none verdict')
  · rw [List.mem_singleton.1 hm, hlast] at hv
    exact Option.some.inj hv

/-- An operation that was told whether it changed a key has ended with that verdict. -/
theorem ends_of_verdict (run : Interleaving (fun i => ((ops i).service c).run) b t rest)
    {i : ι} {m : Move} (ht : (i, m) ∈ t) {verdict : Bool} (hm : m.verdict = some verdict) :
    ∃ r, rest i = .done r ∧ (ops i).Ends c r (t.own i) ∧ Concluded (t.own i) verdict := by
  have hholds := (run.holds fun i => holds_service c (ops i)).1 i
  have hnot : ¬Quiet (t.own i) := fun hquiet => by
    have := hquiet m (Trace.mem_own.2 ht)
    rw [hm] at this
    exact absurd this (Option.some_ne_none verdict)
  -- An operation that goes on was not told yet whether it changed its key.
  cases hrest : rest i with
  | call call limit next =>
    rw [hrest] at hholds
    exact absurd hholds.1.1 hnot
  | clock next =>
    rw [hrest] at hholds
    exact absurd hholds.1.1 hnot
  | done r =>
    rw [hrest] at hholds
    have hends : (ops i).Ends c r (t.own i) := hholds
    have hconcluded : ∃ verdict', Concluded (t.own i) verdict' := by
      cases r with
      | ok d => exact ⟨true, hends.resolve_right fun h => hnot h.1⟩
      | error e => exact ⟨false, (hends.resolve_left hnot).1⟩
    obtain ⟨verdict', hconcluded⟩ := hconcluded
    obtain rfl := hconcluded.verdict_eq (Trace.mem_own.2 ht) hm
    exact ⟨r, rfl, hends, hconcluded⟩

/-- An operation that was told of its change has succeeded. -/
theorem ok_of_verdict (run : Interleaving (fun i => ((ops i).service c).run) b t rest)
    {i : ι} {m : Move} (ht : (i, m) ∈ t) (hm : m.verdict = some true) :
    ∃ d, rest i = .done (.ok d) := by
  obtain ⟨r, hrest, hends, hconcluded⟩ := ends_of_verdict run ht hm
  cases r with
  | ok d => exact ⟨d, hrest⟩
  | error e =>
    rcases hends with hquiet | ⟨hfalse, -⟩
    · obtain ⟨before, last, hown, -, hlast⟩ := hconcluded
      have := hquiet last (hown ▸ List.mem_append_right _ (.head []))
      rw [hlast] at this
      exact absurd this (Option.some_ne_none true)
    · exact absurd (hfalse.verdict_eq (Trace.mem_own.2 ht) hm) Bool.false_ne_true

/-- An operation whose change was refused has failed with a conflict or a missing object. -/
theorem error_of_verdict (run : Interleaving (fun i => ((ops i).service c).run) b t rest)
    {i : ι} {m : Move} (ht : (i, m) ∈ t) (hm : m.verdict = some false) :
    ∃ e, rest i = .done (.error e) ∧ IsLostRace e.toClass := by
  obtain ⟨r, hrest, hends, hconcluded⟩ := ends_of_verdict run ht hm
  have hnot : ¬Quiet (t.own i) := fun hquiet => by
    have := hquiet m (Trace.mem_own.2 ht)
    rw [hm] at this
    exact absurd this (Option.some_ne_none false)
  cases r with
  | ok d =>
    rcases hends with htrue | ⟨hquiet, -⟩
    · exact absurd (htrue.verdict_eq (Trace.mem_own.2 ht) hm) (by decide)
    · exact absurd hquiet hnot
  | error e => exact ⟨e, hrest, (hends.resolve_left hnot).2⟩

/-! ### What an update replaces -/

/-- A read of a key, the entry it showed, and no change of the key since then. -/
structure ReadSince (b : Backend) (u : Trace ι) (i : ι) (key : String) (e : Entry) : Prop where
  read : ∃ u₁ u₂ took, u = u₁ ++ (i, .call (.get key) ⟨.answered (some e), took⟩) :: u₂ ∧
    ∀ s ∈ u₂, s.2.changes key = false
  current : (b.replay u).keys.get? key = some e

/-- If a key has the revision that was read, then nobody has changed it since then. -/
theorem readSince_of_saw {u : Trace ι} (true_moves : u.IsTrue b) (valid : b.keys.Valid)
    (few : b.keys.revision.toNat + u.changes < 2 ^ 64 - 1) {i : ι} {key : String} {e : Entry}
    (saw : Saw (u.own i) key e) (hrev : (b.replay u).keys.revisionOf key = e.revision) :
    ReadSince b u i key e := by
  obtain ⟨took, hmem⟩ := saw
  obtain ⟨u₁, u₂, rfl⟩ := List.append_of_mem (Trace.mem_own.1 hmem)
  have hread : e ∈ (b.replay u₁).keys.get? key := (true_moves.at (some e) rfl).symm
  have hrest := Trace.isTrue_append.1 true_moves
  rw [Trace.changes_append, Trace.changes_cons] at few
  have hle := hrest.1.revision_replay_le
  rw [Trace.replay_append] at hrev
  have hunchanged := Trace.IsTrue.unchanged_of_revisionOf_eq hrest.2 (hrest.1.valid_replay valid)
    (by rw [Trace.changes_cons]; omega) hread hrev
  refine ⟨⟨u₁, u₂, took, rfl, fun s hs => hunchanged s (.tail _ hs)⟩, ?_⟩
  rw [Trace.replay_append, hrest.2.get?_replay hunchanged]
  exact hread

/-! ### What a change makes of the content -/

/-- The content of a key after a write is what was written. -/
theorem content_after_swap {m : Move} (hm : m.IsTrue b) {key : String} {expected : UInt64}
    {value : ByteArray} (hreq : m.request = some (.swap key expected value))
    (h : m.verdict = some true) : (m.after b).content key = some value := by
  rw [Backend.content, (hm.swap_written hreq h).2, KeyStore.get?_write_self]
  rfl

/-- A change that took place applied to the content of its key, which is then what the change
makes of it. -/
theorem result?_of_verdict {u : Trace ι} {i : ι} {m : Move} {w : Writer} {call : Call}
    {change : Change} (true_moves : (u ++ [(i, m)]).IsTrue b) (valid : b.keys.Valid)
    (few : b.keys.revision.toNat + u.changes < 2 ^ 64 - 1) (hreq : m.request = some call)
    (hm : m.verdict = some true) (hi : Intends c (u.own i) w call change) :
    change.result? c ((b.replay u).content (w.key c)) =
      some ((b.replay (u ++ [(i, m)])).content (w.key c)) := by
  have hmove : m.IsTrue (b.replay u) := true_moves.at
  have hu := (Trace.isTrue_append.1 true_moves).1
  have hafter : b.replay (u ++ [(i, m)]) = m.after (b.replay u) := Trace.replay_append u _
  rw [hafter]
  cases hi with
  | create spec photon now photon_read looked =>
    -- A write that expects no revision finds no entry.
    have hswap := hmove.swap_written hreq hm
    have hnone : (b.replay u).content ((create spec).key c) = none := by
      rw [Backend.content]
      exact congrArg _ ((hu.valid_replay valid).get?_eq_none hswap.1)
    rw [hnone]
    exact congrArg some (content_after_swap hmove hreq hm).symm
  | patch id p e d photon now saw decoded photon_read looked =>
    have hswap := hmove.swap_written hreq hm
    -- The revision is still the one that was read, and so is the content.
    have hsince := readSince_of_saw hu valid few saw hswap.1
    have hcontent : (b.replay u).content ((patch id p).key c) = some e.value :=
      congrArg (Option.map Entry.value) hsince.current
    have hnext := content_after_swap hmove hreq hm
    rw [hcontent]
    simp only [Change.result?, decoded, Option.map_some]
    exact congrArg some hnext.symm
  | delete id =>
    have hdelete := hmove.delete_existed hreq hm
    obtain ⟨e, he⟩ := Option.isSome_iff_exists.1 hdelete.1
    have hcontent : (b.replay u).content ((delete id).key c) = some e.value :=
      congrArg (Option.map Entry.value) he
    have hnext : (m.after (b.replay u)).content ((delete id).key c) = none := by
      rw [Backend.content, hdelete.2]
      exact congrArg _ (KeyStore.get?_delete_self _ _)
    rw [hcontent, hnext]
    rfl
  | scaleToZero limit id e d now saw decoded asks looked =>
    have hswap := hmove.swap_written hreq hm
    have hsince := readSince_of_saw hu valid few saw hswap.1
    have hcontent : (b.replay u).content ((scaleToZero limit id).key c) = some e.value :=
      congrArg (Option.map Entry.value) hsince.current
    have hnext := content_after_swap hmove hreq hm
    rw [hcontent]
    simp only [Change.result?, decoded, Option.bind_eq_bind, Option.bind_some, asks, if_true]
    exact congrArg some hnext.symm

/-- An operation changes no key but its own. -/
theorem key_of_changes {m : Move} (hm : m.IsTrue b) {past : List Move} {w : Writer} {call : Call}
    {change : Change} (hreq : m.request = some call) (hi : Intends c past w call change)
    {key : String} (h : m.changes key = true) : key = w.key c := by
  cases hm.effect with
  | quiet _ _ changes => exact absurd h (by rw [changes key]; exact Bool.false_ne_true)
  | wrote key' expected value request _ _ _ writes removes =>
    obtain rfl : key' = key := by simpa [Move.changes, writes, removes] using h
    rw [hreq] at request
    cases hi <;> cases request <;> rfl
  | removed key' request _ _ _ removes writes =>
    obtain rfl : key' = key := by simpa [Move.changes, writes, removes] using h
    rw [hreq] at request
    cases hi <;> cases request
    rfl

/-! ### The content of a key after a run -/

/-- A move of a trace made a change that its operation may ask for. -/
def Made (c : Config) (ops : ι → Writer) (t : Trace ι) (s : ι × Move) (change : Change) : Prop :=
  ∃ call, s.2.request = some call ∧ Intends c (t.own s.1) (ops s.1) call change

theorem Made.append {s : ι × Move} {change : Change} (h : Made c ops t s change) (v : Trace ι) :
    Made c ops (t ++ v) s change := by
  obtain ⟨call, hreq, hi⟩ := h
  refine ⟨call, hreq, hi.mono ?_⟩
  rw [Trace.own_append]
  exact List.subset_append_left _ _

/-- The content of a key is what the changes of the key make of it, in the order of the moves that
made them. -/
theorem exists_changes (run : Interleaving (fun i => ((ops i).service c).run) b t rest)
    (valid : b.keys.Valid) (few : b.keys.revision.toNat + t.changes < 2 ^ 64 - 1) (key : String) :
    ∃ changes : List Change,
      List.Forall₂ (Made c ops t) (t.filter fun s => s.2.changes key) changes ∧
      changes.foldlM (fun content change => change.result? c content) (b.content key) =
        some ((b.replay t).content key) := by
  induction run with
  | nil => exact ⟨[], .nil, rfl⟩
  | @snoc t rest run i m q step true_move ih =>
    have whole := run.snoc i m q step true_move
    have hsum : Trace.changes (t ++ [(i, m)]) = t.changes + m.count := by
      rw [Trace.changes_append, Trace.changes_cons]
      rfl
    rw [hsum] at few
    obtain ⟨changes, hmade, hfold⟩ := ih (by omega)
    have hmade' := hmade.imp fun s change h => Made.append h [(i, m)]
    have hafter : b.replay (t ++ [(i, m)]) = m.after (b.replay t) := Trace.replay_append t _
    cases hm : m.changes key with
    | false =>
      -- The content stays what it is, and the move is none of those that change it.
      refine ⟨changes, ?_, ?_⟩
      · simpa [List.filter_append, hm] using hmade'
      · have hsame : (m.after (b.replay t)).content key = (b.replay t).content key :=
          congrArg (Option.map Entry.value) (true_move.get?_after hm)
        rw [hafter, hsame]
        exact hfold
    | true =>
      -- The move was told of the change, so its operation intended it.
      have hverdict := true_move.verdict_of_changes hm
      obtain ⟨call, change, hreq, hi⟩ := intends_of_verdict whole rfl
        (by rw [hverdict]; exact Option.some_ne_none true)
      obtain rfl := key_of_changes true_move hreq hi hm
      refine ⟨changes ++ [change], ?_, ?_⟩
      · have hlast : Made c ops (t ++ [(i, m)]) (i, m) change := Made.append ⟨call, hreq, hi⟩ _
        rw [List.filter_append, List.filter_cons_of_pos (by simpa using hm)]
        exact List.rel_append hmade' (.cons hlast .nil)
      · have happly := result?_of_verdict whole.isTrue valid (by omega) hreq hverdict hi
        rw [List.foldlM_append, hfold]
        simp only [Option.bind_eq_bind, Option.bind_some, List.foldlM_cons, List.foldlM_nil, happly]
        rfl

/-! ### Creations -/

/-- The key of a creation that took place was absent, and is there afterwards. -/
theorem get?_eq_none_of_create {u v : Trace ι} {i : ι} {m : Move} {spec : Deployment.Spec}
    (run : Interleaving (fun i => ((ops i).service c).run) b t rest) (valid : b.keys.Valid)
    (ht : t = u ++ (i, m) :: v) (hop : ops i = create spec) (hm : m.verdict = some true) :
    (b.replay u).keys.get? ((ops i).key c) = none ∧
      ((m.after (b.replay u)).keys.get? ((ops i).key c)).isSome = true := by
  have htrue := run.isTrue
  obtain ⟨call, change, hreq, hi⟩ := intends_of_verdict run ht
    (by rw [hm]; exact Option.some_ne_none true)
  rw [ht] at htrue
  have hmove : m.IsTrue (b.replay u) := htrue.at
  have hu := (Trace.isTrue_append.1 htrue).1
  rw [hop] at hi ⊢
  cases hi with
  | create spec photon now photon_read looked =>
    have hswap := hmove.swap_written hreq hm
    refine ⟨(hu.valid_replay valid).get?_eq_none hswap.1, ?_⟩
    rw [hswap.2]
    exact congrArg Option.isSome (KeyStore.get?_write_self _ _ _)

/-! ### No update is lost -/

/-- An update computes the new deployment from the one that it has read. -/
inductive Updates (c : Config) : Writer → (Deployment → Deployment) → Prop
  | patch (id : String) (p : Patch) (photon : Option Photon) (now : UInt64) :
    Updates c (.patch id p) fun d => Service.Deployments.patched c p photon d now
  | scaleToZero (limit : Nat) (id : String) (now : UInt64) :
    Updates c (.scaleToZero limit id) fun d => Background.withoutReplicas d now

/-- Operations at the same time on one store behave as if each change were made at once. -/
structure NoLostUpdate (c : Config) (ops : ι → Writer) (b : Backend) (t : Trace ι)
    (rest : ι → Program (Except Refusal (Option Deployment))) : Prop where
  /-- An operation that has ended well has made its change with its last move, unless it is a
  scale-down that found nothing to do; one that has failed has changed nothing. -/
  outcome : ∀ i r, rest i = .done r → (ops i).Ends c r (t.own i)
  /-- An operation that has made its change ends well. -/
  success : ∀ i m, (i, m) ∈ t → m.verdict = some true → ∃ d, rest i = .done (.ok d)
  /-- An update replaces exactly the entry that it has read and decoded, and nobody has changed
  its key since then. -/
  update : ∀ u i m v, t = u ++ (i, m) :: v → m.verdict = some true →
    (∀ spec, ops i ≠ create spec) → (∀ id, ops i ≠ delete id) →
    ∃ e d f, ReadSince b u i ((ops i).key c) e ∧ Kind.decode? e.value = some d ∧
      Updates c (ops i) f ∧
      m.request = some (.swap ((ops i).key c) e.revision (Kind.encode (f d)))
  /-- The key of a creation is absent when it is written. -/
  create_absent : ∀ u i m v spec, t = u ++ (i, m) :: v → ops i = create spec →
    m.verdict = some true → (b.replay u).keys.get? ((ops i).key c) = none
  /-- Between two creations of a key, the key is removed. -/
  create_once : ∀ u i m v j m' w spec spec', t = u ++ (i, m) :: (v ++ (j, m') :: w) →
    ops i = create spec → ops j = create spec' → (ops i).id = (ops j).id →
    m.verdict = some true → m'.verdict = some true →
    ∃ s ∈ v, s.2.removes ((ops i).key c) = true
  /-- The content of a key is what the changes of the operations that succeeded make of it, in
  the order of their writes; each of them applied to the content at its point. -/
  content : ∀ key, ∃ changes : List Change,
    List.Forall₂ (Made c ops t) (t.filter fun s => s.2.changes key) changes ∧
      changes.foldlM (fun content change => change.result? c content) (b.content key) =
        some ((b.replay t).content key)
  /-- An operation whose change is refused ends with a conflict or a missing object, and leaves
  the store as it is. -/
  lost : ∀ u i m v, t = u ++ (i, m) :: v → m.verdict = some false →
    m.after (b.replay u) = b.replay u ∧
      ∃ e, rest i = .done (.error e) ∧ IsLostRace e.toClass

/-- Operations that run at the same time lose no update, in every interleaving of their calls and
on every store, as long as the count of changes does not reach the end of its range. -/
theorem noLostUpdate (c : Config) (ops : ι → Writer) (earlier : List Call) (t : Trace ι)
    (rest : ι → Program (Except Refusal (Option Deployment)))
    (run : Interleaving (fun i => ((ops i).service c).run) (Backend.empty.afterCalls earlier) t
      rest)
    (few : (Backend.empty.afterCalls earlier).keys.revision.toNat + t.changes < 2 ^ 64 - 1) :
    NoLostUpdate c ops (Backend.empty.afterCalls earlier) t rest := by
  have valid := Backend.valid_afterCalls (b := .empty) KeyStore.valid_empty earlier
  refine ⟨fun i r hr => ?_, fun i m => ok_of_verdict run, ?_, ?_, ?_,
    exists_changes run valid few, ?_⟩
  · have hholds := (run.holds fun i => holds_service c (ops i)).1 i
    rw [hr] at hholds
    exact hholds
  · intro u i m v ht hm hcreate hdelete
    obtain ⟨call, change, hreq, hi⟩ := intends_of_verdict run ht
      (by rw [hm]; exact Option.some_ne_none true)
    have htrue := run.isTrue
    rw [ht] at htrue
    have hmove : m.IsTrue ((Backend.empty.afterCalls earlier).replay u) := htrue.at
    have hu := (Trace.isTrue_append.1 htrue).1
    rw [ht, Trace.changes_append] at few
    generalize ops i = w at hcreate hdelete hi ⊢
    cases hi with
    | create spec => exact absurd rfl (hcreate spec)
    | delete id => exact absurd rfl (hdelete id)
    | patch id p e d photon now saw decoded =>
      have hswap := hmove.swap_written hreq hm
      exact ⟨e, d, _, readSince_of_saw hu valid (by omega) saw hswap.1, decoded,
        .patch id p photon now.millis, hreq⟩
    | scaleToZero limit id e d now saw decoded =>
      have hswap := hmove.swap_written hreq hm
      exact ⟨e, d, _, readSince_of_saw hu valid (by omega) saw hswap.1, decoded,
        .scaleToZero limit id now.millis, hreq⟩
  · intro u i m v spec ht hop hm
    exact (get?_eq_none_of_create run valid ht hop hm).1
  · intro u i m v j m' w spec spec' ht hop hop' hid hm hm'
    have hfirst := (get?_eq_none_of_create run valid ht hop hm).2
    have ht' : t = (u ++ (i, m) :: v) ++ (j, m') :: w := by
      rw [ht, List.append_assoc, List.cons_append]
    have hsecond := (get?_eq_none_of_create run valid ht' hop' hm').1
    have hkey : (ops j).key c = (ops i).key c := by rw [key, key, hid]
    rw [hkey, Trace.replay_append] at hsecond
    have htrue := run.isTrue
    rw [ht'] at htrue
    have hv := (Trace.isTrue_append.1 (Trace.isTrue_append.1 htrue).1).2.2
    by_contra hno
    have hsome := hv.isSome_replay hfirst fun s hs => by
      by_contra hremoves
      exact hno ⟨s, hs, Bool.not_eq_false _ ▸ hremoves⟩
    exact absurd (congrArg Option.isSome hsecond |>.symm.trans hsome) Bool.false_ne_true
  · intro u i m v ht hm
    have htrue := run.isTrue
    rw [ht] at htrue
    exact ⟨htrue.at.after_eq hm,
      error_of_verdict run (ht ▸ List.mem_append_right u (.head v)) hm⟩

/-- Operations that all change the key of one deployment. -/
def racers : Fin 5 → Writer
  | 0 => .scaleToZero 1000 "m"
  | 1 => .patch "m" ⟨"", "j", none, none, none, none⟩
  | 2 => .delete "m"
  | 3 => .delete "m"
  | 4 => .create ⟨"M", "p", { shape := "cpu.small", minReplicas := some 3 }, none, none, none⟩

/-- The scale-down reads the deployment before it is patched, and loses its race then.  Of the two
deletions that follow, the second one is refused, and the creation finds its key free. -/
theorem noLostUpdate_race :
    let c : Config := { scope := "ns", name := "w", state := .normal }
    let photon := "\x7b\"id\":\"p\",\"name\":\"n\",\"image\":\"i\"\x7d"
    let deployment := "\x7b\"id\":\"m\",\"spec\":\x7b\"name\":\"m\",\"photon_id\":\"p\"," ++
      "\"resource_requirement\":\x7b\"resource_shape\":\"cpu.small\",\"min_replicas\":3\x7d\x7d\x7d"
    let earlier : List Call :=
      [.swap "/ns/photons/p" 0 photon.toUTF8, .swap "/ns/deployments/m" 0 deployment.toUTF8]
    ∃ t rest, NoLostUpdate c racers (Backend.empty.afterCalls earlier) t rest ∧
      (t.filterMap fun s => s.2.verdict.map (s.1, ·)) =
        [(1, true), (0, false), (2, true), (3, false), (4, true)] ∧
      (∃ e, rest 0 = .done (.error e) ∧ IsLostRace e.toClass) ∧
      ∃ d, rest 1 = .done (.ok d) := by
  intro c photon deployment earlier
  let now : Timestamp := ⟨1970, 1, 1, 0, 0, 0, 0⟩
  have start : Interleaving (fun i => ((racers i).service c).run)
      (Backend.empty.afterCalls earlier) [] _ := .nil
  have read := start.snoc 0 (.call (.get "/ns/deployments/m")
    ⟨.answered ((Backend.empty.afterCalls earlier).keys.get? "/ns/deployments/m"), 0⟩) _
    (.call _ _ _ _) fun answer h => (Outcome.answered.inj h).symm
  -- After this read, the others run one after another, and the scale-down after the patch.
  have ends := ((((read.undisturbed 1 now).undisturbed 0 now).undisturbed 2 now).undisturbed 3
    now).undisturbed 4 now
  obtain ⟨t, rest, run, few, verdicts⟩ : ∃ t rest,
      Interleaving (fun i => ((racers i).service c).run) (Backend.empty.afterCalls earlier) t rest ∧
        (Backend.empty.afterCalls earlier).keys.revision.toNat + Trace.changes t < 2 ^ 64 - 1 ∧
        (t.filterMap fun s => s.2.verdict.map (s.1, ·)) =
          [(1, true), (0, false), (2, true), (3, false), (4, true)] :=
    ⟨_, _, ends, by decide +kernel⟩
  have law := noLostUpdate c racers earlier t rest run few
  have told (i : Fin 5) (verdict : Bool)
      (h : (i, verdict) ∈ t.filterMap fun s => s.2.verdict.map (s.1, ·)) :
      ∃ m, (i, m) ∈ t ∧ m.verdict = some verdict := by
    obtain ⟨⟨j, m⟩, hm, h⟩ := List.mem_filterMap.1 h
    obtain ⟨_, hverdict, heq⟩ := Option.map_eq_some_iff.1 h
    obtain ⟨rfl, rfl⟩ := Prod.mk.inj heq
    exact ⟨m, hm, hverdict⟩
  obtain ⟨m, hm, hlost⟩ := told 0 false (by rw [verdicts]; decide)
  obtain ⟨m', hm', hwon⟩ := told 1 true (by rw [verdicts]; decide)
  obtain ⟨u, v, hsplit⟩ := List.append_of_mem hm
  exact ⟨t, rest, law, verdicts, (law.lost u 0 m v hsplit hlost).2, law.success 1 m' hm' hwon⟩

end Writer

end Workplane
