import Workplane.Proofs.Objects.Deployments
import Workplane.Proofs.Program.Alone
import Workplane.Proofs.Workspace.Stored
import Workplane.Service.Secrets

/-!
# What an upsert of secrets leaves behind

An upsert of secrets makes no call unless all names are valid.  Then it writes the secrets from left
to right (`applied`), each with a read and a write of its own, and a read or a write that fails ends
it: at any moment the store is what it was with the front part of the secrets written
(`putAll_inOrder`).  A later secret of the same name replaces an earlier one, since its read finds
the revision that the earlier one has just got.
-/

namespace Workplane.Service.Secrets

open Workspace (Config)

variable {c : Config} {v : Secret} {vs front rest : List Secret} {b b' : Backend}
  {past : List Move} {inv : List Move → Backend → Prop}

/-! ### Secrets one after another -/

/-- The backend after a secret was written. -/
def written (c : Config) (b : Backend) (v : Secret) : Backend :=
  { b with keys := b.keys.write (c.secrets.key v.name) (Kind.encode v) }

/-- The backend after secrets were written from left to right. -/
def applied (c : Config) (vs : List Secret) (b : Backend) : Backend :=
  vs.foldl (written c) b

theorem applied_append (front rest : List Secret) (b : Backend) :
    applied c (front ++ rest) b = applied c rest (applied c front b) :=
  List.foldl_append

theorem blobs_applied (c : Config) (vs : List Secret) (b : Backend) :
    (applied c vs b).blobs = b.blobs := by
  induction vs generalizing b with
  | nil => rfl
  | cons v vs ih => exact ih (written c b v)

/-- Keys of no secret in the list keep their entries. -/
theorem get?_applied_of_forall_ne {key : String} (h : ∀ v ∈ vs, c.secrets.key v.name ≠ key) :
    (applied c vs b).keys.get? key = b.keys.get? key := by
  induction vs generalizing b with
  | nil => rfl
  | cons v vs ih =>
    have hrest := ih (b := written c b v) fun w hw => h w (.tail v hw)
    exact hrest.trans (KeyStore.get?_write_of_ne (h v (.head vs)) _ _)

/-- The last secret of a name is stored. -/
theorem stored_applied (hlast : ∀ w ∈ rest, w.name ≠ v.name) :
    c.secrets.Stored (applied c (front ++ v :: rest) b).keys v.name v := by
  have hkey : ∀ w ∈ rest, c.secrets.key w.name ≠ c.secrets.key v.name := fun w hw hkey =>
    hlast w hw (c.secrets.key_injective hkey)
  have hwritten : c.secrets.Stored (written c (applied c front b) v).keys v.name v := by
    refine (Repository.stored_write (Secret.storable v)).2 ?_
    rw [if_pos rfl]
    rfl
  obtain ⟨e, he, hv⟩ := hwritten
  rw [applied_append]
  exact ⟨e, (get?_applied_of_forall_ne hkey).trans he, hv⟩

/-! ### A single secret -/

/-- Why a secret was not written: the call that failed it, and the error. -/
inductive FailsAt (c : Config) (b : Backend) (v : Secret) : StoreError → Move → Prop
  | read {e : StoreError} {reply : Reply (Call.get (c.secrets.key v.name)).Answer}
    (outage : e.IsOutage) (lost : reply.IsLost) :
    FailsAt c b v e (.call (.get (c.secrets.key v.name)) reply)
  | unreadable {found : Entry} (detail : String) (took : Nat)
    (present : b.keys.get? (c.secrets.key v.name) = some found)
    (broken : (Kind.decode? found.value : Option Secret) = none) :
    FailsAt c b v (.serialization (Kind.plural Secret) detail)
      (.call (.get (c.secrets.key v.name)) ⟨.answered (some found), took⟩)
  | write {e : StoreError} {revision : UInt64}
    {reply : Reply (Call.swap (c.secrets.key v.name) revision (Kind.encode v)).Answer}
    (outage : e.IsOutage) (lost : reply.IsLost) :
    FailsAt c b v e (.call (.swap (c.secrets.key v.name) revision (Kind.encode v)) reply)

/-- The last call of a run has failed a secret. -/
def FailedAt (c : Config) (b : Backend) (v : Secret) (e : Refusal) (past : List Move) : Prop :=
  ∃ e' before m, e = .store e' ∧ past = before ++ [m] ∧ FailsAt c b v e' m

theorem not_isNotFound_of_isOutage {e : StoreError} (h : e.IsOutage) : e.isNotFound = false := by
  cases e with
  | timeout | backend => rfl
  | alreadyExists | notFound | conflict | serialization => exact h.elim

/-- A write at the present revision, or at none where there is no entry, takes place. -/
theorem answer_swap (v : Secret) {revision : UInt64}
    (h : b.keys.revisionOf (c.secrets.key v.name) = revision) :
    ((Call.swap (c.secrets.key v.name) revision (Kind.encode v)).answer b).1.written = true ∧
      ((Call.swap (c.secrets.key v.name) revision (Kind.encode v)).answer b).2 = written c b v := by
  rw [Call.answer, KeyStore.compareAndSwap_of_eq h]
  exact ⟨rfl, rfl⟩

theorem ensures_put (hinv : ∀ past, inv past b) :
    Ensures (.alone inv) (fun _ s => s.2 = written c b v)
      (fun e s => s.2 = b ∧ FailedAt c b v e s.1) (put c v) (past, b) := by
  refine ensures_bind.2 (ensures_ifFound.2
    (Repository.ensures_getVersioned (hinv past) ?_ ?_ ?_ ?_))
  · -- There is a secret: it is replaced at the revision that was read, which is still the present
    -- one since nothing else writes.
    rintro e a took _ ⟨htrue, rfl⟩ ha
    have hget : some e = b.keys.get? (c.secrets.key v.name) := htrue _ rfl
    obtain ⟨hwritten, hafter⟩ := answer_swap v (KeyStore.revisionOf_of_get? hget.symm)
    refine ensures_bind.2 (ensures_ofStore.2 (Repository.ensures_updateAt (hinv _) ?_ ?_ ?_))
    · rintro swap took' _ ⟨htrue', rfl⟩ -
      exact ensures_pure.2 hafter
    · rintro swap took' _ ⟨htrue', rfl⟩ hrefused
      obtain rfl := htrue' swap rfl
      exact absurd hwritten (Bool.eq_false_iff.1 hrefused)
    · rintro e' reply s houtage hlost hs
      obtain rfl := Environment.eq_of_lost hs hlost
      exact ⟨rfl, e', _, _, rfl, rfl, .write houtage hlost⟩
  · -- There is none: an absent key has the revision zero that a creation expects.
    rintro took _ ⟨htrue, rfl⟩
    have hget : none = b.keys.get? (c.secrets.key v.name) := htrue _ rfl
    obtain ⟨hwritten, hafter⟩ := answer_swap v (KeyStore.revisionOf_of_get?_eq_none hget.symm)
    refine ensures_bind.2 (ensures_ofStore.2 (Repository.ensures_create (hinv _) ?_ ?_ ?_))
    · rintro swap took' _ ⟨-, rfl⟩ -
      exact ensures_pure.2 hafter
    · rintro swap took' _ ⟨htrue', rfl⟩ hrefused
      obtain rfl := htrue' swap rfl
      exact absurd hwritten (Bool.eq_false_iff.1 hrefused)
    · rintro e' reply s houtage hlost hs
      obtain rfl := Environment.eq_of_lost hs hlost
      exact ⟨rfl, e', _, _, rfl, rfl, .write houtage hlost⟩
  · -- What is stored under the name is no secret.
    rintro e detail took _ ⟨htrue, rfl⟩ hbroken
    exact ⟨rfl, _, _, _, rfl, rfl, .unreadable detail took (htrue _ rfl).symm hbroken⟩
  · rintro e reply s houtage hlost hs
    obtain rfl := Environment.eq_of_lost hs hlost
    rw [if_neg (Bool.eq_false_iff.1 (not_isNotFound_of_isOutage houtage))]
    exact ⟨rfl, e, _, _, rfl, rfl, .read houtage hlost⟩

/-- An upsert that is cut off has written the secrets before the one that failed. -/
theorem ensures_forM_put
    (hinv : ∀ past front rest, vs = front ++ rest → inv past (applied c front b)) :
    Ensures (.alone inv) (fun _ s => s.2 = applied c vs b)
      (fun e s => ∃ front v rest, vs = front ++ v :: rest ∧ s.2 = applied c front b ∧
        FailedAt c s.2 v e s.1) (vs.forM (put c)) (past, b) := by
  -- After the first secret the others start from the backend that it has left, so the backend has
  -- to be general.
  induction vs generalizing b past with
  | nil => exact ensures_pure.2 rfl
  | cons v vs ih =>
    have hfirst : Ensures (.alone inv) _ _ (put c v) (past, b) :=
      ensures_put fun past => hinv past [] (v :: vs) rfl
    show Ensures _ _ _ (put c v >>= fun _ => vs.forM (put c)) _
    refine ensures_bind.2 (hfirst.mono ?_ ?_)
    · rintro - ⟨past', b'⟩ hb
      obtain rfl : b' = written c b v := hb
      have hrest : ∀ past front rest, vs = front ++ rest →
          inv past (applied c front (written c b v)) := fun past front rest hvs =>
        hinv past (v :: front) rest (congrArg (v :: ·) hvs)
      refine (ih hrest).mono (fun _ s hs => hs) ?_
      rintro e s ⟨front, w, rest, rfl, hs, hfailed⟩
      exact ⟨v :: front, w, rest, rfl, hs, hfailed⟩
    · rintro e s ⟨hs, hfailed⟩
      exact ⟨[], v, vs, rfl, hs, hs ▸ hfailed⟩

/-! ### Names -/

theorem isValidName_iff {name : String} :
    Secret.isValidName name = true ↔ name ≠ "" ∧ '/' ∉ name.toList := by
  simp [Secret.isValidName]

theorem forM_checkName (h : ∀ v ∈ vs, Secret.isValidName v.name = true) :
    vs.forM checkName = pure () := by
  induction vs with
  | nil => rfl
  | cons v vs ih =>
    have hfirst : checkName v = pure () := by rw [checkName, if_pos (h v (.head vs))]
    show checkName v >>= (fun _ => vs.forM checkName) = pure ()
    rw [hfirst, pure_bind]
    exact ih fun w hw => h w (.tail v hw)

/-- The first name that is not valid is refused. -/
theorem forM_checkName_of_find? (h : vs.find? (fun w => !Secret.isValidName w.name) = some v) :
    vs.forM checkName = throw (.secretName v.name) := by
  induction vs with
  | nil => exact nomatch h
  | cons w vs ih =>
    show checkName w >>= (fun _ => vs.forM checkName) = throw _
    cases hw : Secret.isValidName w.name with
    | true =>
      have hfirst : checkName w = pure () := by rw [checkName, if_pos hw]
      rw [List.find?_cons_of_neg (by simp [hw])] at h
      rw [hfirst, pure_bind]
      exact ih h
    | false =>
      have hfirst : checkName w = throw (.secretName w.name) := by
        rw [checkName, if_neg (Bool.eq_false_iff.1 hw)]
      rw [List.find?_cons_of_pos (by simp [hw])] at h
      obtain rfl := Option.some.inj h
      rw [hfirst]
      rfl

theorem ensureWritable_of_normal (h : c.state = .normal) : ensureWritable c = pure () := by
  rw [ensureWritable, h]
  rfl

/-! ### The upsert -/

/-- What was done at a moment of an upsert: the front part of the secrets was written.  It has come
to its end with success if they are all of them, and with a refusal if the next one has failed. -/
structure Applied (c : Config) (vs : List Secret) (b : Backend) (past : List Move) (b' : Backend)
    (q : Program (Except Refusal Unit)) (i : Nat) : Prop where
  le : i ≤ vs.length
  eq : b' = applied c (vs.take i) b
  /-- Keys of other names or kinds keep their entries. -/
  kept : ∀ key, (∀ v ∈ vs.take i, c.secrets.key v.name ≠ key) →
    b'.keys.get? key = b.keys.get? key
  blobs : b'.blobs = b.blobs
  ok : ∀ r, q = .done r → (r = .ok () ↔ i = vs.length)
  error : ∀ e, q = .done (.error e) → ∃ v, vs[i]? = some v ∧ FailedAt c b' v e past
  /-- At the end, each name holds the value of the last secret of that name. -/
  stored : i = vs.length → ∀ front v rest, vs = front ++ v :: rest →
    (∀ w ∈ rest, w.name ≠ v.name) → c.secrets.Stored b'.keys v.name v

variable {q : Program (Except Refusal Unit)}

theorem applied_of_front (hvs : vs = front ++ rest) (hb : b' = applied c front b)
    (ok : ∀ r, q = .done r → (r = .ok () ↔ rest = []))
    (error : ∀ e, q = .done (.error e) → ∃ v others, rest = v :: others ∧ FailedAt c b' v e past) :
    Applied c vs b past b' q front.length := by
  subst hvs hb
  have hall : front.length = (front ++ rest).length ↔ rest = [] := by
    rw [List.length_append, Nat.left_eq_add, List.length_eq_zero_iff]
  refine ⟨by simp, by rw [List.take_left], fun key hkey => ?_, blobs_applied c front b,
    fun r hr => (ok r hr).trans hall.symm, fun e he => ?_, fun hi front' v rest' hvs hlast => ?_⟩
  · rw [List.take_left] at hkey
    exact get?_applied_of_forall_ne hkey
  · obtain ⟨v, others, rfl, hfailed⟩ := error e he
    exact ⟨v, by simp, hfailed⟩
  · rw [hall.1 hi, List.append_nil] at hvs
    rw [hvs]
    exact stored_applied hlast

/-- At any moment, the front part of the secrets was written. -/
theorem applied_of_alone (run : (vs.forM (put c)).run.Alone b past b' q) :
    ∃ i, Applied c vs b past b' q i := by
  -- Each call finds a front part written, so that is known also of runs that are not done.
  let isFront (_ : List Move) (b' : Backend) : Prop :=
    ∃ front rest, vs = front ++ rest ∧ b' = applied c front b
  have hupsert : Ensures (.alone isFront) _ _ (vs.forM (put c)) ([], b) :=
    ensures_forM_put fun _ front rest hvs => ⟨front, rest, hvs, rfl⟩
  have hend := run.holds_alone hupsert
  cases q with
  | done r =>
    cases r with
    | ok u =>
      have hb : b' = applied c vs b := hend
      refine ⟨_, applied_of_front (List.append_nil vs).symm hb (fun r hr => ?_) fun e he => ?_⟩
      · obtain rfl := Program.done.inj hr
        exact iff_of_true rfl rfl
      · exact nomatch Program.done.inj he
    | error e =>
      obtain ⟨front, v, rest, hvs, hb, hfailed⟩ : ∃ front v rest, _ := hend
      refine ⟨_, applied_of_front hvs hb (fun r hr => ?_) fun e' he' => ?_⟩
      · obtain rfl := Program.done.inj hr
        exact iff_of_false nofun (List.cons_ne_nil v rest)
      · obtain rfl := Except.error.inj (Program.done.inj he')
        exact ⟨v, rest, rfl, hfailed⟩
  | call call limit next =>
    obtain ⟨front, rest, hvs, hb⟩ := hend.1
    exact ⟨_, applied_of_front hvs hb (fun _ h => nomatch h) fun _ h => nomatch h⟩
  | clock next =>
    obtain ⟨front, rest, hvs, hb⟩ := hend.1
    exact ⟨_, applied_of_front hvs hb (fun _ h => nomatch h) fun _ h => nomatch h⟩

/-- An upsert writes nothing if a name is not valid, and else the front part of the secrets, from
left to right: all of them if it succeeds, and those before the one that fails if it does not. -/
theorem putAll_inOrder (hnormal : c.state = .normal)
    (run : (putAll c vs).run.Alone b past b' q) :
    ((∃ v ∈ vs, v.name = "" ∨ '/' ∈ v.name.toList) →
      past = [] ∧ b' = b ∧ ∃ v ∈ vs, q = .done (.error (.secretName v.name))) ∧
    ((∀ v ∈ vs, v.name ≠ "" ∧ '/' ∉ v.name.toList) → ∃ i, Applied c vs b past b' q i) := by
  rw [putAll, ensureWritable_of_normal hnormal, pure_bind] at run
  constructor
  · rintro ⟨w, hw, hname⟩
    have hinvalid : Secret.isValidName w.name = false := by
      refine Bool.eq_false_iff.2 fun hvalid => ?_
      have h := isValidName_iff.1 hvalid
      exact hname.elim h.1 h.2
    obtain ⟨v, hv⟩ : ∃ v, vs.find? (fun w => !Secret.isValidName w.name) = some v := by
      rw [← Option.isSome_iff_exists, List.find?_isSome]
      exact ⟨w, hw, by rw [hinvalid]; rfl⟩
    rw [forM_checkName_of_find? hv] at run
    obtain ⟨rfl, rfl, rfl⟩ := Program.Alone.eq_of_done run
    exact ⟨rfl, rfl, v, List.mem_of_find?_eq_some hv, rfl⟩
  · intro hnames
    rw [forM_checkName fun v hv => isValidName_iff.2 (hnames v hv), pure_bind] at run
    exact applied_of_alone run

/-- A secret that is stored already and named twice holds its last value, and an invalid name
refuses the whole request. -/
theorem putAll_inOrder_namedTwice :
    let c : Config := { scope := "ns", name := "w", state := .normal }
    let stored : Secret := ⟨"k", "0"⟩
    let b : Backend := ⟨KeyStore.empty.write (c.secrets.key "k") (Kind.encode stored), .empty⟩
    let vs : List Secret := [⟨"k", "1"⟩, ⟨"m", "2"⟩, ⟨"k", "3"⟩]
    (∃ past b', (putAll c vs).run.Alone b past b' (.done (.ok ())) ∧
      c.secrets.Stored b'.keys "k" ⟨"k", "3"⟩ ∧ c.secrets.Stored b'.keys "m" ⟨"m", "2"⟩) ∧
    ∃ v, (putAll c (⟨"a/b", "4"⟩ :: vs)).run = .done (.error (.secretName v)) := by
  intro c stored b vs
  constructor
  · let now : Timestamp := ⟨1970, 1, 1, 0, 0, 0, 0⟩
    obtain ⟨past, run, -⟩ := (putAll c vs).run.exists_alone_answered now b
    have hok : (((putAll c vs).run.undisturbed now b).1).isOk = true := by decide +kernel
    generalize ((putAll c vs).run.undisturbed now b).1 = r at run hok
    generalize ((putAll c vs).run.undisturbed now b).2 = b' at run
    cases r with
    | error e => exact nomatch hok
    | ok u =>
      obtain ⟨i, happlied⟩ := (putAll_inOrder rfl run).2 (by decide)
      have hall : i = vs.length := (happlied.ok _ rfl).1 rfl
      exact ⟨past, b', run, happlied.stored hall [⟨"k", "1"⟩, ⟨"m", "2"⟩] ⟨"k", "3"⟩ [] rfl nofun,
        happlied.stored hall [⟨"k", "1"⟩] ⟨"m", "2"⟩ [⟨"k", "3"⟩] rfl (by decide)⟩
  · have unmoved : (putAll c (⟨"a/b", "4"⟩ :: vs)).run.Alone b [] b _ := .start
    obtain ⟨-, -, v, -, hv⟩ := (putAll_inOrder rfl unmoved).1 ⟨⟨"a/b", "4"⟩, .head vs, by decide⟩
    exact ⟨v.name, hv⟩

end Workplane.Service.Secrets
