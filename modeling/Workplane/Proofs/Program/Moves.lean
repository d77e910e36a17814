import Workplane.Proofs.KeyStore.Revisions
import Workplane.Storage.Program

/-!
# Moves of programs

A move is one step of a program together with what the program learns from it: a call and its
reply, or a look at the clock.  A move is true of a backend when an answered call has the answer
of the backend (`Move.IsTrue`), and `Move.after` is the backend after it.  A call that fails or is
given up has no effect, so moves cover every pattern of failing calls.
-/

namespace Workplane

/-- A step of a program and what the program learns from it. -/
inductive Move where
  | call (c : Call) (reply : Reply c.Answer)
  | clock (now : Timestamp)

/-- Moves of several programs in their order, each with the program that made it. -/
abbrev Trace (ι : Type) := List (ι × Move)

namespace Move

/-- An answered call has the answer of the backend. -/
def IsTrue (b : Backend) : Move → Prop
  | call c reply => ∀ answer, reply.outcome = .answered answer → answer = (c.answer b).1
  | clock _ => True

/-- The backend after a move. -/
def after (b : Backend) : Move → Backend
  | call c reply =>
    match reply.outcome with
    | .answered _ => (c.answer b).2
    | .failed _ | .gaveUp => b
  | clock _ => b

/-- The call of a move; `none` for a look at the clock. -/
def request : Move → Option Call
  | call c _ => some c
  | clock _ => none

/-- Whether an answered call that may change a key did change it; `none` for all other moves. -/
def verdict : Move → Option Bool
  | call (.swap ..) ⟨.answered swap, _⟩ => some swap.written
  | call (.delete _) ⟨.answered existed, _⟩ => some existed
  | _ => none

/-- The move wrote a key. -/
def writes (key : String) : Move → Bool
  | call (.swap k ..) ⟨.answered swap, _⟩ => k == key && swap.written
  | _ => false

/-- The move removed a key. -/
def removes (key : String) : Move → Bool
  | call (.delete k) ⟨.answered existed, _⟩ => k == key && existed
  | _ => false

/-- The move wrote or removed a key. -/
def changes (key : String) (m : Move) : Bool :=
  m.writes key || m.removes key

/-- The data that a move puts under the key of a blob. -/
def puts? (key : String) : Move → Option ByteArray
  | call (.putBlob k data) ⟨.answered _, _⟩ => if k = key then some data else none
  | _ => none

theorem request_of_puts? {m : Move} {key : String} {data : ByteArray}
    (h : m.puts? key = some data) : m.request = some (.putBlob key data) := by
  unfold puts? at h
  split at h
  · split at h
    · rename_i heq
      obtain rfl := Option.some.inj h
      rw [request, heq]
    · exact nomatch h
  · exact nomatch h

theorem get?_blobs_after (b : Backend) (m : Move) (key : String) :
    (m.after b).blobs.get? key = (m.puts? key).or (b.blobs.get? key) := by
  cases m with
  | clock now => rfl
  | call c reply =>
    obtain ⟨outcome, took⟩ := reply
    cases outcome with
    | failed causes => cases c <;> rfl
    | gaveUp => cases c <;> rfl
    | answered answer =>
      cases c with
      | putBlob k data =>
        show (b.blobs.put k data).get? key = (if k = key then some data else none).or _
        split
        · rename_i heq
          rw [← heq]
          exact BlobMap.get?_put_self _ _ _
        · rename_i hne
          exact BlobMap.get?_put_of_ne hne _ _
      | _ => rfl

/-! ### What a true move does to the keys -/

/-- What a move does to the keys of a backend: nothing, or a single write or removal. -/
inductive Effect (b : Backend) (m : Move) : Prop
  | quiet (verdict : m.verdict ≠ some true) (keys : (m.after b).keys = b.keys)
      (changes : ∀ k, m.changes k = false)
  | wrote (key : String) (expected : UInt64) (value : ByteArray)
      (request : m.request = some (.swap key expected value)) (verdict : m.verdict = some true)
      (revision : b.keys.revisionOf key = expected)
      (keys : (m.after b).keys = b.keys.write key value)
      (writes : ∀ k, m.writes k = (key == k)) (removes : ∀ k, m.removes k = false)
  | removed (key : String) (request : m.request = some (.delete key))
      (verdict : m.verdict = some true) (existed : (b.keys.get? key).isSome = true)
      (keys : (m.after b).keys = (b.keys.delete key).2)
      (removes : ∀ k, m.removes k = (key == k)) (writes : ∀ k, m.writes k = false)

theorem IsTrue.effect {b : Backend} {m : Move} (hm : m.IsTrue b) : m.Effect b := by
  -- Reads, blobs, and calls without an answer leave the keys alone.
  have none_quiet : m.verdict = none → (m.after b).keys = b.keys → (∀ k, m.changes k = false) →
      m.Effect b := fun h => .quiet (by rw [h]; exact Option.some_ne_none true |>.symm)
  cases m with
  | clock now => exact none_quiet rfl rfl fun _ => rfl
  | call c reply =>
    obtain ⟨outcome, took⟩ := reply
    cases outcome with
    | failed causes => cases c <;> exact none_quiet rfl rfl fun _ => rfl
    | gaveUp => cases c <;> exact none_quiet rfl rfl fun _ => rfl
    | answered answer =>
      have hanswer := hm answer rfl
      subst hanswer
      cases c with
      | get key => exact none_quiet rfl rfl fun _ => rfl
      | list start => exact none_quiet rfl rfl fun _ => rfl
      | putBlob key data => exact none_quiet rfl rfl fun _ => rfl
      | getBlob key => exact none_quiet rfl rfl fun _ => rfl
      | swap key expected value =>
        rcases Decidable.em (b.keys.revisionOf key = expected) with heq | hne
        · refine .wrote key expected value rfl ?_ heq ?_ (fun k => ?_) fun _ => rfl
          · simp [verdict, Call.answer, KeyStore.compareAndSwap_of_eq heq]
          · simp [after, Call.answer, KeyStore.compareAndSwap_of_eq heq]
          · simp [writes, Call.answer, KeyStore.compareAndSwap_of_eq heq]
        · refine .quiet ?_ ?_ fun k => ?_
          · simp [verdict, Call.answer, KeyStore.compareAndSwap_of_ne hne]
          · simp [after, Call.answer, KeyStore.compareAndSwap_of_ne hne]
          · simp [changes, writes, removes, Call.answer, KeyStore.compareAndSwap_of_ne hne]
      | delete key =>
        rcases Decidable.em ((b.keys.get? key).isSome = true) with hsome | hnone
        · have hdel : (b.keys.delete key).1 = true := KeyStore.delete_existed.2 hsome
          refine .removed key rfl ?_ hsome rfl (fun k => ?_) fun _ => rfl
          · simp [verdict, Call.answer, hdel]
          · simp [removes, Call.answer, hdel]
        · have hdel := KeyStore.delete_of_get?_eq_none (Option.not_isSome_iff_eq_none.1 hnone)
          refine .quiet ?_ ?_ fun k => ?_
          · simp [verdict, Call.answer, hdel]
          · simp [after, Call.answer, hdel]
          · simp [changes, writes, removes, Call.answer, hdel]

/-- A write changes no key but its own. -/
theorem eq_of_changes_of_swap {m : Move} {key key' : String} {expected : UInt64}
    {value : ByteArray} (hreq : m.request = some (.swap key' expected value))
    (h : m.changes key = true) : key' = key := by
  cases m with
  | clock now => exact nomatch hreq
  | call x reply =>
    obtain rfl := Option.some.inj hreq
    obtain ⟨outcome, took⟩ := reply
    cases outcome with
    | answered swap =>
      simp only [changes, writes, removes, Bool.or_false, Bool.and_eq_true, beq_iff_eq] at h
      exact h.1
    | failed causes => exact nomatch h
    | gaveUp => exact nomatch h

/-- A move that changes a key is told so. -/
theorem IsTrue.verdict_of_changes {b : Backend} {m : Move} (hm : m.IsTrue b) {key : String}
    (h : m.changes key = true) : m.verdict = some true := by
  cases hm.effect with
  | quiet _ _ changes => exact absurd h (by rw [changes key]; exact Bool.false_ne_true)
  | wrote _ _ _ _ verdict => exact verdict
  | removed _ _ verdict => exact verdict

/-- A conditional write that took place found the revision that it expected. -/
theorem IsTrue.swap_written {b : Backend} {m : Move} (hm : m.IsTrue b) {key : String}
    {expected : UInt64} {value : ByteArray} (hreq : m.request = some (.swap key expected value))
    (h : m.verdict = some true) :
    b.keys.revisionOf key = expected ∧ (m.after b).keys = b.keys.write key value := by
  cases hm.effect with
  | quiet verdict => exact absurd h verdict
  | wrote _ _ _ request _ revision keys =>
    rw [hreq] at request
    obtain ⟨rfl, rfl, rfl⟩ := Call.swap.inj (Option.some.inj request)
    exact ⟨revision, keys⟩
  | removed _ request =>
    rw [hreq] at request
    exact Call.noConfusion (Option.some.inj request)

/-- A deletion that took place found its key. -/
theorem IsTrue.delete_existed {b : Backend} {m : Move} (hm : m.IsTrue b) {key : String}
    (hreq : m.request = some (.delete key)) (h : m.verdict = some true) :
    (b.keys.get? key).isSome = true ∧ (m.after b).keys = (b.keys.delete key).2 := by
  cases hm.effect with
  | quiet verdict => exact absurd h verdict
  | wrote _ _ _ request =>
    rw [hreq] at request
    exact Call.noConfusion (Option.some.inj request)
  | removed _ request _ existed keys =>
    rw [hreq] at request
    obtain rfl := Call.delete.inj (Option.some.inj request)
    exact ⟨existed, keys⟩

/-- A move that is not told of a change leaves the keys as they are. -/
theorem IsTrue.keys_after {b : Backend} {m : Move} (hm : m.IsTrue b)
    (h : m.verdict ≠ some true) : (m.after b).keys = b.keys := by
  cases hm.effect with
  | quiet _ keys _ => exact keys
  | wrote _ _ _ _ verdict => exact absurd verdict h
  | removed _ _ verdict => exact absurd verdict h

/-- Only a call that puts a blob changes blobs. -/
theorem blobs_after {b : Backend} {m : Move}
    (h : ∀ key data, m.request ≠ some (.putBlob key data)) : (m.after b).blobs = b.blobs := by
  cases m with
  | clock now => rfl
  | call c reply =>
    obtain ⟨outcome, took⟩ := reply
    cases outcome with
    | failed causes => rfl
    | gaveUp => rfl
    | answered answer =>
      cases c with
      | putBlob key data => exact absurd rfl (h key data)
      | _ => rfl

/-- A move that changes no key and puts no blob leaves the whole backend as it is. -/
theorem IsTrue.after_eq_of_verdict_ne {b : Backend} {m : Move} (hm : m.IsTrue b)
    (h : m.verdict ≠ some true) (hblob : ∀ key data, m.request ≠ some (.putBlob key data)) :
    m.after b = b :=
  calc m.after b = ⟨(m.after b).keys, (m.after b).blobs⟩ := rfl
    _ = ⟨b.keys, b.blobs⟩ := by rw [hm.keys_after h, blobs_after hblob]

/-- A call that is told that it changed nothing leaves the whole backend as it is. -/
theorem IsTrue.after_eq {b : Backend} {m : Move} (hm : m.IsTrue b)
    (h : m.verdict = some false) : m.after b = b := by
  refine hm.after_eq_of_verdict_ne (by rw [h]; decide) fun key data hreq => ?_
  cases m with
  | clock now => exact nomatch hreq
  | call c reply =>
    obtain rfl := Option.some.inj hreq
    exact nomatch h

theorem IsTrue.get?_after {b : Backend} {m : Move} (hm : m.IsTrue b) {key : String}
    (h : m.changes key = false) : (m.after b).keys.get? key = b.keys.get? key := by
  cases hm.effect with
  | quiet _ keys _ => rw [keys]
  | wrote key' _ value _ _ _ keys writes _ =>
    have hne : key' ≠ key := by
      rintro rfl
      simp [changes, writes] at h
    rw [keys, KeyStore.get?_write_of_ne hne]
  | removed key' _ _ _ keys removes _ =>
    have hne : key' ≠ key := by
      rintro rfl
      simp [changes, removes] at h
    rw [keys, KeyStore.get?_delete_of_ne hne]

theorem IsTrue.valid_after {b : Backend} {m : Move} (hm : m.IsTrue b) (h : b.keys.Valid) :
    (m.after b).keys.Valid := by
  cases hm.effect with
  | quiet _ keys _ => exact keys ▸ h
  | wrote key _ value _ _ _ keys => exact keys ▸ h.write key value
  | removed key _ _ _ keys => exact keys ▸ h.delete key

/-! ### Revisions -/

/-- The number of changes that a move makes. -/
def count (m : Move) : Nat :=
  if m.verdict = some true then 1 else 0

theorem IsTrue.revision_after_le {b : Backend} {m : Move} (hm : m.IsTrue b) :
    (m.after b).keys.revision.toNat ≤ b.keys.revision.toNat + m.count := by
  cases hm.effect with
  | quiet _ keys _ =>
    rw [keys]
    exact Nat.le_add_right _ _
  | wrote key _ value _ verdict _ keys =>
    rw [keys, count, if_pos verdict]
    exact b.keys.toNat_nextRevision_le
  | removed key _ verdict _ keys =>
    rw [keys, count, if_pos verdict]
    exact b.keys.revision_delete_le key

theorem IsTrue.le_revision_after {b : Backend} {m : Move} (hm : m.IsTrue b) :
    b.keys.revision.toNat ≤ (m.after b).keys.revision.toNat := by
  cases hm.effect with
  | quiet _ keys _ => exact Nat.le_of_eq (by rw [keys])
  | wrote key _ value _ _ _ keys =>
    rw [keys]
    exact b.keys.le_toNat_nextRevision.1
  | removed key _ _ _ keys =>
    rw [keys]
    exact b.keys.le_revision_delete key

/-- A key that a move changes has moved on from every earlier revision. -/
theorem IsTrue.movedOn_after {b : Backend} {m : Move} (hm : m.IsTrue b) (hc : b.keys.Counts)
    {key : String} (h : m.changes key = true) {r : Nat} (hr : r ≤ b.keys.revision.toNat) :
    (m.after b).keys.MovedOn key r := by
  cases hm.effect with
  | quiet _ _ changes => exact absurd h (by rw [changes key]; exact Bool.false_ne_true)
  | wrote key' _ value _ _ _ keys writes removes =>
    obtain rfl : key' = key := by simpa [changes, writes, removes] using h
    exact keys ▸ KeyStore.movedOn_write hc hr value
  | removed key' _ _ _ keys removes writes =>
    obtain rfl : key' = key := by simpa [changes, writes, removes] using h
    exact keys ▸ KeyStore.movedOn_delete hr

theorem IsTrue.movedOn_after_of_movedOn {b : Backend} {m : Move} (hm : m.IsTrue b)
    (hc : b.keys.Counts) {key : String} {r : Nat} (h : b.keys.MovedOn key r) :
    (m.after b).keys.MovedOn key r := by
  cases hm.effect with
  | quiet _ keys _ => exact keys ▸ h
  | wrote key' _ value _ _ _ keys => exact keys ▸ h.write hc key' value
  | removed key' _ _ _ keys => exact keys ▸ h.delete key'

end Move

/-! ### Calls that nothing disturbs -/

namespace Backend

/-- The backend after calls that nothing disturbs. -/
def afterCalls (b : Backend) (calls : List Call) : Backend :=
  calls.foldl (fun b call => (call.answer b).2) b

theorem valid_afterCalls {b : Backend} (h : b.keys.Valid) (calls : List Call) :
    (b.afterCalls calls).keys.Valid := by
  induction calls generalizing b with
  | nil => exact h
  | cons call calls ih =>
    have hmove : (Move.call call ⟨.answered (call.answer b).1, 0⟩).IsTrue b :=
      fun _ hanswer => (Outcome.answered.inj hanswer).symm
    exact ih (hmove.valid_after h)

/-- A blob that no call writes stays as it is. -/
theorem blobs_afterCalls {b : Backend} {key : String} {calls : List Call}
    (h : ∀ data, .putBlob key data ∉ calls) :
    (b.afterCalls calls).blobs.get? key = b.blobs.get? key := by
  induction calls generalizing b with
  | nil => rfl
  | cons call calls ih =>
    have hrest : ((call.answer b).2.afterCalls calls).blobs.get? key =
        (call.answer b).2.blobs.get? key := ih fun data hmem => h data (.tail call hmem)
    refine hrest.trans ?_
    cases call with
    | putBlob key' data =>
      refine BlobMap.get?_put_of_ne ?_ b.blobs data
      rintro rfl
      exact h data (.head calls)
    | get key' => rfl
    | list start => rfl
    | swap key' expected value => rfl
    | delete key' => rfl
    | getBlob key' => rfl

end Backend

end Workplane
