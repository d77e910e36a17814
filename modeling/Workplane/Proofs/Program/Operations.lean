import Workplane.Background.Lifecycle
import Workplane.Proofs.Program.Environment
import Workplane.Service.Deployments

/-!
# Operations of repositories and services in an environment

One rule for each operation of a repository: what has to be shown of the states after its call so
that it is correct.  An operation goes wrong in two ways, with an answer that it does not want and
without an answer; the rules keep them apart.

A program that only reads (`Program.ReadOnly`) is correct in every environment that lets it read
and keeps what matters over reads (`Program.ReadOnly.holds`).
-/

namespace Workplane

variable {σ α β ε : Type} {env : Environment σ} {s : σ}

/-! ### Single calls -/

/-- The error says that a call had no answer. -/
def StoreError.IsOutage : StoreError → Prop
  | .timeout .. | .backend .. => True
  | _ => False

/-- The call had no answer, and no effect. -/
def Reply.IsLost {γ : Type} (reply : Reply γ) : Prop :=
  ∀ answer, reply.outcome ≠ .answered answer

namespace Repository

variable [Kind α] {r : Repository α}

/-- A call is answered, or it is lost and the operation fails with an outage. -/
theorem ensures_request {operation : String} {c : Call} {ok : c.Answer → σ → Prop}
    {err : StoreError → σ → Prop} (permitted : env.permits s (some c))
    (answered : ∀ answer took s', env.allows s (.call c ⟨.answered answer, took⟩) s' →
      ok answer s')
    (lost : ∀ e reply s', e.IsOutage → reply.IsLost → env.allows s (.call c reply) s' → err e s') :
    Ensures env ok err (r.request operation c) s := by
  refine ⟨permitted, fun reply s' hs => ?_⟩
  obtain ⟨outcome, took⟩ := reply
  cases outcome with
  | answered answer => exact answered answer took s' hs
  | failed causes => exact lost _ ⟨.failed causes, took⟩ s' trivial (fun _ h => nomatch h) hs
  | gaveUp => exact lost _ ⟨.gaveUp, took⟩ s' trivial (fun _ h => nomatch h) hs

/-- A stored text is an object of the kind, or the operation fails and says so. -/
theorem ensures_decode {value : ByteArray} {ok : α → σ → Prop} {err : StoreError → σ → Prop}
    (decoded : ∀ a, Kind.decode? value = some a → ok a s)
    (broken : ∀ detail, (Kind.decode? value : Option α) = none →
      err (.serialization (Kind.plural α) detail) s) :
    Ensures env ok err (decode value : StoreProgram α) s := by
  unfold decode
  cases h : (Kind.decode? value : Option α) with
  | some a => exact decoded a h
  | none => exact broken _ h

/-! ### Reading -/

/-- How a read can end: with the object and its revision, with nothing found, with a text that is no
object, or lost. -/
theorem ensures_getVersioned {name : String} {ok : Versioned α → σ → Prop}
    {err : StoreError → σ → Prop} (permitted : env.permits s (some (.get (r.key name))))
    (found : ∀ e a took s', env.allows s (.call (.get (r.key name)) ⟨.answered (some e), took⟩) s' →
      Kind.decode? e.value = some a → ok ⟨a, e.revision⟩ s')
    (missing : ∀ took s', env.allows s (.call (.get (r.key name)) ⟨.answered none, took⟩) s' →
      err (.notFound (Kind.plural α) name) s')
    (broken : ∀ e detail took s',
      env.allows s (.call (.get (r.key name)) ⟨.answered (some e), took⟩) s' →
      (Kind.decode? e.value : Option α) = none → err (.serialization (Kind.plural α) detail) s')
    (lost : ∀ e reply s', e.IsOutage → reply.IsLost →
      env.allows s (.call (.get (r.key name)) reply) s' → err e s') :
    Ensures env ok err (r.getVersioned name) s := by
  refine ensures_bind.2 (ensures_request permitted (fun answer took s' hs => ?_) lost)
  cases answer with
  | none => exact missing took s' hs
  | some e =>
    refine ensures_bind.2 (ensures_decode (fun a ha => ?_) fun detail hnone => ?_)
    · exact found e a took s' hs ha
    · exact broken e detail took s' hs hnone

theorem ensures_get {name : String} {ok : α → σ → Prop} {err : StoreError → σ → Prop}
    (permitted : env.permits s (some (.get (r.key name))))
    (found : ∀ e a took s', env.allows s (.call (.get (r.key name)) ⟨.answered (some e), took⟩) s' →
      Kind.decode? e.value = some a → ok a s')
    (missing : ∀ took s', env.allows s (.call (.get (r.key name)) ⟨.answered none, took⟩) s' →
      err (.notFound (Kind.plural α) name) s')
    (broken : ∀ e detail took s',
      env.allows s (.call (.get (r.key name)) ⟨.answered (some e), took⟩) s' →
      (Kind.decode? e.value : Option α) = none → err (.serialization (Kind.plural α) detail) s')
    (lost : ∀ e reply s', e.IsOutage → reply.IsLost →
      env.allows s (.call (.get (r.key name)) reply) s' → err e s') :
    Ensures env ok err (r.get name) s :=
  ensures_map.2 (ensures_getVersioned permitted found missing broken lost)

/-- A listing skips what is no object of the kind. -/
theorem ensures_list {ok : List α → σ → Prop} {err : StoreError → σ → Prop}
    (permitted : env.permits s (some (.list r.root)))
    (listed : ∀ entries took s',
      env.allows s (.call (.list r.root) ⟨.answered entries, took⟩) s' →
      ok (entries.filterMap fun e => Kind.decode? e.value) s')
    (lost : ∀ e reply s', e.IsOutage → reply.IsLost →
      env.allows s (.call (.list r.root) reply) s' → err e s') :
    Ensures env ok err r.list s :=
  ensures_bind.2 (ensures_request permitted listed lost)

/-! ### Changing -/

/-- How a creation can end: written, refused because the name is taken, or lost. -/
theorem ensures_create {name : String} {a : α} {ok : UInt64 → σ → Prop}
    {err : StoreError → σ → Prop}
    (permitted : env.permits s (some (.swap (r.key name) 0 (Kind.encode a))))
    (written : ∀ swap took s',
      env.allows s (.call (.swap (r.key name) 0 (Kind.encode a)) ⟨.answered swap, took⟩) s' →
      swap.written = true → ok swap.revision s')
    (taken : ∀ swap took s',
      env.allows s (.call (.swap (r.key name) 0 (Kind.encode a)) ⟨.answered swap, took⟩) s' →
      swap.written = false → err (.alreadyExists (Kind.plural α) name) s')
    (lost : ∀ e reply s', e.IsOutage → reply.IsLost →
      env.allows s (.call (.swap (r.key name) 0 (Kind.encode a)) reply) s' → err e s') :
    Ensures env ok err (r.create name a) s := by
  refine ensures_bind.2 (ensures_request permitted (fun swap took s' hs => ?_) lost)
  cases hw : swap.written with
  | true => simpa [hw] using ensures_pure.2 (written swap took s' hs hw)
  | false => simpa [hw] using ensures_throw.2 (taken swap took s' hs hw)

/-- How an update can end: written, refused because the object is gone or has changed, or lost. -/
theorem ensures_updateAt {name : String} {a : α} {revision : UInt64} {ok : UInt64 → σ → Prop}
    {err : StoreError → σ → Prop}
    (permitted : env.permits s (some (.swap (r.key name) revision (Kind.encode a))))
    (written : ∀ swap took s',
      env.allows s (.call (.swap (r.key name) revision (Kind.encode a)) ⟨.answered swap, took⟩) s' →
      swap.written = true → ok swap.revision s')
    (refused : ∀ swap took s',
      env.allows s (.call (.swap (r.key name) revision (Kind.encode a)) ⟨.answered swap, took⟩) s' →
      swap.written = false →
      (swap.revision = 0 → err (.notFound (Kind.plural α) name) s') ∧
        (swap.revision ≠ 0 → err (.conflict (Kind.plural α) name) s'))
    (lost : ∀ e reply s', e.IsOutage → reply.IsLost →
      env.allows s (.call (.swap (r.key name) revision (Kind.encode a)) reply) s' → err e s') :
    Ensures env ok err (r.updateAt name a revision) s := by
  refine ensures_bind.2 (ensures_request permitted (fun swap took s' hs => ?_) lost)
  cases hw : swap.written with
  | true => simpa [hw] using ensures_pure.2 (written swap took s' hs hw)
  | false =>
    have hrefused := refused swap took s' hs hw
    rcases Decidable.em (swap.revision = 0) with h0 | hne
    · simpa [hw, h0] using ensures_throw.2 (hrefused.1 h0)
    · simpa [hw, hne] using ensures_throw.2 (hrefused.2 hne)

/-- How a deletion can end: removed, refused because there was nothing, or lost. -/
theorem ensures_delete {name : String} {ok : Unit → σ → Prop} {err : StoreError → σ → Prop}
    (permitted : env.permits s (some (.delete (r.key name))))
    (removed : ∀ took s', env.allows s (.call (.delete (r.key name)) ⟨.answered true, took⟩) s' →
      ok () s')
    (missing : ∀ took s', env.allows s (.call (.delete (r.key name)) ⟨.answered false, took⟩) s' →
      err (.notFound (Kind.plural α) name) s')
    (lost : ∀ e reply s', e.IsOutage → reply.IsLost →
      env.allows s (.call (.delete (r.key name)) reply) s' → err e s') :
    Ensures env ok err (r.delete name) s := by
  refine ensures_bind.2 (ensures_request permitted (fun existed took s' hs => ?_) lost)
  cases existed with
  | true => exact ensures_pure.2 (removed took s' hs)
  | false => exact ensures_throw.2 (missing took s' hs)

end Repository

/-! ### Services -/

namespace Service

variable {ok : α → σ → Prop} {err : Refusal → σ → Prop}

/-- A service fails with the errors of the store under their own name. -/
theorem ensures_ofStore {p : StoreProgram α} :
    Ensures env ok err (ofStore p) s ↔ Ensures env ok (fun e s' => err (.store e) s') p s :=
  ensures_adapt

theorem ensures_ofCheck {check : Except Invalid α} (passed : ∀ a, check = .ok a → ok a s)
    (failed : ∀ i, check = .error i → err (.invalid i) s) :
    Ensures env ok err (ofCheck check) s := by
  cases check with
  | ok a => exact passed a rfl
  | error i => exact failed i rfl

/-- What is not found is no failure of a read that need not find anything. -/
theorem ensures_ifFound {ok : Option α → σ → Prop} {p : StoreProgram α} :
    Ensures env ok err (ifFound p) s ↔
      Ensures env (fun a s' => ok (some a) s')
        (fun e s' => if e.isNotFound then ok none s' else err (.store e) s') p s := by
  rw [ifFound, ensures_ofStore, ensures_tryCatch, ensures_map]
  constructor <;> refine fun h => h.mono (fun _ _ h => h) fun e s' he => ?_
  · cases e <;> exact he
  · cases e <;> exact he

/-- What each of a list of programs ensures while it keeps an invariant, they ensure together. -/
theorem ensures_forM {inv : σ → Prop} {P : β → Prop} {err : ε → σ → Prop}
    {f : β → ExceptT ε Program PUnit} {bs : List β}
    (each : ∀ x ∈ bs, ∀ s, inv s → Ensures env (fun _ s' => inv s' ∧ P x) err (f x) s)
    (h : inv s) : Ensures env (fun _ s' => inv s' ∧ ∀ x ∈ bs, P x) err (bs.forM f) s := by
  induction bs generalizing s with
  | nil => exact ensures_pure.2 ⟨h, fun x hx => absurd hx List.not_mem_nil⟩
  | cons x bs ih =>
    show Ensures env _ err (f x >>= fun _ => bs.forM f) s
    refine ensures_bind.2 ((each x (.head bs) s h).mono (fun _ s' hs' => ?_) fun _ _ he => he)
    refine (ih (fun y hy => each y (.tail x hy)) hs'.1).mono (fun _ s'' hs'' => ?_) fun _ _ he => he
    refine ⟨hs''.1, fun y hy => ?_⟩
    rcases List.mem_cons.1 hy with rfl | hy
    · exact hs'.2
    · exact hs''.2 y hy

end Service

/-! ### The scale-down -/

namespace Background

variable {r : Repository Deployment} {inv : σ → Prop}

/-- Scaling a deployment down writes what was read without its replicas, at the revision that was
read. -/
theorem ensures_scaleOneToZero {id : String} (permitted : env.permits s (some (.get (r.key id))))
    (scaled : ∀ e d took s',
      env.allows s (.call (.get (r.key id)) ⟨.answered (some e), took⟩) s' →
      Kind.decode? e.value = some d → asksForReplicas d = true →
      env.permits s' none ∧ ∀ now s'', env.allows s' (.clock now) s'' → env.permits s''
        (some (.swap (r.key id) e.revision (Kind.encode (withoutReplicas d now.millis))))) :
    Ensures env (fun _ _ => True) (fun _ _ => True) (scaleOneToZero r id) s := by
  refine ensures_bind.2 (Repository.ensures_getVersioned permitted ?_
    (fun _ _ _ => trivial) (fun _ _ _ _ _ _ => trivial) fun _ _ _ _ _ _ => trivial)
  intro e d took s' hs hd
  split
  · obtain ⟨hclock, hswap⟩ := scaled e d took s' hs hd ‹_›
    refine ensures_bind.2 (ensures_lift.2 (Program.holds_now.2 ⟨hclock, fun now s'' hs => ?_⟩))
    refine ensures_bind.2 (Repository.ensures_updateAt (hswap now s'' hs) ?_ ?_ ?_)
    · exact fun _ _ _ _ _ => ensures_pure.2 trivial
    · exact fun _ _ _ _ _ => ⟨fun _ => trivial, fun _ => trivial⟩
    · exact fun _ _ _ _ _ _ => trivial
  · exact ensures_pure.2 trivial

/-- A pass over listed deployments keeps what is kept when a single one is scaled down. -/
theorem holds_scaleAllToZero
    (one : ∀ id s, inv s →
      Ensures env (fun _ s' => inv s') (fun _ s' => inv s') (scaleOneToZero r id) s)
    (ds : List Deployment) (hs : inv s) :
    (scaleAllToZero r ds).Holds env (fun _ s' => inv s') s := by
  induction ds generalizing s with
  | nil => exact hs
  | cons d ds ih =>
    unfold scaleAllToZero
    split
    · refine Program.holds_bind.2 (Program.Holds.mono (one d.id s hs) fun result s' hs' => ?_)
      have hs' : inv s' := by cases result <;> exact hs'
      exact Program.holds_bind.2 ((ih hs').mono fun _ _ h => h)
    · exact ih hs

/-- A pass keeps what its listing and each single scale-down keep. -/
theorem holds_scaleToZero
    (one : ∀ id s, inv s →
      Ensures env (fun _ s' => inv s') (fun _ s' => inv s') (scaleOneToZero r id) s)
    (list : ∀ s, inv s → Ensures env (fun _ s' => inv s') (fun _ s' => inv s') r.list s)
    (hs : inv s) : (scaleToZero r).Holds env (fun _ s' => inv s') s := by
  refine Program.holds_bind.2 (Program.Holds.mono (list s hs) fun result s' hs' => ?_)
  cases result with
  | ok ds => exact holds_scaleAllToZero one ds hs'
  | error e => exact hs'

end Background

/-! ### Programs that only read -/

/-- The call changes neither keys nor blobs. -/
def Call.IsRead : Call → Prop
  | .get _ | .list _ | .getBlob _ => True
  | .swap .. | .delete _ | .putBlob .. => False

/-- The environment that lets a program read, and tells it anything. -/
def Environment.reading : Environment Unit where
  permits _ c := ∀ call, c = some call → call.IsRead
  allows _ _ _ := True

/-- All calls of the program are reads. -/
def Program.ReadOnly (p : Program α) : Prop :=
  p.Holds .reading (fun _ _ => True) ()

/-- All calls of the program are reads, whether it fails or not. -/
def ReadOnly (p : ExceptT ε Program α) : Prop :=
  p.run.ReadOnly

/-- A program that only reads keeps what reads keep. -/
theorem Program.ReadOnly.holds {p : Program α} (h : p.ReadOnly) (inv : σ → Prop)
    (permitted : ∀ s c, inv s → (∀ call, c = some call → call.IsRead) → env.permits s c)
    (kept : ∀ s m s', inv s → (∀ call, m.request = some call → call.IsRead) →
      env.allows s m s' → inv s') (hs : inv s) : p.Holds env (fun _ s' => inv s') s := by
  induction p generalizing s with
  | done a => exact hs
  | call c limit next ih =>
    refine ⟨permitted s _ hs h.1, fun reply s' hallows => ?_⟩
    exact ih reply (h.2 reply () trivial) (kept s (.call c reply) s' hs h.1 hallows)
  | clock next ih =>
    refine ⟨permitted s _ hs h.1, fun now s' hallows => ?_⟩
    exact ih now (h.2 now () trivial) (kept s (.clock now) s' hs h.1 hallows)

theorem readOnly_iff {p : ExceptT ε Program α} :
    ReadOnly p ↔ Ensures .reading (fun _ _ => True) (fun _ _ => True) p () := by
  unfold ReadOnly Program.ReadOnly Ensures
  constructor <;> refine fun h => h.mono fun r _ _ => ?_
  · cases r <;> trivial
  · trivial

/-- A program that only reads keeps every invariant that reads keep. -/
theorem ReadOnly.ensures {p : ExceptT ε Program α} (h : ReadOnly p) (inv : σ → Prop)
    (permitted : ∀ s c, inv s → (∀ call, c = some call → call.IsRead) → env.permits s c)
    (kept : ∀ s m s', inv s → (∀ call, m.request = some call → call.IsRead) →
      env.allows s m s' → inv s') (hs : inv s) :
    Ensures env (fun _ s' => inv s') (fun _ s' => inv s') p s :=
  (h.holds inv permitted kept hs).mono fun r s' hs' => by cases r <;> exact hs'

theorem readOnly_pure (a : α) : ReadOnly (pure a : ExceptT ε Program α) := trivial

theorem readOnly_throw (e : ε) : ReadOnly (throw e : ExceptT ε Program α) := trivial

theorem ReadOnly.bind {p : ExceptT ε Program α} {f : α → ExceptT ε Program β} (hp : ReadOnly p)
    (hf : ∀ a, ReadOnly (f a)) : ReadOnly (p >>= f) := by
  rw [readOnly_iff] at hp ⊢
  exact ensures_bind.2 (hp.mono (fun a _ _ => readOnly_iff.1 (hf a)) fun _ _ h => h)

theorem ReadOnly.map {p : ExceptT ε Program α} (hp : ReadOnly p) (f : α → β) :
    ReadOnly (f <$> p) := by
  rw [map_eq_pure_bind]
  exact hp.bind fun a => readOnly_pure (f a)

theorem ReadOnly.forM {f : β → ExceptT ε Program PUnit} (hf : ∀ x, ReadOnly (f x)) (bs : List β) :
    ReadOnly (bs.forM f) := by
  induction bs with
  | nil => exact readOnly_pure _
  | cons x bs ih => exact (hf x).bind fun _ => ih

namespace Repository

variable [Kind α] (r : Repository α)

theorem readOnly_request (operation : String) {c : Call} (hc : c.IsRead) :
    ReadOnly (r.request operation c) := by
  refine readOnly_iff.2 (ensures_request ?_ (fun _ _ _ _ => trivial) fun _ _ _ _ _ _ => trivial)
  intro call hcall
  exact Option.some.inj hcall ▸ hc

theorem readOnly_decode (value : ByteArray) : ReadOnly (decode value : StoreProgram α) := by
  unfold decode
  cases (Kind.decode? value : Option α) with
  | some a => exact readOnly_pure a
  | none => exact readOnly_throw _

theorem readOnly_getVersioned (name : String) : ReadOnly (r.getVersioned name) := by
  refine (r.readOnly_request "get" (c := .get (r.key name)) trivial).bind fun answer => ?_
  cases answer with
  | some e => exact (readOnly_decode e.value).bind fun a => readOnly_pure _
  | none => exact readOnly_throw _

theorem readOnly_get (name : String) : ReadOnly (r.get name) :=
  (r.readOnly_getVersioned name).map _

theorem readOnly_list : ReadOnly r.list :=
  (r.readOnly_request "list" (c := .list r.root) trivial).bind fun _ => readOnly_pure _

end Repository

namespace Service

theorem readOnly_ofStore {p : StoreProgram α} (h : ReadOnly p) : ReadOnly (ofStore p) :=
  readOnly_iff.2 (ensures_ofStore.2 (readOnly_iff.1 h))

theorem readOnly_ofCheck (check : Except Invalid α) : ReadOnly (ofCheck check) := by
  cases check with
  | ok a => exact readOnly_pure a
  | error i => exact readOnly_throw _

theorem readOnly_ifFound {p : StoreProgram α} (h : ReadOnly p) : ReadOnly (ifFound p) := by
  refine readOnly_iff.2 (ensures_ifFound.2 ((readOnly_iff.1 h).mono (fun _ _ h => h) ?_))
  intro e _ _
  split <;> trivial

variable (c : Workspace.Config)

theorem readOnly_ensureWritable : ReadOnly (ensureWritable c) := by
  unfold ensureWritable
  split
  · exact readOnly_pure _
  · exact readOnly_throw _

theorem readOnly_quota : ReadOnly (quota c) :=
  readOnly_ifFound (c.quotas.readOnly_get c.name)

theorem readOnly_resolvePhoton (id : String) : ReadOnly (resolvePhoton c id) := by
  refine (readOnly_ifFound (c.photons.readOnly_get id)).bind fun found => ?_
  cases found with
  | some p => exact readOnly_pure p
  | none => exact readOnly_throw _

theorem readOnly_checkSecret (name : String) : ReadOnly (Deployments.checkSecret c name) := by
  refine (readOnly_ifFound (c.secrets.readOnly_get name)).bind fun found => ?_
  cases found with
  | some _ => exact readOnly_pure _
  | none => exact readOnly_throw _

theorem readOnly_checkSpec (spec : Deployment.Spec) : ReadOnly (Deployments.checkSpec c spec) :=
  (readOnly_ofCheck _).bind fun _ => ReadOnly.forM (readOnly_checkSecret c) _

theorem readOnly_checkQuota (requested : Resources) (replaced : Option Resources) :
    ReadOnly (Deployments.checkQuota c requested replaced) := by
  refine (readOnly_quota c).bind fun quota => ?_
  split
  · exact readOnly_pure _
  · exact readOnly_throw _

end Service

end Workplane
