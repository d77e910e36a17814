import Workplane.Proofs.Capacity.Admission
import Workplane.Proofs.Objects.Deployments
import Workplane.Proofs.Program.Endings
import Workplane.Proofs.Service.Undisturbed

/-!
# Which deployments are created

A creation succeeds with certain moves and no others (`Service.Deployments.succeeds_create_iff`):
every secret is found, the quota is looked at and admits the total or is not there, the photon is
found, and the deployment is written under a key that was free.  So a call that fails, and a value
that cannot be read, never stand for an answer.  `Service.Deployments.creation_exact` says of a
creation on its own which stores let it succeed, and what it leaves there.

The object that is stored is the written form of the one that is returned.  Its doubles are read
back only approximately, so what is found there is `Deployment.reread` of what was returned.
-/

namespace Workplane

open Workspace (Config)

namespace Service

variable {α : Type} {c : Config} {moves : List Move}

/-! ### Checks that succeed -/

theorem succeeds_ofStore_iff {p : StoreProgram α} {a : α} :
    Succeeds (ofStore p) moves a ↔ Succeeds p moves a :=
  succeeds_adapt_iff

theorem succeeds_ofCheck_iff {check : Except Invalid α} {a : α} :
    Succeeds (ofCheck check) moves a ↔ moves = [] ∧ check = .ok a := by
  cases check with
  | ok a' =>
    rw [Except.ok.injEq, eq_comm (a := a')]
    exact succeeds_pure_iff
  | error i => exact iff_of_false not_succeeds_throw nofun

theorem succeeds_ensureWritable_iff :
    Succeeds (ensureWritable c) moves () ↔ moves = [] ∧ c.state.isWritable = true := by
  unfold ensureWritable
  split
  · rename_i h
    exact succeeds_pure_iff.trans (and_congr_right fun _ => iff_of_true rfl h)
  · rename_i h
    exact iff_of_false not_succeeds_throw fun hsucceeds => h hsucceeds.2

theorem succeeds_now_iff {now : Timestamp} :
    Succeeds (monadLift Program.now : Service Timestamp) moves now ↔ moves = [.clock now] := by
  rw [succeeds_lift_iff, Program.now, Program.ends_clock_iff]
  constructor
  · rintro ⟨now', rest, rfl, h⟩
    obtain ⟨rfl, rfl⟩ := Program.ends_done_iff.1 h
    rfl
  · rintro rfl
    exact ⟨now, [], rfl, .done now⟩

/-- An object is missing only if a look for it was answered, and found nothing. -/
theorem succeeds_ifFound_get_iff [Kind α] {r : Repository α} {name : String} {found : Option α} :
    Succeeds (ifFound (r.get name)) moves found ↔ ∃ m, moves = [m] ∧
      ((∃ a, found = some a ∧ r.Finds name a m) ∨ found = none ∧ m.Looks (r.key name) none) := by
  rw [ifFound, succeeds_ofStore_iff, succeeds_tryCatch_iff]
  constructor
  · rintro (h | ⟨e, u, v, rfl, hget, h⟩)
    · obtain ⟨a, hget, rfl⟩ := succeeds_map_iff.1 h
      obtain ⟨m, rfl, hfinds⟩ := Repository.succeeds_get_iff.1 hget
      exact ⟨m, rfl, Or.inl ⟨a, rfl, hfinds⟩⟩
    · have hget := fails_map_iff.1 hget
      cases e with
      | notFound kind name' =>
        obtain ⟨rfl, rfl⟩ := succeeds_pure_iff.1 h
        obtain ⟨-, m, rfl, hlooks⟩ := (Repository.fails_get_notFound_iff rfl).1 hget
        exact ⟨m, rfl, Or.inr ⟨rfl, hlooks⟩⟩
      | _ => exact (not_succeeds_throw h).elim
  · rintro ⟨m, rfl, ⟨a, rfl, hfinds⟩ | ⟨rfl, hlooks⟩⟩
    · exact Or.inl (succeeds_map_iff.2 ⟨a, Repository.succeeds_get_iff.2 ⟨m, rfl, hfinds⟩, rfl⟩)
    · refine Or.inr ⟨.notFound (Kind.plural α) name, [m], [], rfl, fails_map_iff.2 ?_,
        succeeds_pure_iff.2 ⟨rfl, rfl⟩⟩
      exact (Repository.fails_get_notFound_iff rfl).2 ⟨rfl, m, rfl, hlooks⟩

/-- A photon is resolved by one move that finds it. -/
theorem succeeds_resolvePhoton_iff {id : String} {p : Photon} :
    Succeeds (resolvePhoton c id) moves p ↔ ∃ m, moves = [m] ∧ c.photons.Finds id p m := by
  rw [resolvePhoton, succeeds_bind_iff]
  constructor
  · rintro ⟨found, u, v, rfl, hget, h⟩
    obtain ⟨m, rfl, ⟨p', rfl, hfinds⟩ | ⟨rfl, -⟩⟩ := succeeds_ifFound_get_iff.1 hget
    · obtain ⟨rfl, rfl⟩ := succeeds_pure_iff.1 h
      exact ⟨m, rfl, hfinds⟩
    · exact (not_succeeds_throw h).elim
  · rintro ⟨m, rfl, hfinds⟩
    exact ⟨some p, [m], [], rfl, succeeds_ifFound_get_iff.2 ⟨m, rfl, Or.inl ⟨p, rfl, hfinds⟩⟩,
      succeeds_pure_iff.2 ⟨rfl, rfl⟩⟩

namespace Deployments

variable {spec : Deployment.Spec} {requested : Resources} {replaced : Option Resources}

/-- The move finds a secret under a name. -/
def FindsSecret (c : Config) (name : String) (m : Move) : Prop :=
  ∃ v : Secret, c.secrets.Finds name v m

/-- The move is a look at the quota that was answered: there is none, or it admits a request. -/
def AdmitsQuota (c : Config) (requested : Resources) (replaced : Option Resources) (m : Move) :
    Prop :=
  m.Looks (c.quotas.key c.name) none ∨
    ∃ q, c.quotas.Finds c.name q m ∧ Quota.admits (some q) requested replaced = true

theorem FindsSecret.reads {name : String} {m : Move} (h : FindsSecret c name m) : m.Reads := by
  obtain ⟨v, hfinds⟩ := h
  exact hfinds.reads

theorem AdmitsQuota.reads {m : Move} (h : AdmitsQuota c requested replaced m) : m.Reads := by
  obtain hlooks | ⟨q, hfinds, -⟩ := h
  · exact hlooks.reads
  · exact hfinds.reads

/-- A secret is checked by one move that finds it. -/
theorem succeeds_checkSecret_iff {name : String} :
    Succeeds (checkSecret c name) moves () ↔ ∃ m, moves = [m] ∧ FindsSecret c name m := by
  rw [checkSecret, succeeds_bind_iff]
  constructor
  · rintro ⟨found, u, v, rfl, hget, h⟩
    obtain ⟨m, rfl, ⟨secret, rfl, hfinds⟩ | ⟨rfl, -⟩⟩ := succeeds_ifFound_get_iff.1 hget
    · obtain ⟨rfl, -⟩ := succeeds_pure_iff.1 h
      exact ⟨m, rfl, secret, hfinds⟩
    · exact (not_succeeds_throw h).elim
  · rintro ⟨m, rfl, secret, hfinds⟩
    exact ⟨some secret, [m], [], rfl,
      succeeds_ifFound_get_iff.2 ⟨m, rfl, Or.inl ⟨secret, rfl, hfinds⟩⟩,
      succeeds_pure_iff.2 ⟨rfl, rfl⟩⟩

/-- The checks of a specification are a valid declaration and a move for each secret that it refers
to. -/
theorem succeeds_checkSpec_iff :
    Succeeds (checkSpec c spec) moves () ↔
      spec.validate = .ok () ∧ List.Forall₂ (FindsSecret c) spec.secretRefs moves := by
  rw [checkSpec, succeeds_bind_iff]
  constructor
  · rintro ⟨_, u, v, rfl, hcheck, h⟩
    obtain ⟨rfl, hvalid⟩ := succeeds_ofCheck_iff.1 hcheck
    exact ⟨hvalid, (succeeds_forM_iff fun _ _ => succeeds_checkSecret_iff).1 h⟩
  · rintro ⟨hvalid, h⟩
    exact ⟨(), [], moves, rfl, succeeds_ofCheck_iff.2 ⟨rfl, hvalid⟩,
      (succeeds_forM_iff fun _ _ => succeeds_checkSecret_iff).2 h⟩

/-- The quota is checked by one move that admits the request. -/
theorem succeeds_checkQuota_iff :
    Succeeds (checkQuota c requested replaced) moves () ↔
      ∃ m, moves = [m] ∧ AdmitsQuota c requested replaced m := by
  rw [checkQuota, succeeds_bind_iff]
  constructor
  · rintro ⟨quota, u, v, rfl, hget, h⟩
    obtain ⟨m, rfl, hm⟩ := succeeds_ifFound_get_iff.1 hget
    split at h
    · rename_i hadmits
      obtain ⟨rfl, -⟩ := succeeds_pure_iff.1 h
      obtain ⟨q, rfl, hfinds⟩ | ⟨-, hlooks⟩ := hm
      · exact ⟨m, rfl, Or.inr ⟨q, hfinds, hadmits⟩⟩
      · exact ⟨m, rfl, Or.inl hlooks⟩
    · exact (not_succeeds_throw h).elim
  · rintro ⟨m, rfl, hlooks | ⟨q, hfinds, hadmits⟩⟩
    · exact ⟨none, [m], [], rfl, succeeds_ifFound_get_iff.2 ⟨m, rfl, Or.inr ⟨rfl, hlooks⟩⟩,
        succeeds_pure_iff.2 ⟨rfl, rfl⟩⟩
    · refine ⟨some q, [m], [], rfl, succeeds_ifFound_get_iff.2 ⟨m, rfl, Or.inl ⟨q, rfl, hfinds⟩⟩, ?_⟩
      rw [if_pos hadmits]
      exact succeeds_pure_iff.2 ⟨rfl, rfl⟩

/-! ### The moves of a creation -/

/-- The moves with which a creation succeeds, and what it returns then. -/
inductive Creation (c : Config) (spec : Deployment.Spec) : List Move → Deployment → Prop
  | intro (secrets : List Move) (quota photonRead write : Move) (requested : Resources)
    (photon : Photon) (now : Timestamp) (writable : c.state.isWritable = true)
    (named : Name.validate spec.name = .ok ()) (checked : spec.validate = .ok ())
    (found : List.Forall₂ (FindsSecret c) spec.secretRefs secrets)
    (total : spec.requirement.total = .ok requested)
    (admitted : AdmitsQuota c requested none quota)
    (resolved : c.photons.Finds spec.photonId photon photonRead)
    (written : write.Wrote (c.deployments.key (Name.deploymentId spec.name)) 0
      (Kind.encode (start c spec photon now.millis))) :
    Creation c spec (secrets ++ [quota, photonRead, .clock now, write])
      (start c spec photon now.millis)

/-- A creation succeeds with exactly the moves that the specification says. -/
theorem succeeds_create_iff {d : Deployment} :
    Succeeds (create c spec) moves d ↔ Creation c spec moves d := by
  constructor
  · intro h
    -- The steps of the service, each with the moves that it makes.
    obtain ⟨_, u₁, v₁, rfl, hensure, h₁⟩ := succeeds_bind_iff.1 h
    obtain ⟨rfl, hwritable⟩ := succeeds_ensureWritable_iff.1 hensure
    obtain ⟨_, u₂, v₂, rfl, hname, h₂⟩ := succeeds_bind_iff.1 h₁
    obtain ⟨rfl, hnamed⟩ := succeeds_ofCheck_iff.1 hname
    obtain ⟨_, secrets, v₃, rfl, hspec, h₃⟩ := succeeds_bind_iff.1 h₂
    obtain ⟨hchecked, hfound⟩ := succeeds_checkSpec_iff.1 hspec
    obtain ⟨requested, u₄, v₄, rfl, hsum, h₄⟩ := succeeds_bind_iff.1 h₃
    obtain ⟨rfl, htotal⟩ := succeeds_ofCheck_iff.1 hsum
    obtain ⟨_, u₅, v₅, rfl, hquota, h₅⟩ := succeeds_bind_iff.1 h₄
    obtain ⟨quota, rfl, hadmitted⟩ := succeeds_checkQuota_iff.1 hquota
    obtain ⟨photon, u₆, v₆, rfl, hphoton, h₆⟩ := succeeds_bind_iff.1 h₅
    obtain ⟨photonRead, rfl, hresolved⟩ := succeeds_resolvePhoton_iff.1 hphoton
    obtain ⟨now, u₇, v₇, rfl, hnow, h₇⟩ := succeeds_bind_iff.1 h₆
    obtain rfl := succeeds_now_iff.1 hnow
    obtain ⟨revision, u₈, v₈, rfl, hwrite, h₈⟩ := succeeds_bind_iff.1 h₇
    obtain ⟨took, rfl⟩ := Repository.succeeds_create_iff.1 (succeeds_ofStore_iff.1 hwrite)
    obtain ⟨rfl, rfl⟩ := succeeds_pure_iff.1 h₈
    exact .intro secrets quota photonRead _ requested photon now hwritable hnamed hchecked hfound
      htotal hadmitted hresolved ⟨revision, took, rfl⟩
  · rintro ⟨secrets, quota, photonRead, write, requested, photon, now, hwritable, hnamed, hchecked,
      hfound, htotal, hadmitted, hresolved, revision, took, rfl⟩
    -- The same steps, each with its part of the moves.
    refine succeeds_bind_iff.2 ⟨(), [], _, rfl, succeeds_ensureWritable_iff.2 ⟨rfl, hwritable⟩, ?_⟩
    refine succeeds_bind_iff.2 ⟨(), [], _, rfl, succeeds_ofCheck_iff.2 ⟨rfl, hnamed⟩, ?_⟩
    refine succeeds_bind_iff.2
      ⟨(), secrets, _, rfl, succeeds_checkSpec_iff.2 ⟨hchecked, hfound⟩, ?_⟩
    refine succeeds_bind_iff.2 ⟨requested, [], _, rfl, succeeds_ofCheck_iff.2 ⟨rfl, htotal⟩, ?_⟩
    refine succeeds_bind_iff.2
      ⟨(), [quota], _, rfl, succeeds_checkQuota_iff.2 ⟨quota, rfl, hadmitted⟩, ?_⟩
    refine succeeds_bind_iff.2
      ⟨photon, [photonRead], _, rfl, succeeds_resolvePhoton_iff.2 ⟨_, rfl, hresolved⟩, ?_⟩
    refine succeeds_bind_iff.2 ⟨now, [.clock now], _, rfl, succeeds_now_iff.2 rfl, ?_⟩
    refine succeeds_bind_iff.2 ⟨revision, [_], [], rfl, succeeds_ofStore_iff.2 ?_,
      succeeds_pure_iff.2 ⟨rfl, rfl⟩⟩
    exact Repository.succeeds_create_iff.2 ⟨took, rfl⟩

/-! ### What a creation finds -/

/-- A store in which a deployment can be created from a specification, on a stored photon. -/
structure Admissible (c : Config) (spec : Deployment.Spec) (s : KeyStore) (photon : Photon) :
    Prop where
  normal : c.state = .normal
  named : Name.validate spec.name = .ok ()
  requirement : spec.requirement.validate = .ok ()
  envs : ∀ e ∈ spec.envs.getD [], e.validate = .ok ()
  mounts : ∀ m ∈ spec.mounts.getD [], m.validate = .ok ()
  secrets : ∀ name ∈ spec.secretRefs, ∃ v, c.secrets.Stored s name v
  quota : s.get? (c.quotas.key c.name) = none ∨ ∃ q requested, c.quotas.Stored s c.name q ∧
    spec.requirement.total = .ok requested ∧ Quota.admits (some q) requested none = true
  photon : c.photons.Stored s spec.photonId photon
  free : s.get? (c.deployments.key (Name.deploymentId spec.name)) = none

section Alone

variable {p q : Program α} {b b' : Backend} {past : List Move}

theorem reads_of_forall₂ {names : List String} {secrets : List Move}
    (h : List.Forall₂ (FindsSecret c) names secrets) : ∀ m ∈ secrets, m.Reads := by
  induction h with
  | nil => exact nofun
  | cons hfirst hrest ih => exact List.forall_mem_cons.2 ⟨hfirst.reads, ih⟩

/-- The secrets that were found are stored where only reads came between. -/
theorem stored_of_forall₂ (run : p.Alone b past b' q) (hreads : ∀ m ∈ past, m.Reads)
    {names : List String} {secrets : List Move} (hsub : secrets ⊆ past)
    (h : List.Forall₂ (FindsSecret c) names secrets) :
    ∀ name ∈ names, ∃ v, c.secrets.Stored b.keys name v := by
  induction h with
  | nil => exact nofun
  | cons hfirst hrest ih =>
    obtain ⟨hm, hsub⟩ := List.cons_subset.1 hsub
    obtain ⟨v, hfinds⟩ := hfirst
    exact List.forall_mem_cons.2 ⟨⟨v, hfinds.stored run hreads hm⟩, ih hsub⟩

/-- The quota that has admitted a request is the stored one where only reads came between. -/
theorem quota_of_admitsQuota (run : p.Alone b past b' q) (hreads : ∀ m ∈ past, m.Reads) {m : Move}
    (hm : m ∈ past) (h : AdmitsQuota c requested replaced m) :
    b.keys.get? (c.quotas.key c.name) = none ∨ ∃ quota, c.quotas.Stored b.keys c.name quota ∧
      Quota.admits (some quota) requested replaced = true := by
  obtain ⟨took, rfl⟩ | ⟨quota, hfinds, hadmits⟩ := h
  · exact Or.inl (run.get?_of_answered (Writer.quiet_of_reads hreads) hm)
  · exact Or.inr ⟨quota, hfinds.stored run hreads hm, hadmits⟩

/-- A creation on its own that succeeds was admissible, whatever calls have failed, and it has
written the deployment and nothing else. -/
theorem Creation.alone {d : Deployment} (h : Creation c spec past d)
    (run : p.Alone b past b' q) (hb : b.keys.Valid) :
    ∃ photon now, Admissible c spec b.keys photon ∧ d = start c spec photon now ∧
      b' = { b with keys := b.keys.write (c.deployments.key d.id) (Kind.encode d) } := by
  obtain ⟨secrets, quota, photonRead, write, requested, photon, now, hwritable, hnamed, hchecked,
    hfound, htotal, hadmitted, hresolved, hwritten⟩ := h
  -- All moves before the last only read, so the write finds the store as it was at first.
  rw [List.append_cons, List.append_cons, List.append_cons] at run
  obtain ⟨b₁, q₁, hbefore, -, hwrite, rfl⟩ := run.of_concat
  have hreads : ∀ m ∈ secrets ++ [quota] ++ [photonRead] ++ [.clock now], m.Reads := by
    simp only [List.forall_mem_append, List.forall_mem_singleton]
    exact ⟨⟨⟨reads_of_forall₂ hfound, hadmitted.reads⟩, hresolved.reads⟩, Move.reads_clock now⟩
  obtain rfl := hbefore.eq_of_reads hreads
  obtain ⟨hfree, hafter⟩ := hwritten.effect hwrite
  obtain ⟨hrequirement, henvs, hmounts⟩ := Deployment.Spec.validate_eq_ok_iff.1 hchecked
  have hquota := quota_of_admitsQuota hbefore hreads (by simp) hadmitted
  refine ⟨photon, now.millis, ?_, rfl, hafter⟩
  exact {
    normal := eq_of_beq hwritable
    named := hnamed
    requirement := hrequirement
    envs := henvs
    mounts := hmounts
    secrets := stored_of_forall₂ hbefore hreads (by simp) hfound
    quota := hquota.imp_right fun ⟨q, hq, hadmits⟩ => ⟨q, requested, hq, htotal, hadmits⟩
    photon := hresolved.stored hbefore hreads (by simp)
    free := hb.get?_eq_none hfree }

end Alone

/-- A creation that nothing disturbs succeeds where it is admissible. -/
theorem Admissible.undisturbed_create {b : Backend} {photon : Photon}
    (h : Admissible c spec b.keys photon) (now : Timestamp) :
    (create c spec).run.undisturbed now b =
      (.ok (start c spec photon now.millis), { b with
        keys := b.keys.write (c.deployments.key (Name.deploymentId spec.name))
          (Kind.encode (start c spec photon now.millis)) }) := by
  have hchecked : spec.validate = .ok () :=
    Deployment.Spec.validate_eq_ok_iff.2 ⟨h.requirement, h.envs, h.mounts⟩
  obtain ⟨requested, htotal⟩ := Requirement.exists_total_of_validate h.requirement
  have hadmitted : (checkQuota c requested none).run.undisturbed now b = (.ok (), b) := by
    obtain habsent | ⟨q, requested', hq, htotal', hadmits⟩ := h.quota
    · exact undisturbed_checkQuota_of_absent habsent _ _ now
    · obtain rfl := Except.ok.inj (htotal.symm.trans htotal')
      rw [undisturbed_checkQuota_of_stored hq, if_pos hadmits]
  exact Deployments.undisturbed_create (beq_iff_eq.2 h.normal) h.named hchecked h.secrets htotal
    hadmitted h.photon h.free

/-! ### The main result -/

/-- A change that failed has left the keys as they were. -/
theorem keys_eq_of_fails {p q : Program α} {b b' : Backend} {past : List Move} {e : Refusal}
    (run : p.Alone b past b' q) (h : Writer.Fails e past) : b'.keys = b.keys := by
  obtain hquiet | ⟨⟨before, m, rfl, hquiet, hverdict⟩, -⟩ := h
  · exact run.keys_eq_of_quiet hquiet
  · obtain ⟨b₁, q₁, hbefore, -, hm, rfl⟩ := run.of_concat
    rw [hm.keys_after (by rw [hverdict]; decide), hbefore.keys_eq_of_quiet hquiet]

/-- Whatever it is told, a creation succeeds with the moves of `Creation` and no others, so every
condition was established by an answer that it has read.  On its own, and whatever calls fail, it
succeeds only where it is admissible, and then it has written the deployment that it returns and
nothing else; if it fails, all keys are as they were.  Where no call fails it succeeds exactly if it
is admissible.  What is written is found again; it is the returned deployment exactly if the doubles
of its requirement survive being written and read. -/
theorem creation_exact (c : Config) (spec : Deployment.Spec) :
    (∀ moves d, Succeeds (create c spec) moves d ↔ Creation c spec moves d) ∧
    (∀ b past b' d, b.keys.Valid → (create c spec).run.Alone b past b' (.done (.ok d)) →
      ∃ photon now, Admissible c spec b.keys photon ∧ d = start c spec photon now ∧
        b' = { b with keys := b.keys.write (c.deployments.key d.id) (Kind.encode d) }) ∧
    (∀ b past b' e, (create c spec).run.Alone b past b' (.done (.error e)) → b'.keys = b.keys) ∧
    (∀ b now d b', b.keys.Valid → ((create c spec).run.undisturbed now b = (.ok d, b') ↔
      ∃ photon, Admissible c spec b.keys photon ∧ d = start c spec photon now.millis ∧
        b' = { b with keys := b.keys.write (c.deployments.key d.id) (Kind.encode d) })) ∧
    ∀ photon now (s : KeyStore), spec.requirement.InRange →
      let d := start c spec photon now
      c.deployments.Stored (s.write (c.deployments.key d.id) (Kind.encode d)) d.id d.reread ∧
        (d.reread = d ↔ Double.reread spec.requirement.cpu = spec.requirement.cpu ∧
          Double.reread spec.requirement.accelerators = spec.requirement.accelerators) := by
  have halone (b : Backend) (past : List Move) (b' : Backend) (d : Deployment)
      (hb : b.keys.Valid) (run : (create c spec).run.Alone b past b' (.done (.ok d))) :=
    (succeeds_create_iff.1 run.ends).alone run hb
  refine ⟨fun _ _ => succeeds_create_iff, halone, ?_, ?_, ?_⟩
  · intro b past b' e run
    have hfails : Writer.Fails e past := (run.holds (Writer.ensures_service_create spec)).1
    exact keys_eq_of_fails run hfails
  · intro b now d b' hb
    constructor
    · intro hrun
      obtain ⟨past, run⟩ := Program.exists_alone_undisturbed (create c spec).run now b
      rw [hrun] at run
      obtain ⟨photon, -, hadmissible, -⟩ := halone b past b' d hb run
      obtain ⟨hd, rfl⟩ := Prod.mk.inj (hrun.symm.trans (hadmissible.undisturbed_create now))
      obtain rfl := Except.ok.inj hd
      exact ⟨photon, hadmissible, rfl, rfl⟩
    · rintro ⟨photon, hadmissible, rfl, rfl⟩
      exact hadmissible.undisturbed_create now
  · intro photon now s hrange d
    have hstorable : Kind.Storable d := Deployment.storable hrange
    exact ⟨(Repository.stored_write hstorable).2 (if_pos rfl ▸ rfl), d.reread_eq_iff⟩

/-- A deployment is created whose processor share is read back as another double. -/
theorem creation_exact_largeCpu :
    let c : Config := { scope := "ns", name := "w", state := .normal }
    let spec : Deployment.Spec :=
      ⟨"d", "m-0", { cpu := 8.314568688035392e145, memory := 1, minReplicas := some 1 }, none, none,
        none⟩
    ∃ b now d b', (create c spec).run.undisturbed now b = (.ok d, b') ∧
      c.deployments.Stored b'.keys d.id d.reread ∧ d.reread ≠ d := by
  intro c spec
  let photon : Photon := ⟨"m-0", ⟨"m", "", "i", [], [], none, none, []⟩, 0⟩
  let s := KeyStore.empty.write (c.photons.key "m-0") (Kind.encode photon)
  have hvalid : s.Valid := KeyStore.valid_empty.write _ _
  have hphoton : c.photons.Stored s "m-0" photon := by
    have hstorable : Kind.Storable photon := ⟨nofun, rfl⟩
    exact (Repository.stored_write hstorable).2 (if_pos rfl ▸ rfl)
  have hadmissible : Admissible c spec s photon := {
    normal := rfl
    named := by decide
    requirement := by decide +kernel
    envs := nofun
    mounts := nofun
    secrets := nofun
    quota := Or.inl (KeyStore.get?_write_of_ne (by decide) _ _)
    photon := hphoton
    free := KeyStore.get?_write_of_ne (by decide) _ _ }
  have hrange : spec.requirement.InRange := ⟨by decide +kernel, by decide +kernel⟩
  obtain ⟨-, -, -, hundisturbed, hstored⟩ := creation_exact c spec
  let now : Timestamp := ⟨1970, 1, 1, 0, 0, 0, 0⟩
  obtain ⟨hfound, hsame⟩ := hstored photon now.millis s hrange
  refine ⟨⟨s, .empty⟩, now, start c spec photon now.millis, _,
    (hundisturbed _ now _ _ hvalid).2 ⟨photon, hadmissible, rfl, rfl⟩, hfound, fun h => ?_⟩
  exact absurd (hsame.1 h).1 (by decide +kernel)

end Deployments

end Service

end Workplane
