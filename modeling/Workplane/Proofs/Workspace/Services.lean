import Workplane.Background.Lifecycle
import Workplane.Proofs.Program.Operations
import Workplane.Proofs.Workspace.Integrity
import Workplane.Service.Deployments
import Workplane.Service.Photons
import Workplane.Service.Secrets

/-!
# Services keep a workspace intact

A service that runs alone, on a backend that answers truly or not at all, makes only changes that
keep an intact store intact (`Workspace.Safe`).  What comes before a change only reads
(`Workspace.Reads`): it leaves the backend as it is, so what it has told still holds when the
service asks for the change.
-/

namespace Workplane.Workspace

open Service

variable {c : Config} {b : Backend} {α β ε : Type}

/-! ### The environment -/

/-- A program alone on a backend; it may only make changes that keep the store intact. -/
def Environment.alone (c : Config) : Environment Backend where
  permits b call := ∀ m : Move, m.request = call → m.IsTrue b → Keeps c b.keys (m.after b).keys
  allows b m b' := m.IsTrue b ∧ b' = m.after b

/-- From a backend on, the program takes only permitted steps, and ends with an intact store
whether it fails or not. -/
def SafeAt (c : Config) (b : Backend) (p : ExceptT ε Program α) : Prop :=
  Ensures (Environment.alone c) (fun _ b' => Intact c b'.keys) (fun _ b' => Intact c b'.keys) p b

/-- The program is safe on every intact store. -/
def Safe (c : Config) (p : ExceptT ε Program α) : Prop :=
  ∀ b : Backend, Intact c b.keys → SafeAt c b p

/-- The program leaves the backend as it is, and what it ends well with has a property. -/
def Reads (c : Config) (b : Backend) (P : α → Prop) (p : ExceptT ε Program α) : Prop :=
  Ensures (Environment.alone c) (fun a b' => b' = b ∧ P a) (fun _ b' => b' = b) p b

/-! #### Steps -/

/-- A move that asks for nothing but a read leaves the backend as it is. -/
theorem after_eq_of_isRead {m : Move} (h : ∀ call, m.request = some call → call.IsRead) :
    m.after b = b := by
  cases m with
  | clock now => rfl
  | call call reply =>
    have hread := h call rfl
    obtain ⟨outcome, took⟩ := reply
    cases outcome with
    | failed causes => rfl
    | gaveUp => rfl
    | answered answer =>
      cases call with
      | get key => rfl
      | list start => rfl
      | getBlob key => rfl
      | putBlob key data => exact hread.elim
      | swap key expected value => exact hread.elim
      | delete key => exact hread.elim

theorem permits_of_isRead (h : Intact c b.keys) {call : Option Call}
    (hread : ∀ x, call = some x → x.IsRead) : (Environment.alone c).permits b call := by
  rintro m rfl -
  rw [after_eq_of_isRead hread]
  exact h.keeps_self

/-- A conditional write is permitted if it keeps what is stored whenever it is made. -/
theorem permits_swap (h : Intact c b.keys) {key : String} {expected : UInt64} {value : ByteArray}
    (hwrite : b.keys.revisionOf key = expected → Keeps c b.keys (b.keys.write key value)) :
    (Environment.alone c).permits b (some (.swap key expected value)) := by
  intro m hreq hm
  cases hm.effect with
  | quiet _ keys _ => exact keys ▸ h.keeps_self
  | wrote key' expected' value' request _ revision keys =>
    rw [hreq] at request
    obtain ⟨rfl, rfl, rfl⟩ := Call.swap.inj (Option.some.inj request)
    exact keys ▸ hwrite revision
  | removed key' request =>
    rw [hreq] at request
    exact Call.noConfusion (Option.some.inj request)

/-- A deletion is permitted if what remains is kept. -/
theorem permits_delete (h : Intact c b.keys) {key : String}
    (hdelete : Keeps c b.keys (b.keys.delete key).2) :
    (Environment.alone c).permits b (some (.delete key)) := by
  intro m hreq hm
  cases hm.effect with
  | quiet _ keys _ => exact keys ▸ h.keeps_self
  | wrote key' expected' value' request =>
    rw [hreq] at request
    exact Call.noConfusion (Option.some.inj request)
  | removed key' request _ _ keys =>
    rw [hreq] at request
    obtain rfl := Call.delete.inj (Option.some.inj request)
    exact keys ▸ hdelete

/-- The step that keeps the invariant: a permitted call leaves an intact store, whatever becomes of
it. -/
theorem intact_of_allows {m : Move} {b' : Backend}
    (hpermits : (Environment.alone c).permits b m.request)
    (hallows : (Environment.alone c).allows b m b') : Intact c b'.keys :=
  hallows.2 ▸ (hpermits m rfl hallows.1).intact

/-! #### Safe programs -/

/-- A safe program keeps the store intact however it ends. -/
theorem SafeAt.holds {p : ExceptT ε Program α} (hp : SafeAt c b p) :
    p.run.Holds (Environment.alone c) (fun _ b' => Intact c b'.keys) b :=
  Program.Holds.mono hp fun r _ h => by cases r <;> exact h

theorem safe_of_readOnly {p : ExceptT ε Program α} (hp : ReadOnly p) : Safe c p := by
  intro b hb
  refine hp.ensures (fun b' => Intact c b'.keys) (fun b' _ h => permits_of_isRead h) ?_ hb
  rintro b' m _ h hread ⟨-, rfl⟩
  rw [after_eq_of_isRead hread]
  exact h

theorem safe_pure (a : α) : Safe c (pure a : ExceptT ε Program α) :=
  safe_of_readOnly (readOnly_pure a)

theorem safe_throw (e : ε) : Safe c (throw e : ExceptT ε Program α) :=
  safe_of_readOnly (readOnly_throw e)

theorem SafeAt.bind {p : ExceptT ε Program α} {f : α → ExceptT ε Program β} (hp : SafeAt c b p)
    (hf : ∀ a, Safe c (f a)) : SafeAt c b (p >>= f) :=
  ensures_bind.2 (hp.mono (fun a b' h => hf a b' h) fun _ _ h => h)

theorem Safe.bind {p : ExceptT ε Program α} {f : α → ExceptT ε Program β} (hp : Safe c p)
    (hf : ∀ a, Safe c (f a)) : Safe c (p >>= f) :=
  fun b hb => (hp b hb).bind hf

theorem Safe.forM {f : β → ExceptT ε Program PUnit} {bs : List β} (hf : ∀ x ∈ bs, Safe c (f x)) :
    Safe c (bs.forM f) := by
  induction bs with
  | nil => exact safe_pure _
  | cons x bs ih =>
    exact (hf x (.head bs)).bind fun _ => ih fun y hy => hf y (.tail x hy)

theorem SafeAt.ofStore {p : StoreProgram α} (hp : SafeAt c b p) : SafeAt c b (ofStore p) :=
  ensures_ofStore.2 hp

/-! ### Reading -/

theorem reads_of_readOnly {p : ExceptT ε Program α} (hp : ReadOnly p) (hb : Intact c b.keys) :
    Reads c b (fun _ => True) p := by
  refine (hp.ensures (· = b) ?_ ?_ rfl).mono (fun _ _ h => ⟨h, trivial⟩) fun _ _ h => h
  · rintro _ call rfl hread
    exact permits_of_isRead hb hread
  · rintro _ m _ rfl hread ⟨-, rfl⟩
    exact after_eq_of_isRead hread

theorem reads_now (hb : Intact c b.keys) :
    Reads c b (fun _ => True) (monadLift Program.now : ExceptT ε Program Timestamp) := by
  refine ensures_lift.2 (Program.holds_now.2 ⟨permits_of_isRead hb nofun, ?_⟩)
  rintro t _ ⟨-, rfl⟩
  exact ⟨rfl, trivial⟩

section Reading

variable {P : α → Prop} {Q : β → Prop}

/-- What was read before a change holds at the change. -/
theorem Reads.bind {p : ExceptT ε Program α} {f : α → ExceptT ε Program β} (hp : Reads c b P p)
    (hb : Intact c b.keys) (next : ∀ a, P a → SafeAt c b (f a)) : SafeAt c b (p >>= f) := by
  refine ensures_bind.2 (hp.mono ?_ ?_)
  · rintro a _ ⟨rfl, ha⟩
    exact next a ha
  · rintro _ _ rfl
    exact hb

/-- What one read has shown may be used by the next, for the store is still the same. -/
theorem Reads.trans {p : ExceptT ε Program α} {f : α → ExceptT ε Program β} (hp : Reads c b P p)
    (next : ∀ a, P a → Reads c b Q (f a)) : Reads c b Q (p >>= f) := by
  refine ensures_bind.2 (hp.mono ?_ fun _ _ h => h)
  rintro a _ ⟨rfl, ha⟩
  exact next a ha

theorem reads_pure {a : α} (ha : P a) : Reads c b P (pure a : ExceptT ε Program α) :=
  ensures_pure.2 ⟨rfl, ha⟩

theorem reads_throw {e : ε} : Reads c b P (throw e : ExceptT ε Program α) :=
  ensures_throw.2 rfl

theorem Reads.ofStore {p : StoreProgram α} (hp : Reads c b P p) : Reads c b P (ofStore p) :=
  ensures_ofStore.2 hp

theorem Reads.ifFound {p : StoreProgram α} (hp : Reads c b P p) :
    Reads c b (fun found => ∀ a, found = some a → P a) (ifFound p) := by
  refine ensures_ifFound.2 (hp.mono ?_ ?_)
  · rintro a _ ⟨rfl, ha⟩
    exact ⟨rfl, fun a' h => Option.some.inj h ▸ ha⟩
  · rintro e _ rfl
    split
    · exact ⟨rfl, nofun⟩
    · rfl

variable [Kind α] {r : Repository α}

/-- What is read is stored under its name. -/
theorem reads_getVersioned (hb : Intact c b.keys) (name : String) :
    Reads c b (fun v => r.Stored b.keys name v.object) (r.getVersioned name) := by
  refine Repository.ensures_getVersioned
    (permits_of_isRead hb fun x hx => by rw [← Option.some.inj hx]; trivial) ?_ ?_ ?_ ?_
  · rintro e a took _ ⟨hm, rfl⟩ ha
    exact ⟨rfl, e, (hm _ rfl).symm, ha⟩
  · rintro took _ ⟨-, rfl⟩
    rfl
  · rintro e detail took _ ⟨-, rfl⟩ -
    rfl
  · rintro e reply _ - hlost ⟨-, rfl⟩
    exact after_eq_of_isRead fun x hx => by rw [← Option.some.inj hx]; trivial

theorem reads_get (hb : Intact c b.keys) (name : String) :
    Reads c b (r.Stored b.keys name) (r.get name) :=
  ensures_map.2 (reads_getVersioned hb name)

/-- What is listed is what is stored. -/
theorem reads_list (hb : Intact c b.keys) :
    Reads c b (fun as => ∀ a, a ∈ as ↔ ∃ name, r.Stored b.keys name a) r.list := by
  refine Repository.ensures_list
    (permits_of_isRead hb fun x hx => by rw [← Option.some.inj hx]; trivial) ?_ ?_
  · rintro entries took _ ⟨hm, rfl⟩
    obtain rfl := hm _ rfl
    exact ⟨rfl, fun a => Repository.mem_listed⟩
  · rintro e reply _ - hlost ⟨-, rfl⟩
    exact after_eq_of_isRead fun x hx => by rw [← Option.some.inj hx]; trivial

end Reading

/-! ### Changing -/

section Changing

variable [Kind α] {r : Repository α} {name : String} {a : α}

/-- A creation may rely on the name being free. -/
theorem safeAt_create (hb : Intact c b.keys)
    (hwrite : b.keys.get? (r.key name) = none →
      Keeps c b.keys (b.keys.write (r.key name) (Kind.encode a))) :
    SafeAt c b (r.create name a) := by
  have hpermits := permits_swap hb fun hrev => hwrite (hb.valid.get?_eq_none hrev)
  refine Repository.ensures_create hpermits ?_ ?_ ?_
  · exact fun swap took b' hallows _ => intact_of_allows hpermits hallows
  · exact fun swap took b' hallows _ => intact_of_allows hpermits hallows
  · exact fun e reply b' _ _ hallows => intact_of_allows hpermits hallows

/-- An update is safe if the object may take the place of what is there. -/
theorem safeAt_updateAt (hb : Intact c b.keys) {revision : UInt64}
    (hwrite : Keeps c b.keys (b.keys.write (r.key name) (Kind.encode a))) :
    SafeAt c b (r.updateAt name a revision) := by
  have hpermits : (Environment.alone c).permits b
      (some (.swap (r.key name) revision (Kind.encode a))) := permits_swap hb fun _ => hwrite
  refine Repository.ensures_updateAt hpermits ?_ ?_ ?_
  · exact fun swap took b' hallows _ => intact_of_allows hpermits hallows
  · exact fun swap took b' hallows _ =>
      ⟨fun _ => intact_of_allows hpermits hallows, fun _ => intact_of_allows hpermits hallows⟩
  · exact fun e reply b' _ _ hallows => intact_of_allows hpermits hallows

theorem safeAt_delete (hb : Intact c b.keys)
    (hdelete : Keeps c b.keys (b.keys.delete (r.key name)).2) : SafeAt c b (r.delete name) := by
  have hpermits := permits_delete hb hdelete
  refine Repository.ensures_delete hpermits ?_ ?_ ?_
  · exact fun took b' hallows => intact_of_allows hpermits hallows
  · exact fun took b' hallows => intact_of_allows hpermits hallows
  · exact fun e reply b' _ _ hallows => intact_of_allows hpermits hallows

end Changing

/-! ### Photons -/

theorem safe_createPhoton {spec : Photon.Spec} (hrange : spec.InRange) (hread : spec.IsReadAt 126) :
    Safe c (Photons.create c spec) := by
  intro b hb
  refine (reads_of_readOnly (readOnly_ensureWritable c) hb).bind hb fun _ _ => ?_
  refine (reads_of_readOnly (readOnly_ofCheck _) hb).bind hb fun _ _ => ?_
  split
  · exact safe_throw _ b hb
  · refine (reads_now hb).bind hb fun now _ => ?_
    have hstorable : Kind.Storable (Photon.ofSpec spec now.millis) :=
      ⟨hrange, Photon.reader_toJson hread⟩
    refine (safeAt_create hb fun habsent => ?_).ofStore.bind fun _ => safe_pure _
    exact hb.keeps_write_photon hstorable rfl habsent

/-- A photon is deleted only after no deployment was found that runs it. -/
theorem safe_deletePhoton (id : String) : Safe c (Photons.delete c id) := by
  intro b hb
  refine (reads_of_readOnly (readOnly_ensureWritable c) hb).bind hb fun _ _ => ?_
  refine (reads_list hb).ofStore.bind hb fun deployments hlisted => ?_
  split
  · exact safe_throw _ b hb
  · rename_i hnone
    refine (safeAt_delete hb (hb.keeps_delete_photon fun name d hd heq => ?_)).ofStore
    have hmem : d ∈ deployments := (hlisted d).2 ⟨name, hd⟩
    exact absurd heq (by simpa using List.find?_eq_none.1 hnone d hmem)

/-! ### Secrets -/

/-- A secret may always be put: references to it stay good. -/
theorem safe_putSecret (v : Secret) : Safe c (Secrets.put c v) := by
  intro b hb
  have hkeeps := hb.keeps_write_secret v.storable rfl
  refine (reads_getVersioned hb v.name).ifFound.bind hb fun found _ => ?_
  cases found with
  | some current => exact (safeAt_updateAt hb hkeeps).ofStore.bind fun _ => safe_pure _
  | none => exact (safeAt_create hb fun _ => hkeeps).ofStore.bind fun _ => safe_pure _

theorem safe_putSecrets (secrets : List Secret) : Safe c (Secrets.putAll c secrets) := by
  refine (safe_of_readOnly (readOnly_ensureWritable c)).bind fun _ => ?_
  refine (safe_of_readOnly (ReadOnly.forM (fun v => ?_) secrets)).bind fun _ =>
    Safe.forM fun v _ => safe_putSecret v
  unfold Secrets.checkName
  split
  · exact readOnly_pure _
  · exact readOnly_throw _

/-- A secret is deleted only after no deployment was found that refers to it. -/
theorem safe_deleteSecret (name : String) : Safe c (Secrets.delete c name) := by
  intro b hb
  refine (reads_of_readOnly (readOnly_ensureWritable c) hb).bind hb fun _ _ => ?_
  refine (reads_list hb).ofStore.bind hb fun deployments hlisted => ?_
  split
  · exact safe_throw _ b hb
  · rename_i hnone
    refine (safeAt_delete hb (hb.keeps_delete_secret fun id d hd href => ?_)).ofStore
    have hmem : d ∈ deployments := (hlisted d).2 ⟨id, hd⟩
    exact absurd href (by simpa using List.find?_eq_none.1 hnone d hmem)

/-! ### Deployments -/

/-- The secrets of a specification whose check has passed are stored. -/
theorem reads_checkSpec (hb : Intact c b.keys) (spec : Deployment.Spec) :
    Reads c b (fun _ => ∀ name ∈ spec.secretRefs, ∃ v, c.secrets.Stored b.keys name v)
      (Deployments.checkSpec c spec) := by
  refine (reads_of_readOnly (readOnly_ofCheck _) hb).trans fun _ _ => ?_
  refine ensures_forM (fun name _ s hs => ?_) rfl
  subst hs
  refine (reads_get hb name).ifFound.trans fun found hfound => ?_
  cases found with
  | some v => exact reads_pure ⟨v, hfound v rfl⟩
  | none => exact reads_throw

/-- The photon that is found is stored under the identifier that was asked for. -/
theorem reads_resolvePhoton (hb : Intact c b.keys) (id : String) :
    Reads c b (c.photons.Stored b.keys id) (resolvePhoton c id) := by
  refine (reads_get hb id).ifFound.trans fun found hfound => ?_
  cases found with
  | some p => exact reads_pure (hfound p rfl)
  | none => exact reads_throw

/-- A deployment is created after its photon and its secrets were found. -/
theorem safe_createDeployment {spec : Deployment.Spec} (hrange : spec.requirement.InRange) :
    Safe c (Deployments.create c spec) := by
  intro b hb
  refine (reads_of_readOnly (readOnly_ensureWritable c) hb).bind hb fun _ _ => ?_
  refine (reads_of_readOnly (readOnly_ofCheck _) hb).bind hb fun _ _ => ?_
  refine (reads_checkSpec hb spec).bind hb fun _ hsecrets => ?_
  refine (reads_of_readOnly (readOnly_ofCheck _) hb).bind hb fun total _ => ?_
  refine (reads_of_readOnly (readOnly_checkQuota c total none) hb).bind hb fun _ _ => ?_
  refine (reads_resolvePhoton hb spec.photonId).bind hb fun photon hphoton => ?_
  refine (reads_now hb).bind hb fun now _ => ?_
  have hstorable : Kind.Storable (Deployments.start c spec photon now.millis) :=
    Deployment.storable hrange
  refine (safeAt_create hb fun habsent => ?_).ofStore.bind fun _ => safe_pure _
  refine hb.keeps_write_deployment hstorable rfl ⟨⟨photon, hphoton, rfl⟩, hsecrets⟩ ?_
  rintro d' ⟨e, he, -⟩
  rw [habsent] at he
  exact nomatch he

/-- A stored deployment may be replaced by one of the same model whose references are good. -/
theorem safeAt_updateDeployment {limit : Nat} (hb : Intact c b.keys) {id : String}
    {revision : UInt64} {d : Deployment} (hd : c.deployments.Stored b.keys id d) (d' : Deployment)
    (hrange : d'.spec.requirement.InRange) (hid : d'.id = d.id)
    (hreferenced : Referenced c b.keys d') (hsame : d'.system.photonName = d.system.photonName) :
    SafeAt c b (Repository.updateAt { c.deployments with limit } id d' revision) := by
  have hname : d'.id = id := hid.trans (hb.deployments.objectName_eq hd)
  exact safeAt_updateAt hb (hb.keeps_write_deployment (Deployment.storable hrange) hname
    hreferenced fun d₀ hd₀ => by rw [hsame, hd.eq hd₀])

/-- The photon that a patch changes to is a stored build of the same model. -/
theorem reads_newPhoton (hb : Intact c b.keys) (patch : Patch) (current : Deployment) :
    Reads c b
      (fun _ => ∀ id, patch.newPhotonId = some id →
        ∃ p, c.photons.Stored b.keys id p ∧ p.spec.name = current.system.photonName)
      (Deployments.newPhoton c patch current) := by
  unfold Deployments.newPhoton
  cases patch.newPhotonId with
  | none => exact reads_pure nofun
  | some id =>
    refine (reads_resolvePhoton hb id).trans fun p hp => ?_
    split
    · rename_i hname
      refine reads_pure fun id' hid => ⟨p, ?_, hname⟩
      exact Option.some.inj hid ▸ hp
    · exact reads_throw

/-- A patched deployment keeps its photon or gets one that was found, of the same model. -/
theorem safe_patchDeployment (id : String) (patch : Patch) :
    Safe c (Deployments.patch c id patch) := by
  intro b hb
  refine (reads_of_readOnly (readOnly_ensureWritable c) hb).bind hb fun _ _ => ?_
  refine (reads_getVersioned hb id).ofStore.bind hb fun ⟨d, revision⟩ hd => ?_
  refine (reads_newPhoton hb patch d).bind hb fun photon hphoton => ?_
  split
  · exact safe_throw _ b hb
  · refine (reads_checkSpec hb (patch.apply d.spec)).bind hb fun _ hsecrets => ?_
    refine (reads_of_readOnly (readOnly_ofCheck _) hb).bind hb fun replaced _ => ?_
    refine (reads_of_readOnly (readOnly_ofCheck _) hb).bind hb fun requested _ => ?_
    refine (reads_of_readOnly (readOnly_checkQuota c _ _) hb).bind hb fun _ _ => ?_
    refine (reads_now hb).bind hb fun now _ => ?_
    have hreferenced :
        Referenced c b.keys (Deployments.patched c patch photon d now.millis) := by
      refine ⟨?_, hsecrets⟩
      show ∃ p, c.photons.Stored b.keys (patch.newPhotonId.getD d.spec.photonId) p ∧ _
      cases hid : patch.newPhotonId with
      | some id => exact hphoton id hid
      | none => exact (hb.referenced id d hd).photon
    have hwrite : SafeAt c b (c.deployments.updateAt id
        (Deployments.patched c patch photon d now.millis) revision) :=
      safeAt_updateDeployment hb hd _ (Patch.inRange_apply hd.storable.inRange patch) rfl
        hreferenced rfl
    exact hwrite.ofStore.bind fun _ => safe_pure _

theorem safe_deleteDeployment (id : String) : Safe c (Deployments.delete c id) := by
  intro b hb
  refine (reads_of_readOnly (readOnly_ensureWritable c) hb).bind hb fun _ _ => ?_
  exact (safeAt_delete hb (hb.keeps_delete_deployment id)).ofStore

/-! ### The scale-down -/

/-- Scaling down touches no reference. -/
theorem safe_scaleOneToZero (limit : Nat) (id : String) :
    Safe c (Background.scaleOneToZero { c.deployments with limit } id) := by
  intro b hb
  refine (reads_getVersioned hb id).bind hb fun ⟨d, revision⟩ hd => ?_
  split
  · refine (reads_now hb).bind hb fun now _ => ?_
    have hreferenced : Referenced c b.keys (Background.withoutReplicas d now.millis) :=
      ⟨(hb.referenced id d hd).photon, (hb.referenced id d hd).secrets⟩
    have hrange : (Background.withoutReplicas d now.millis).spec.requirement.InRange :=
      ⟨hd.storable.inRange.cpu, hd.storable.inRange.accelerators⟩
    have hwrite : SafeAt c b (Repository.updateAt { c.deployments with limit } id
        (Background.withoutReplicas d now.millis) revision) :=
      safeAt_updateDeployment hb hd _ hrange rfl hreferenced rfl
    exact hwrite.bind fun _ => safe_pure _
  · exact safe_pure _ b hb

/-- A pass keeps the store intact. -/
theorem holds_scaleToZero (limit : Nat) (hb : Intact c b.keys) :
    (Background.scaleToZero { c.deployments with limit }).Holds (Environment.alone c)
      (fun _ b' => Intact c b'.keys) b :=
  Background.holds_scaleToZero (fun id => safe_scaleOneToZero limit id)
    (fun b hb => safe_of_readOnly (Repository.readOnly_list _) b hb) hb

end Workplane.Workspace
