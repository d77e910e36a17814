import Mathlib.Data.List.Forall2
import Workplane.Proofs.Program.Alone
import Workplane.Proofs.Service.Undisturbed
import Workplane.Proofs.Sorted
import Workplane.Service.Diagnosis

/-!
# What reports tell of a deployment

The reports on a deployment are functions of three parts of the store (`Agree`): what is stored
under the identifier of the deployment, its replicas (`podsOf`), and the events about the deployment
or one of them (`eventsOf`).  Where every replica is stored under its own name, a report has one
entry for each of them, with one verdict or with its abnormal ends (`Termination.Ends`).

A report on readiness is a grouping of verdicts (`grouped`), and the verdict on a replica that is
ready does not depend on the events.  So a look at the events that fails takes nothing from the
report but the reasons why the other replicas are not ready.  The main statement is
`reports_own`.
-/

namespace Workplane

/-! ### Looks that nothing disturbs -/

namespace Repository

variable {α : Type} [Kind α] {r : Repository α} {name : String} {a : α} {s s' : KeyStore}

/-- What a look at a name finds. -/
def found (r : Repository α) (name : String) (s : KeyStore) : Except StoreError α :=
  match s.get? (r.key name) with
  | none => .error (.notFound (Kind.plural α) name)
  | some e =>
    match Kind.decode? e.value with
    | some a => .ok a
    | none => .error (.serialization (Kind.plural α) "not a stored object of this kind")

/-- Only the value matters for what is found. -/
theorem found_congr (h : (s.get? (r.key name)).map Entry.value =
    (s'.get? (r.key name)).map Entry.value) : r.found name s = r.found name s' := by
  unfold found
  cases hs : s.get? (r.key name) with
  | none =>
    rw [hs] at h
    rw [Option.map_eq_none_iff.1 h.symm]
  | some e =>
    rw [hs] at h
    obtain ⟨e', he', hvalue⟩ := Option.map_eq_some_iff.1 h.symm
    rw [he']
    simp only [hvalue]

/-- What is stored is found. -/
theorem Stored.found_eq (h : r.Stored s name a) : r.found name s = .ok a := by
  obtain ⟨e, he, ha⟩ := h
  unfold found
  simp only [he, ha]

theorem undisturbed_get (r : Repository α) (name : String) (now : Timestamp) (b : Backend) :
    (r.get name).run.undisturbed now b = (r.found name b.keys, b) := by
  unfold found
  cases he : b.keys.get? (r.key name) with
  | none => exact undisturbed_get_of_absent he now
  | some e =>
    have hget :
        (r.request "get" (.get (r.key name))).run.undisturbed now b = (.ok (some e), b) := by
      show (Except.ok (b.keys.get? (r.key name)), b) = _
      rw [he]
    rw [Repository.get, map_eq_pure_bind, getVersioned, bind_assoc, undisturbed_run_bind hget]
    simp only [decode]
    cases Kind.decode? (α := α) e.value with
    | some a => rfl
    | none => rfl

/-- A look that is answered finds what is there. -/
theorem ensures_get_alone {inv : List Move → Backend → Prop} {past : List Move} {b : Backend}
    (hinv : inv past b) :
    Ensures (.alone inv) (fun a s => s.2 = b ∧ r.found name b.keys = .ok a)
      (fun e s => s.2 = b ∧ (r.found name b.keys = .error e ∨
        ∃ m ∈ s.1, m.IsLost ∧ m.request = some (.get (r.key name)))) (r.get name) (past, b) := by
  refine ensures_map.2 (ensures_bind.2 (ensures_request hinv ?_ ?_))
  · rintro answer took _ ⟨htrue, rfl⟩
    obtain rfl : answer = b.keys.get? (r.key name) := htrue answer rfl
    unfold found
    cases b.keys.get? (r.key name) with
    | none => exact ensures_throw.2 ⟨rfl, Or.inl rfl⟩
    | some e =>
      simp only [decode]
      cases Kind.decode? (α := α) e.value with
      | some a => exact ensures_pure.2 ⟨rfl, rfl⟩
      | none => exact ensures_bind.2 (ensures_throw.2 ⟨rfl, Or.inl rfl⟩)
  · rintro e reply s - hlost hs
    obtain rfl := Environment.eq_of_lost hs hlost
    exact ⟨rfl, Or.inr ⟨_, List.mem_append_right _ (.head []), hlost, rfl⟩⟩

end Repository

/-! ### Abnormal ends -/

namespace Termination

/-- The last ends of containers that did not complete, in the order of the containers. -/
inductive Ends : List ContainerStatus → List Termination → Prop
  | nil : Ends [] []
  | none {s : ContainerStatus} {rest : List ContainerStatus} {ends : List Termination}
    (never : s.lastEnd = none) (others : Ends rest ends) : Ends (s :: rest) ends
  | completed {s : ContainerStatus} {rest : List ContainerStatus} {ends : List Termination}
    {e : ContainerEnd} (ended : s.lastEnd = some e) (reason : e.reason = "Completed")
    (others : Ends rest ends) : Ends (s :: rest) ends
  | abnormal {s : ContainerStatus} {rest : List ContainerStatus} {ends : List Termination}
    {e : ContainerEnd} (ended : s.lastEnd = some e) (reason : e.reason ≠ "Completed")
    (others : Ends rest ends) : Ends (s :: rest) (ofEnd e :: ends)

/-- The terminations of a pod are the ends of its containers, in their order. -/
theorem ends_ofStatuses (statuses : List ContainerStatus) :
    Ends statuses (ofStatuses statuses) := by
  induction statuses with
  | nil => exact .nil
  | cons s rest ih =>
    unfold ofStatuses at ih ⊢
    cases ended : s.lastEnd with
    | none =>
      rw [List.filterMap_cons_none ended]
      exact .none ended ih
    | some e =>
      rw [List.filterMap_cons_some ended]
      by_cases reason : e.reason = "Completed"
      · rw [List.filter_cons_of_neg (by simp [reason, completed])]
        exact .completed ended reason ih
      · rw [List.filter_cons_of_pos (by simpa [completed] using reason)]
        exact .abnormal ended reason ih

end Termination

/-! ### Groups -/

namespace Service.Diagnosis

open Workspace (Config)

variable {α : Type} {f g : Pod → α} {pods : List Pod}

theorem grouped_congr (h : ∀ p ∈ pods, f p = g p) : grouped f pods = grouped g pods := by
  unfold grouped
  congr 1
  refine List.map_congr_left fun p _ => ?_
  congr 1
  exact List.map_congr_left fun q hq => h q (List.mem_filter.1 hq).1

/-- A finding takes the place of each replica. -/
theorem grouped_eq_map (f : Pod → α) (pods : List Pod) :
    grouped f pods = (grouped id pods).map fun m => (m.1, m.2.map f) := by
  unfold grouped
  rw [← Sorted.ofList_map, List.map_map]
  simp [Function.comp_def]

/-- Which names a report has does not depend on the findings. -/
theorem names_grouped (f g : Pod → α) (pods : List Pod) :
    (grouped f pods).map Prod.fst = (grouped g pods).map Prod.fst := by
  rw [grouped_eq_map f, grouped_eq_map g, List.map_map, List.map_map]
  rfl

/-- Under a name a report has the findings for all pods of that name. -/
theorem mem_grouped {m : String × List α} (h : m ∈ grouped f pods) :
    m.2 = (pods.filter fun p => p.name == m.1).map f := by
  obtain ⟨p, -, rfl⟩ := List.mem_map.1 (Sorted.mem_of_mem_ofList h)
  rfl

/-- Replicas with distinct names have entries of their own. -/
theorem grouped_of_pairwise (f : Pod → α) (h : pods.Pairwise (·.name < ·.name)) :
    grouped f pods = pods.map fun p => (p.name, [f p]) := by
  have hentries : (pods.map fun p => (p.name, (pods.filter fun q => q.name == p.name).map f)) =
      pods.map fun p => (p.name, [f p]) := by
    refine List.map_congr_left fun p hp => ?_
    rw [Sorted.filter_eq_singleton h hp]
    rfl
  rw [grouped, hentries]
  exact Sorted.ofList_of_pairwise (List.pairwise_map.2 h)

/-! ### What a report is about -/

/-- The replicas of a deployment, in the order of their keys. -/
def podsOf (c : Config) (id : String) (s : KeyStore) : List Pod :=
  (c.pods.listed s).filter fun p => p.deployment == id

/-- The events about a deployment or one of its replicas, in the order of their keys. -/
def eventsOf (c : Config) (id : String) (s : KeyStore) : List Event :=
  (c.events.listed s).filter fun e =>
    e.regarding == id || (podsOf c id s).any fun p => e.regarding == p.name

/-- Two stores hold the same of a deployment, its replicas and the events about them. -/
structure Agree (c : Config) (id : String) (s s' : KeyStore) : Prop where
  deployment : (s.get? (c.deployments.key id)).map Entry.value =
    (s'.get? (c.deployments.key id)).map Entry.value
  pods : podsOf c id s = podsOf c id s'
  events : eventsOf c id s = eventsOf c id s'

/-- Every replica of a deployment is stored under its own name. -/
def OwnNames (c : Config) (id : String) (s : KeyStore) : Prop :=
  ∀ name p, c.pods.Stored s name p → p.deployment = id → p.name = name

/-- The condition of a replica says that it is ready. -/
def IsReady (p : Pod) : Prop :=
  Condition.status? p.conditions "Ready" = some true

section Reports

variable {c : Config} {id : String} {s s' : KeyStore} {b b' : Backend} {now : Timestamp}

theorem deployment_of_mem_podsOf {p : Pod} (h : p ∈ podsOf c id s) : p.deployment = id :=
  beq_iff_eq.1 (List.mem_filter.1 h).2

/-- The events about a replica are among those of its deployment. -/
theorem eventsAbout_eventsOf {p : Pod} (h : p ∈ podsOf c id s) :
    eventsAbout p (eventsOf c id s) = eventsAbout p (c.events.listed s) := by
  unfold eventsAbout eventsOf
  rw [List.filter_filter]
  refine List.filter_congr fun e _ => ?_
  rw [deployment_of_mem_podsOf h]
  -- An event about the replica is about one of the replicas that `eventsOf` looks for.
  by_cases hid : e.regarding = id
  · simp [hid]
  · by_cases hname : e.regarding = p.name
    · have hany : (podsOf c id s).any (fun q => e.regarding == q.name) = true :=
        List.any_eq_true.2 ⟨p, h, beq_iff_eq.2 hname⟩
      rw [hany, Bool.or_true, Bool.and_true]
    · simp [hid, hname]

/-- The verdict on a replica that is ready does not depend on the events. -/
theorem verdict_of_isReady {p : Pod} (h : IsReady p) (events : Except StoreError (List Event)) :
    verdict events p = ⟨.ready, ""⟩ := by
  unfold IsReady at h
  unfold verdict Readiness.diagnose
  simp only [h, if_true]

/-- The pods of a deployment come in the order of their names. -/
theorem pairwise_podsOf (own : OwnNames c id s) : (podsOf c id s).Pairwise (·.name < ·.name) :=
  Repository.pairwise_filter_listed fun name p hp hid => own name p hp (beq_iff_eq.1 hid)

/-! ### Reports that nothing disturbs -/

/-- The replicas of a deployment, or the refusal of the look at the deployment. -/
def replicasOf (c : Config) (id : String) (s : KeyStore) : Except Refusal (List Pod) :=
  match c.deployments.found id s with
  | .ok _ => .ok (podsOf c id s)
  | .error e => .error (.store e)

theorem undisturbed_replicas (c : Config) (id : String) (now : Timestamp) (b : Backend) :
    (replicas c id).run.undisturbed now b = (replicasOf c id b.keys, b) := by
  have hget := c.deployments.undisturbed_get id now b
  unfold replicasOf
  cases hfound : c.deployments.found id b.keys with
  | ok d =>
    rw [hfound] at hget
    have hlist : (ofStore c.pods.list).run.undisturbed now b =
        (.ok (c.pods.listed b.keys), b) := undisturbed_ofStore rfl
    rw [replicas, undisturbed_run_bind (undisturbed_ofStore hget), undisturbed_run_bind hlist]
    rfl
  | error e =>
    rw [hfound] at hget
    exact undisturbed_run_bind_error (undisturbed_ofStore_of_error hget)

theorem eq_podsOf_of_replicasOf {pods : List Pod} (h : replicasOf c id s = .ok pods) :
    pods = podsOf c id s := by
  unfold replicasOf at h
  split at h
  · exact (Except.ok.inj h).symm
  · exact nomatch h

/-- Undisturbed, the report holds a verdict for each pod of the deployment. -/
theorem undisturbed_readiness (c : Config) (id : String) (now : Timestamp) (b : Backend) :
    (readiness c id).run.undisturbed now b =
      ((replicasOf c id b.keys).map (grouped (verdict (.ok (eventsOf c id b.keys)))), b) := by
  have hreplicas := undisturbed_replicas c id now b
  cases hpods : replicasOf c id b.keys with
  | error e =>
    rw [hpods] at hreplicas
    exact undisturbed_run_bind_error hreplicas
  | ok pods =>
    rw [hpods] at hreplicas
    -- A failed look at the events is a result here, not the end of the service.
    let look : Service (Except StoreError (List Event)) := monadLift c.events.list.run
    have hevents : look.run.undisturbed now b = (.ok (.ok (c.events.listed b.keys)), b) := rfl
    have hverdict : grouped (verdict (.ok (c.events.listed b.keys))) pods =
        grouped (verdict (.ok (eventsOf c id b.keys))) pods := by
      refine grouped_congr fun p hp => ?_
      rw [eq_podsOf_of_replicasOf hpods] at hp
      unfold verdict
      simp only [eventsAbout_eventsOf hp]
    rw [readiness, undisturbed_run_bind hreplicas]
    show (look >>= _).run.undisturbed now b = _
    rw [undisturbed_run_bind hevents, hverdict]
    rfl

/-- Undisturbed, the report holds the ends of each pod of the deployment. -/
theorem undisturbed_terminations (c : Config) (id : String) (now : Timestamp) (b : Backend) :
    (terminations c id).run.undisturbed now b = ((replicasOf c id b.keys).map fun pods =>
      Sorted.ofList (pods.map fun p => (p.name, Termination.ofStatuses p.containers)), b) :=
  undisturbed_run_map (undisturbed_replicas c id now b) _

/-- Stores that agree on a deployment have the same replicas of it. -/
theorem Agree.replicasOf_eq (h : Agree c id s s') : replicasOf c id s = replicasOf c id s' := by
  unfold replicasOf
  rw [Repository.found_congr h.deployment, h.pods]

/-! ### Reports of runs that lose calls -/

/-- The run has lost another call than the look at the events. -/
def LostOther (c : Config) (past : List Move) : Prop :=
  ∃ m ∈ past, m.IsLost ∧ m.request ≠ some (.list c.events.root)

theorem list_pods_ne_list_events (c : Config) :
    some (Call.list c.pods.root) ≠ some (.list c.events.root) := by
  intro h
  have hapart : c.pods.Apart c.events :=
    Repository.apart_of_scope_eq rfl fun _ _ h => nomatch (List.cons.inj h).1
  exact hapart "" "" (congrArg (· ++ "") (Call.list.inj (Option.some.inj h)))

/-- However calls fail, the replicas are those of the store, or the failure is told. -/
theorem ensures_replicas (c : Config) (id : String) (b : Backend) :
    Ensures (.alone fun _ _ => True)
      (fun pods s => s.2 = b ∧ replicasOf c id b.keys = .ok pods)
      (fun e s => s.2 = b ∧ (replicasOf c id b.keys = .error e ∨ LostOther c s.1))
      (replicas c id) ([], b) := by
  refine ensures_bind.2 (ensures_ofStore.2 ((Repository.ensures_get_alone trivial).mono ?_ ?_))
  · rintro d ⟨past, b'⟩ ⟨rfl, hfound⟩
    have hpods : replicasOf c id b'.keys = .ok (podsOf c id b'.keys) := by
      rw [replicasOf, hfound]
    refine ensures_bind.2 (ensures_ofStore.2 (Repository.ensures_list trivial ?_ ?_))
    · rintro entries took _ ⟨htrue, rfl⟩
      obtain rfl : entries = b'.keys.list c.pods.root := htrue entries rfl
      exact ensures_pure.2 ⟨rfl, hpods⟩
    · rintro e reply s - hlost hs
      obtain rfl := Environment.eq_of_lost hs hlost
      refine ⟨rfl, Or.inr ⟨_, List.mem_append_right _ (.head []), hlost, ?_⟩⟩
      exact list_pods_ne_list_events c
  · rintro e s ⟨hb, hfound | ⟨m, hm, hlost, hrequest⟩⟩
    · exact ⟨hb, Or.inl (by rw [replicasOf, hfound])⟩
    · exact ⟨hb, Or.inr ⟨m, hm, hlost, by rw [hrequest]; exact nofun⟩⟩

/-- However calls fail, a report covers the replicas of the store, or the failure is told. -/
theorem ensures_readiness (c : Config) (id : String) (b : Backend) :
    Ensures (.alone fun _ _ => True)
      (fun report s => s.2 = b ∧ ∃ pods, replicasOf c id b.keys = .ok pods ∧
        ∃ events, report = grouped (verdict events) pods)
      (fun e s => s.2 = b ∧ (replicasOf c id b.keys = .error e ∨ LostOther c s.1))
      (readiness c id) ([], b) := by
  refine ensures_bind.2 ((ensures_replicas c id b).mono ?_ fun _ _ h => h)
  rintro pods ⟨past, b'⟩ ⟨rfl, hpods⟩
  have hlist : Ensures (.alone fun _ _ => True) (fun _ s => s.2 = b') (fun _ s => s.2 = b')
      c.events.list (past, b') := by
    refine Repository.ensures_list trivial ?_ ?_
    · rintro entries took _ ⟨-, rfl⟩
      rfl
    · rintro e reply s - hlost hs
      rw [Environment.eq_of_lost hs hlost]
  refine ensures_bind.2 (ensures_lift.2 (Program.Holds.mono hlist fun events s hs => ?_))
  refine ensures_pure.2 ⟨?_, pods, hpods, events, rfl⟩
  cases events <;> exact hs

/-- Every entry has a verdict for each replica of its name, which is `Ready` for one that is. -/
def Covers (pods : List Pod) (report : Report Readiness) : Prop :=
  ∀ m ∈ report, List.Forall₂ (fun p issue => IsReady p → issue = ⟨.ready, ""⟩)
    (pods.filter fun p => p.name == m.1) m.2

/-- A report of the pods covers the pods. -/
theorem covers_grouped (events : Except StoreError (List Event)) (pods : List Pod) :
    Covers pods (grouped (verdict events) pods) := by
  intro m hm
  rw [mem_grouped hm, List.forall₂_map_right_iff, List.forall₂_same]
  exact fun p _ hready => verdict_of_isReady hready events

/-- The look at the events can be the only call that is lost. -/
theorem exists_alone_withoutEvents {pods : List Pod} (h : replicasOf c id b.keys = .ok pods) :
    ∃ past r, (readiness c id).run.Alone b past b (.done r) ∧ ¬LostOther c past ∧
      ∃ m ∈ past, m.IsLost := by
  obtain ⟨past, run, answered⟩ :=
    (replicas c id).run.exists_alone_answered ⟨1970, 1, 1, 0, 0, 0, 0⟩ b
  rw [undisturbed_replicas, h] at run
  let lost : Move := .call (.list c.events.root) ⟨.gaveUp, 0⟩
  have hlost : lost.IsLost := fun _ => nofun
  have before : (readiness c id).run.Alone b past b _ := run.bind (ExceptT.bindCont _)
  refine ⟨past ++ [lost], _, before.move lost _ (.call _ _ _ _) (fun _ => nofun), ?_,
    lost, List.mem_append_right _ (.head []), hlost⟩
  rintro ⟨m, hm, hlost, hother⟩
  rcases List.mem_append.1 hm with hm | hm
  · exact answered m hm hlost
  · obtain rfl := List.mem_singleton.1 hm
    exact hother rfl

/-! ### The laws of reports -/

/-- The reports tell of each replica, and of nothing else. -/
structure TellsOfEach (c : Config) (id : String) (now : Timestamp) (b : Backend) : Prop where
  names : (podsOf c id b.keys).Pairwise (·.name < ·.name)
  readiness : (readiness c id).run.undisturbed now b =
    (.ok ((podsOf c id b.keys).map fun p => (p.name,
      [Readiness.diagnose p.conditions (.ok (eventsAbout p (eventsOf c id b.keys)))])), b)
  terminations : ∃ ends : Pod → List Termination, (∀ p, Termination.Ends p.containers (ends p)) ∧
    (terminations c id).run.undisturbed now b =
      (.ok ((podsOf c id b.keys).map fun p => (p.name, ends p)), b)

/-- A report fails as another one does; else it has the same names as the other one, and the same
verdicts on the replicas that are ready. -/
structure SameForReady (pods : List Pod) (r r₀ : Except Refusal (Report Readiness)) : Prop where
  error : ∀ e, r = .error e ↔ r₀ = .error e
  names : ∀ report report₀, r = .ok report → r₀ = .ok report₀ →
    report.map Prod.fst = report₀.map Prod.fst
  covers : ∀ report report₀, r = .ok report → r₀ = .ok report₀ →
    Covers pods report ∧ Covers pods report₀

theorem tellsOfEach {d : Deployment} (stored : c.deployments.Stored b.keys id d)
    (own : OwnNames c id b.keys) (now : Timestamp) : TellsOfEach c id now b := by
  have hnames := pairwise_podsOf own
  have hpods : replicasOf c id b.keys = .ok (podsOf c id b.keys) := by
    rw [replicasOf, stored.found_eq]
  refine ⟨hnames, ?_, fun p => Termination.ofStatuses p.containers,
    fun p => Termination.ends_ofStatuses p.containers, ?_⟩
  · rw [undisturbed_readiness, hpods]
    exact congrArg (fun report => (Except.ok report, b)) (grouped_of_pairwise _ hnames)
  · rw [undisturbed_terminations, hpods]
    exact congrArg (fun report => (Except.ok report, b))
      (Sorted.ofList_of_pairwise (List.pairwise_map.2 hnames))

/-- A run whose other calls were answered tells the same of the replicas that are ready. -/
theorem sameForReady_of_alone {past : List Move} {r : Except Refusal (Report Readiness)}
    (run : (readiness c id).run.Alone b past b' (.done r)) (answered : ¬LostOther c past)
    (now : Timestamp) :
    b' = b ∧ SameForReady (podsOf c id b.keys) r ((readiness c id).run.undisturbed now b).1 := by
  have hend := run.holds_alone (ensures_readiness c id b)
  rw [undisturbed_readiness]
  cases r with
  | error e =>
    obtain ⟨hb, hlost | hlost⟩ : b' = b ∧ (_ ∨ _) := hend
    · rw [hlost]
      exact ⟨hb, fun _ => Iff.rfl, (fun _ _ h => nomatch h), fun _ _ h => nomatch h⟩
    · exact absurd hlost answered
  | ok report =>
    obtain ⟨hb, pods, hpods, events, rfl⟩ : b' = b ∧ ∃ pods, _ := hend
    obtain rfl := eq_podsOf_of_replicasOf hpods
    rw [hpods]
    refine ⟨hb, ⟨fun e => iff_of_false nofun nofun, ?_, ?_⟩⟩
    · rintro _ _ ⟨⟩ ⟨⟩
      exact names_grouped _ _ _
    · rintro _ _ ⟨⟩ ⟨⟩
      exact ⟨covers_grouped events _, covers_grouped _ _⟩

/-- Reports tell of a deployment, its replicas and the events about them, and of nothing else; and a
look at the events that fails changes no verdict on a replica that is ready. -/
theorem reports_own (c : Config) (id : String) :
    (∀ b b' now now', Agree c id b.keys b'.keys →
      ((readiness c id).run.undisturbed now b).1 = ((readiness c id).run.undisturbed now' b').1 ∧
        ((terminations c id).run.undisturbed now b).1 =
          ((terminations c id).run.undisturbed now' b').1) ∧
    (∀ b d, c.deployments.Stored b.keys id d → OwnNames c id b.keys →
      ∀ now, TellsOfEach c id now b) ∧
    ∀ b past b' r, (readiness c id).run.Alone b past b' (.done r) → ¬LostOther c past →
      ∀ now, b' = b ∧
        SameForReady (podsOf c id b.keys) r ((readiness c id).run.undisturbed now b).1 := by
  refine ⟨fun b b' now now' agree => ?_, fun b d stored own => tellsOfEach stored own,
    fun b past b' r run answered => sameForReady_of_alone run answered⟩
  rw [undisturbed_readiness, undisturbed_readiness, undisturbed_terminations,
    undisturbed_terminations, agree.replicasOf_eq, agree.events]
  exact ⟨rfl, rfl⟩

end Reports

/-- A replica that is ready. -/
def readyPod : Pod where
  name := "a-0"
  deployment := "a"
  conditions := [.ofBool "Ready" true]
  containers := []

/-- A replica that ran out of memory. -/
def killedPod : Pod where
  name := "a-1"
  deployment := "a"
  conditions := []
  containers := [⟨"main", false, 1, some (some ⟨137, "OOMKilled", "", none, none⟩)⟩]

/-- A deployment that asks for two replicas. -/
def twofold : Deployment where
  id := "a"
  spec := ⟨"a", "m-9d3d52e5", { shape := "cpu.small", minReplicas := some 2 }, none, none, none⟩
  system := ⟨"i", "m", "", "", "", "", ""⟩
  status := ⟨.starting, ⟨"", ""⟩⟩
  createdAt := 0
  updatedAt := 0

/-- A store with a deployment, two replicas and an event about the second one. -/
def twoReplicas (c : Config) : KeyStore :=
  (((KeyStore.empty.write (c.deployments.key "a") (Kind.encode twofold)).write
    (c.pods.key "a-0") "[\"a-0\",\"a\",[[\"Ready\",\"True\"]]]".toUTF8).write
    (c.pods.key "a-1") "[\"a-1\",\"a\",[],[[\"main\",false,1,[[137,\"OOMKilled\"]]]]]".toUTF8).write
    (c.events.key "e") "[\"e\",\"a-1\",\"Warning\",\"BackOff\",\"\"]".toUTF8

/-- The same store beside a replica and an event of another deployment, and a value that is no
replica. -/
def amongOthers (c : Config) : KeyStore :=
  (((twoReplicas c).write (c.pods.key "b-0") "[\"b-0\",\"b\"]".toUTF8).write
    (c.pods.key "a-2") "[]".toUTF8).write
    (c.events.key "f") "[\"f\",\"b\",\"Warning\",\"BackOff\",\"\"]".toUTF8

/-- Reports on a deployment with two replicas, beside others, and with its events lost. -/
theorem reports_own_killedPod :
    let c : Config := { scope := "ns", name := "w", state := .normal }
    let b : Backend := ⟨twoReplicas c, .empty⟩
    let now : Timestamp := ⟨1970, 1, 1, 0, 0, 0, 0⟩
    ((readiness c "a").run.undisturbed now b).1 =
        ((readiness c "a").run.undisturbed now ⟨amongOthers c, .empty⟩).1 ∧
      TellsOfEach c "a" now b ∧ podsOf c "a" b.keys = [readyPod, killedPod] ∧
      ∃ past r, (readiness c "a").run.Alone b past b (.done r) ∧ (∃ m ∈ past, m.IsLost) ∧
        SameForReady [readyPod, killedPod] r ((readiness c "a").run.undisturbed now b).1 := by
  intro c b now
  obtain ⟨same, each, lost⟩ := reports_own c "a"
  have hstored : c.deployments.Stored b.keys "a" twofold.reread := by
    have hzero : (0 : Float).isFinite = true := by decide +kernel
    have hget : b.keys.get? (c.deployments.key "a") =
        (KeyStore.empty.write (c.deployments.key "a") (Kind.encode twofold)).get?
          (c.deployments.key "a") := by
      show (twoReplicas c).get? _ = _
      unfold twoReplicas
      rw [KeyStore.get?_write_of_ne (by decide +kernel),
        KeyStore.get?_write_of_ne (by decide +kernel),
        KeyStore.get?_write_of_ne (by decide +kernel)]
    have hstorable : Kind.Storable twofold := Deployment.storable ⟨hzero, hzero⟩
    have hwritten : c.deployments.Stored
        (KeyStore.empty.write (c.deployments.key "a") (Kind.encode twofold)) "a" twofold.reread :=
      (Repository.stored_write hstorable).2 rfl
    obtain ⟨e, he, hd⟩ := hwritten
    exact ⟨e, hget.trans he, hd⟩
  have hown : OwnNames c "a" b.keys := by
    have hall : ((b.keys.list c.pods.root).all fun e => (Kind.decode? (α := Pod) e.value).all
        fun p => e.key == c.pods.key p.name) = true := by decide +kernel
    rintro name p ⟨e, he, hp⟩ -
    have hkey : e.key = c.pods.key name := KeyStore.key_of_get? he
    have hmem : e ∈ b.keys.list c.pods.root :=
      KeyStore.mem_list.2 ⟨hkey ▸ he, KeyStore.isUnder_iff.2 ⟨name, hkey⟩⟩
    have hname := List.all_eq_true.1 hall e hmem
    rw [hp, hkey] at hname
    exact (c.pods.key_injective (beq_iff_eq.1 hname)).symm
  have hagree : Agree c "a" b.keys (amongOthers c) := by
    refine ⟨?_, by decide +kernel, by decide +kernel⟩
    unfold amongOthers
    rw [KeyStore.get?_write_of_ne (by decide +kernel),
      KeyStore.get?_write_of_ne (by decide +kernel), KeyStore.get?_write_of_ne (by decide +kernel)]
  have hpods : podsOf c "a" b.keys = [readyPod, killedPod] := by decide +kernel
  refine ⟨(same b ⟨amongOthers c, .empty⟩ now now hagree).1, each b _ hstored hown now, hpods, ?_⟩
  have hreplicas : replicasOf c "a" b.keys = .ok [readyPod, killedPod] := by
    rw [replicasOf, hstored.found_eq, hpods]
  obtain ⟨past, r, run, others, hlost⟩ := exists_alone_withoutEvents hreplicas
  rw [← hpods]
  exact ⟨past, r, run, hlost, (lost b past b r run others now).2⟩

end Service.Diagnosis

end Workplane
