import Workplane.Proofs.Objects.Records
import Workplane.Proofs.Time.Readings
import Workplane.Replica.Pod

/-!
# Pods and events read back

A pod and an event are read from their documents as long as their times are moments, and whatever
was read has such times (`Pod.isTimed_of_reader`, `Event.isTimed_of_reader`).
-/

namespace Workplane

open Reader

/-! ### Conditions and containers -/

/-- A time that is there is a moment. -/
def Timestamp.IsMomentIfAny (t : Option Timestamp) : Prop :=
  ∀ t', t = some t' → t'.IsMoment

open Timestamp (IsMomentIfAny)

/-- A timestamp that was read is a moment. -/
theorem Timestamp.isMomentIfAny_of_omittable {m : Members} {name : String} {t : Option Timestamp}
    (h : m.omittable name Timestamp.reader = some t) : IsMomentIfAny t := by
  rintro t rfl
  obtain ⟨j, -, hread⟩ := Members.exists_of_omittable h
  exact Timestamp.isMoment_of_reader hread

/-- A time that may be left out is read back. -/
theorem Timestamp.omittable_reader {m : Members} {name : String} {t : Option Timestamp}
    (h : IsMomentIfAny t) (hfound : m.found.lookup name = t.map Timestamp.toJson) :
    m.omittable name Timestamp.reader = some t := by
  refine Members.omittable_map Timestamp.toJson hfound fun t' ht' => ?_
  show (Timestamp.reader m.room t'.toJson).map some = _
  rw [Timestamp.reader_toJson (h t' ht')]
  rfl

theorem Condition.reader_toJson (c : Condition) (room : Nat) :
    Condition.reader (room + 1) c.toJson = some c := by
  obtain ⟨type, status, reason, message⟩ := c
  rw [Condition.reader, Condition.toJson]
  cases reason <;> cases message <;>
    rw [members_object room (by simp [Json.optional]) (by simp [Json.optional])] <;> rfl

theorem Condition.toJson_reread (c : Condition) : c.toJson.reread = c.toJson := by
  obtain ⟨type, status, reason, message⟩ := c
  cases reason <;> cases message <;> rfl

namespace ContainerEnd

/-- The times of the end are moments. -/
structure IsTimed (e : ContainerEnd) : Prop where
  startedAt : IsMomentIfAny e.startedAt
  finishedAt : IsMomentIfAny e.finishedAt

theorem reader_toJson {e : ContainerEnd} (h : e.IsTimed) (room : Nat) :
    ContainerEnd.reader (room + 1) e.toJson = some e := by
  obtain ⟨hstarted, hfinished⟩ := h
  obtain ⟨exitCode, reason, message, startedAt, finishedAt⟩ := e
  rw [ContainerEnd.reader, ContainerEnd.toJson, members_object room]
  · generalize hm : (⟨false, room, _⟩ : Members) = m
    have hcode : m.required "exit_code" int32 = some exitCode := by
      rw [← hm]
      exact int32_toInt exitCode room
    have hreason : m.withDefault "reason" "" text = some reason := by
      rw [← hm]
      rfl
    have hmessage : m.withDefault "message" "" text = some message := by
      rw [← hm]
      rfl
    have hstart : m.omittable "started_at" Timestamp.reader = some startedAt := by
      refine Timestamp.omittable_reader hstarted ?_
      rw [← hm]
      cases startedAt <;> cases finishedAt <;> rfl
    have hfinish : m.omittable "finished_at" Timestamp.reader = some finishedAt := by
      refine Timestamp.omittable_reader hfinished ?_
      rw [← hm]
      cases startedAt <;> cases finishedAt <;> rfl
    simp only [Option.bind_eq_bind, Option.bind_some, hcode, hreason, hmessage, hstart, hfinish]
    rfl
  · cases startedAt <;> cases finishedAt <;> simp [Json.optional]
  · cases startedAt <;> cases finishedAt <;> simp [Json.optional]

/-- The state of a container is read back, with an end or without one. -/
theorem stateReader_stateJson {state : Option ContainerEnd} (h : ∀ e, state = some e → e.IsTimed)
    (room : Nat) : stateReader (room + 2) (stateJson state) = some state := by
  rw [stateReader, stateJson, members_object (room + 1)]
  · show Members.omittable _ "terminated" ContainerEnd.reader = _
    refine Members.omittable_map ContainerEnd.toJson ?_ fun e he => ?_
    · cases state <;> rfl
    · show (ContainerEnd.reader (room + 1) e.toJson).map some = _
      rw [reader_toJson (h e he)]
      rfl
  · cases state <;> simp [Json.optional]
  · cases state <;> simp [Json.optional]

theorem isTimed_of_reader {room : Nat} {j : Json} {e : ContainerEnd}
    (h : ContainerEnd.reader room j = some e) : e.IsTimed := by
  obtain ⟨m, -, h⟩ := Option.bind_eq_some_iff.1 h
  obtain ⟨exitCode, -, h⟩ := Option.bind_eq_some_iff.1 h
  obtain ⟨reason, -, h⟩ := Option.bind_eq_some_iff.1 h
  obtain ⟨message, -, h⟩ := Option.bind_eq_some_iff.1 h
  obtain ⟨startedAt, hstarted, h⟩ := Option.bind_eq_some_iff.1 h
  obtain ⟨finishedAt, hfinished, h⟩ := Option.bind_eq_some_iff.1 h
  obtain rfl := Option.some.inj h
  exact ⟨Timestamp.isMomentIfAny_of_omittable hstarted,
    Timestamp.isMomentIfAny_of_omittable hfinished⟩

theorem toJson_reread (e : ContainerEnd) : e.toJson.reread = e.toJson := by
  have hcode := Json.reread_int32 e.exitCode
  obtain ⟨exitCode, reason, message, startedAt, finishedAt⟩ := e
  unfold toJson
  simp only at hcode
  cases startedAt <;> cases finishedAt <;>
    simp [Json.reread, Json.rereadMembers, Json.optional, Timestamp.toJson, hcode]

end ContainerEnd

namespace ContainerStatus

/-- The times of the last end are moments. -/
def IsTimed (s : ContainerStatus) : Prop :=
  ∀ e, s.lastEnd = some e → e.IsTimed

theorem reader_toJson {s : ContainerStatus} (h : s.IsTimed) (room : Nat) :
    ContainerStatus.reader (room + 3) s.toJson = some s := by
  obtain ⟨name, ready, restartCount, lastState⟩ := s
  rw [ContainerStatus.reader, ContainerStatus.toJson, members_object (room + 2)]
  · generalize hm : (⟨false, room + 2, _⟩ : Members) = m
    have hroom : m.room = room + 2 := by rw [← hm]
    have hname : m.required "name" text = some name := by
      rw [← hm]
      rfl
    have hready : m.withDefault "ready" false bool = some ready := by
      rw [← hm]
      rfl
    have hcount : m.withDefault "restart_count" 0 uint32 = some restartCount := by
      rw [← hm]
      exact uint32_toNat restartCount (room + 2)
    have hstate : m.omittable "last_state" ContainerEnd.stateReader = some lastState := by
      refine Members.omittable_map ContainerEnd.stateJson ?_ fun state hstate => ?_
      · rw [← hm]
        cases lastState <;> rfl
      · have hends : ∀ e, state = some e → e.IsTimed := fun e he => h e (by
          show lastState.join = some e
          rw [hstate, he]
          rfl)
        show (ContainerEnd.stateReader m.room (ContainerEnd.stateJson state)).map some = _
        rw [hroom, ContainerEnd.stateReader_stateJson hends]
        rfl
    simp only [Option.bind_eq_bind, Option.bind_some, hname, hready, hcount, hstate]
    rfl
  · cases lastState <;> simp [Json.optional]
  · cases lastState <;> simp [Json.optional]

theorem isTimed_of_reader {room : Nat} {j : Json} {s : ContainerStatus}
    (h : ContainerStatus.reader room j = some s) : s.IsTimed := by
  obtain ⟨m, -, h⟩ := Option.bind_eq_some_iff.1 h
  obtain ⟨name, -, h⟩ := Option.bind_eq_some_iff.1 h
  obtain ⟨ready, -, h⟩ := Option.bind_eq_some_iff.1 h
  obtain ⟨restartCount, -, h⟩ := Option.bind_eq_some_iff.1 h
  obtain ⟨lastState, hstate, h⟩ := Option.bind_eq_some_iff.1 h
  obtain rfl := Option.some.inj h
  intro e he
  obtain rfl : lastState = some (some e) := Option.join_eq_some_iff.1 he
  obtain ⟨j, -, hread⟩ := Members.exists_of_omittable hstate
  obtain ⟨m', -, hread⟩ := Option.bind_eq_some_iff.1 hread
  obtain ⟨j', -, hread⟩ := Members.exists_of_omittable hread
  exact ContainerEnd.isTimed_of_reader hread

theorem toJson_reread (s : ContainerStatus) : s.toJson.reread = s.toJson := by
  have hcount : (Json.int s.restartCount.toNat).reread = .int s.restartCount.toNat :=
    Json.reread_natCast (s.restartCount.toNat_lt.trans (by decide))
  obtain ⟨name, ready, restartCount, lastState⟩ := s
  unfold toJson
  simp only at hcount
  rcases lastState with _ | _ | e <;>
    simp [Json.reread, Json.rereadMembers, Json.optional, ContainerEnd.stateJson,
      ContainerEnd.toJson_reread, hcount]

end ContainerStatus

/-! ### Pods -/

namespace Pod

/-- The times of the containers are moments. -/
def IsTimed (p : Pod) : Prop :=
  ∀ s ∈ p.containers, s.IsTimed

/-- A pod is read back from its own document. -/
theorem reader_toJson {p : Pod} (h : p.IsTimed) (room : Nat) :
    Pod.reader (room + 5) p.toJson = some p := by
  obtain ⟨name, deployment, conditions, containers⟩ := p
  rw [Pod.reader, Pod.toJson, members_object (room + 4) (by simp) (by simp)]
  generalize hm : (⟨false, room + 4, _⟩ : Members) = m
  have hname : m.required "name" text = some name := by
    rw [← hm]
    rfl
  have hdeployment : m.required "deployment" text = some deployment := by
    rw [← hm]
    rfl
  have hconditions : m.withDefault "conditions" [] (list Condition.reader) =
      some conditions := by
    rw [← hm]
    exact list_map (fun c => c.reader_toJson (room + 2)) conditions
  have hcontainers : m.withDefault "container_statuses" [] (list ContainerStatus.reader) =
      some containers := by
    rw [← hm]
    exact list_map_of_mem fun s hs => ContainerStatus.reader_toJson (h s hs) room
  simp only [Option.bind_eq_bind, Option.bind_some, hname, hdeployment, hconditions, hcontainers]
  rfl

/-- What was read of a pod has moments for timestamps. -/
theorem isTimed_of_reader {room : Nat} {j : Json} {p : Pod} (h : Pod.reader room j = some p) :
    p.IsTimed := by
  obtain ⟨m, -, h⟩ := Option.bind_eq_some_iff.1 h
  obtain ⟨name, -, h⟩ := Option.bind_eq_some_iff.1 h
  obtain ⟨deployment, -, h⟩ := Option.bind_eq_some_iff.1 h
  obtain ⟨conditions, -, h⟩ := Option.bind_eq_some_iff.1 h
  obtain ⟨containers, hcontainers, h⟩ := Option.bind_eq_some_iff.1 h
  obtain rfl := Option.some.inj h
  intro s hs
  obtain rfl | ⟨j, -, hread⟩ := Members.of_withDefault hcontainers
  · exact absurd hs List.not_mem_nil
  · obtain ⟨room', k, hk⟩ := exists_of_list hread hs
    exact ContainerStatus.isTimed_of_reader hk

theorem toJson_reread (p : Pod) : p.toJson.reread = p.toJson := by
  have hconditions := Json.array_map_reread Condition.toJson_reread p.conditions
  have hcontainers := Json.array_map_reread ContainerStatus.toJson_reread p.containers
  show Json.object [("name", .string p.name), ("deployment", .string p.deployment),
    ("conditions", Json.reread _), ("container_statuses", Json.reread _)] = _
  rw [hconditions, hcontainers]
  rfl

theorem reader_toJson_of_le {p : Pod} {room : Nat} (hroom : 8 ≤ room) (h : p.IsTimed) :
    Pod.reader room p.toJson = some p := by
  obtain ⟨room, rfl⟩ : ∃ r, room = r + 5 := ⟨room - 5, by omega⟩
  exact reader_toJson h room

/-- At any depth that suffices, the same pod is read. -/
theorem eq_of_reader {p q : Pod} {room room' : Nat} (hroom : 8 ≤ room')
    (hp : Pod.reader room p.toJson = some p) (hq : Pod.reader room' p.toJson = some q) : q = p :=
  Option.some.inj (hq.symm.trans (reader_toJson_of_le hroom (isTimed_of_reader hp)))

instance : Kind.Lawful Pod where
  reread p := p
  InRange := IsTimed
  toJson_reread {p} _ := p.toJson_reread
  inRange_reread h := h
  objectName_reread _ := rfl
  inRange_of_reader _ h := isTimed_of_reader h
  reader_toJson hroom _ h := reader_toJson_of_le hroom (isTimed_of_reader h)
  reader_reread _ _ h := h
  eq_of_reader := eq_of_reader

end Pod

/-! ### Events -/

namespace Event

/-- The times of the event are moments. -/
structure IsTimed (e : Event) : Prop where
  eventTime : IsMomentIfAny e.eventTime
  lastTimestamp : IsMomentIfAny e.lastTimestamp

theorem reader_toJson {e : Event} (h : e.IsTimed) (room : Nat) :
    Event.reader (room + 1) e.toJson = some e := by
  obtain ⟨hevent, hlast⟩ := h
  obtain ⟨name, regarding, type, reason, note, eventTime, lastTimestamp⟩ := e
  rw [Event.reader, Event.toJson, members_object room]
  · generalize hm : (⟨false, room, _⟩ : Members) = m
    have hname : m.required "name" text = some name := by
      rw [← hm]
      rfl
    have hregarding : m.required "regarding" text = some regarding := by
      rw [← hm]
      rfl
    have htype : m.withDefault "type" "" text = some type := by
      rw [← hm]
      rfl
    have hreason : m.withDefault "reason" "" text = some reason := by
      rw [← hm]
      rfl
    have hnote : m.withDefault "note" "" text = some note := by
      rw [← hm]
      rfl
    have htime : m.omittable "event_time" Timestamp.reader = some eventTime := by
      refine Timestamp.omittable_reader hevent ?_
      rw [← hm]
      cases eventTime <;> cases lastTimestamp <;> rfl
    have hstamp : m.omittable "deprecated_last_timestamp" Timestamp.reader =
        some lastTimestamp := by
      refine Timestamp.omittable_reader hlast ?_
      rw [← hm]
      cases eventTime <;> cases lastTimestamp <;> rfl
    simp only [Option.bind_eq_bind, Option.bind_some, hname, hregarding, htype, hreason, hnote,
      htime, hstamp]
    rfl
  · cases eventTime <;> cases lastTimestamp <;> simp [Json.optional]
  · cases eventTime <;> cases lastTimestamp <;> simp [Json.optional]

theorem isTimed_of_reader {room : Nat} {j : Json} {e : Event} (h : Event.reader room j = some e) :
    e.IsTimed := by
  obtain ⟨m, -, h⟩ := Option.bind_eq_some_iff.1 h
  obtain ⟨name, -, h⟩ := Option.bind_eq_some_iff.1 h
  obtain ⟨regarding, -, h⟩ := Option.bind_eq_some_iff.1 h
  obtain ⟨type, -, h⟩ := Option.bind_eq_some_iff.1 h
  obtain ⟨reason, -, h⟩ := Option.bind_eq_some_iff.1 h
  obtain ⟨note, -, h⟩ := Option.bind_eq_some_iff.1 h
  obtain ⟨eventTime, hevent, h⟩ := Option.bind_eq_some_iff.1 h
  obtain ⟨lastTimestamp, hlast, h⟩ := Option.bind_eq_some_iff.1 h
  obtain rfl := Option.some.inj h
  exact ⟨Timestamp.isMomentIfAny_of_omittable hevent, Timestamp.isMomentIfAny_of_omittable hlast⟩

theorem toJson_reread (e : Event) : e.toJson.reread = e.toJson := by
  obtain ⟨name, regarding, type, reason, note, eventTime, lastTimestamp⟩ := e
  cases eventTime <;> cases lastTimestamp <;> rfl

theorem reader_toJson_of_le {e : Event} {room : Nat} (hroom : 8 ≤ room) (h : e.IsTimed) :
    Event.reader room e.toJson = some e := by
  obtain ⟨room, rfl⟩ : ∃ r, room = r + 1 := ⟨room - 1, by omega⟩
  exact reader_toJson h room

theorem eq_of_reader {e e' : Event} {room room' : Nat} (hroom : 8 ≤ room')
    (he : Event.reader room e.toJson = some e) (he' : Event.reader room' e.toJson = some e') :
    e' = e :=
  Option.some.inj (he'.symm.trans (reader_toJson_of_le hroom (isTimed_of_reader he)))

instance : Kind.Lawful Event where
  reread e := e
  InRange := IsTimed
  toJson_reread {e} _ := e.toJson_reread
  inRange_reread h := h
  objectName_reread _ := rfl
  inRange_of_reader _ h := isTimed_of_reader h
  reader_toJson hroom _ h := reader_toJson_of_le hroom (isTimed_of_reader h)
  reader_reread _ _ h := h
  eq_of_reader := eq_of_reader

end Event

end Workplane
