import Workplane.Capacity.Quota
import Workplane.Proofs.Objects.Deployments

/-!
# Quotas read back
-/

namespace Workplane

open Reader

namespace Resources

/-- The doubles are finite. -/
structure InRange (r : Resources) : Prop where
  cpu : r.cpu.isFinite = true
  accelerators : r.accelerators.isFinite = true

/-- The resources that stored resources are read as. -/
def reread (r : Resources) : Resources :=
  { r with cpu := Double.reread r.cpu, accelerators := Double.reread r.accelerators }

theorem InRange.reread {r : Resources} (h : r.InRange) : r.reread.InRange :=
  ⟨Double.isFinite_reread h.cpu, Double.isFinite_reread h.accelerators⟩

theorem reader_toJson (r : Resources) (room : Nat) :
    Resources.reader (room + 1) r.toJson = some r := by
  rw [Resources.reader, Resources.toJson, members_object room (by simp) (by simp)]
  generalize hm : (⟨false, room, _⟩ : Members) = m
  have hcpu : m.withDefault "cpu" 0 float = some r.cpu := by
    rw [← hm]
    rfl
  have hmemory : m.withDefault "memory" 0 int64 = some r.memory := by
    rw [← hm]
    exact int64_toInt r.memory room
  have haccelerators : m.withDefault "accelerator_num" 0 float = some r.accelerators := by
    rw [← hm]
    rfl
  simp only [Option.bind_eq_bind, Option.bind_some, hcpu, hmemory, haccelerators]
  rfl

theorem inRange_of_reader {room : Nat} {j : Json} {r : Resources} (hj : j.InRange)
    (h : Resources.reader room j = some r) : r.InRange := by
  obtain ⟨m, hm, h⟩ := Option.bind_eq_some_iff.1 h
  obtain ⟨cpu, hcpu, h⟩ := Option.bind_eq_some_iff.1 h
  obtain ⟨memory, -, h⟩ := Option.bind_eq_some_iff.1 h
  obtain ⟨accelerators, haccelerators, h⟩ := Option.bind_eq_some_iff.1 h
  obtain rfl := Option.some.inj h
  have hm' := inRange_members hj hm
  exact ⟨isFinite_of_withDefault hm' hcpu, isFinite_of_withDefault hm' haccelerators⟩

theorem toJson_reread {r : Resources} (h : r.InRange) : r.toJson.reread = r.reread.toJson := by
  show Json.object [("cpu", (Json.float r.cpu).reread),
    ("memory", (Json.int r.memory.toInt).reread),
    ("accelerator_num", (Json.float r.accelerators).reread)] = _
  have hcpu : (Json.float r.cpu).reread = .float (Double.reread r.cpu) := Number.reread_float h.cpu
  have haccelerators : (Json.float r.accelerators).reread =
      .float (Double.reread r.accelerators) := Number.reread_float h.accelerators
  rw [hcpu, haccelerators, Json.reread_int64]
  rfl

end Resources

namespace Quota

/-- The doubles on both sides are finite. -/
structure InRange (q : Quota) : Prop where
  hard : q.hard.InRange
  used : q.used.InRange

/-- The quota that a stored quota is read as. -/
def reread (q : Quota) : Quota :=
  { q with hard := q.hard.reread, used := q.used.reread }

theorem reader_toJson (q : Quota) (room : Nat) : Quota.reader (room + 2) q.toJson = some q := by
  rw [Quota.reader, Quota.toJson, members_object (room + 1) (by simp) (by simp)]
  generalize hm : (⟨false, room + 1, _⟩ : Members) = m
  have hname : m.required "name" text = some q.name := by
    rw [← hm]
    rfl
  have hhard : m.required "hard" Resources.reader = some q.hard := by
    rw [← hm]
    exact q.hard.reader_toJson room
  have hused : m.withDefault "used" .zero Resources.reader = some q.used := by
    rw [← hm]
    exact q.used.reader_toJson room
  simp only [Option.bind_eq_bind, Option.bind_some, hname, hhard, hused]
  rfl

theorem inRange_of_reader {room : Nat} {j : Json} {q : Quota} (hj : j.InRange)
    (h : Quota.reader room j = some q) : q.InRange := by
  obtain ⟨m, hm, h⟩ := Option.bind_eq_some_iff.1 h
  obtain ⟨name, -, h⟩ := Option.bind_eq_some_iff.1 h
  obtain ⟨hard, hhard, h⟩ := Option.bind_eq_some_iff.1 h
  obtain ⟨used, hused, h⟩ := Option.bind_eq_some_iff.1 h
  obtain rfl := Option.some.inj h
  have hm' := inRange_members hj hm
  constructor
  · obtain ⟨k, hk, hread⟩ := Members.exists_of_required hhard
    exact Resources.inRange_of_reader (hm' _ hk) hread
  · obtain rfl | ⟨k, hk, hread⟩ := Members.of_withDefault hused
    · have hzero : (0 : Float).isFinite = true := by decide +kernel
      exact ⟨hzero, hzero⟩
    · exact Resources.inRange_of_reader (hm' _ hk) hread

theorem toJson_reread {q : Quota} (h : q.InRange) : q.toJson.reread = q.reread.toJson := by
  show Json.object [("name", .string q.name), ("hard", q.hard.toJson.reread),
    ("used", q.used.toJson.reread)] = _
  rw [Resources.toJson_reread h.hard, Resources.toJson_reread h.used]
  rfl

theorem reader_toJson_of_le (q : Quota) {room : Nat} (hroom : 8 ≤ room) :
    Quota.reader room q.toJson = some q := by
  obtain ⟨room, rfl⟩ : ∃ r, room = r + 2 := ⟨room - 2, by omega⟩
  exact q.reader_toJson room

instance : Kind.Lawful Quota where
  reread := reread
  InRange := InRange
  toJson_reread := toJson_reread
  inRange_reread h := ⟨h.hard.reread, h.used.reread⟩
  objectName_reread _ := rfl
  inRange_of_reader := inRange_of_reader
  reader_toJson hroom _ _ := reader_toJson_of_le _ hroom
  reader_reread hroom _ _ := reader_toJson_of_le _ hroom
  eq_of_reader hroom _ h := Option.some.inj (h.symm.trans (reader_toJson_of_le _ hroom))

end Quota

end Workplane
