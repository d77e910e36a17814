import Workplane.Storage.Program

/-!
# Faults

A fault makes certain calls fail, hang, or lose a race against another writer.  Faults stand in a
list; the first one that concerns a call, has not been used up and lets no more calls pass decides
what happens to the call.
-/

namespace Workplane.Simulation

/-- What a call is about, apart from its key and data. -/
inductive CallKind where
  | get
  | list
  | swap
  | delete
  | putBlob
  | getBlob
  deriving DecidableEq, Repr

/-- The kind of a call. -/
def kindOf : Call → CallKind
  | .get _ => .get
  | .list _ => .list
  | .swap .. => .swap
  | .delete _ => .delete
  | .putBlob .. => .putBlob
  | .getBlob _ => .getBlob

/-- The key of a call, or what the keys of its answer start with. -/
def keyOf : Call → String
  | .get key | .list key | .swap key _ _ | .delete key | .putBlob key _ | .getBlob key => key

/-- What happens to a call. -/
inductive Effect where
  /-- The call fails without doing anything. -/
  | failure (causes : List String)
  /-- The call never ends and does nothing. -/
  | hang
  /-- Right after the call has read its key, the key is written. -/
  | overwritten (value : ByteArray)
  /-- Right after the call has read its key, the key is written with the value it had. -/
  | touched
  /-- Right after the call, every key that it found is deleted. -/
  | removed

/-- An effect on calls of one kind whose keys have a certain end. -/
structure Fault where
  kind : CallKind
  suffix : String
  /-- How many calls it still lets pass. -/
  skip : Nat
  /-- How many calls it still has its effect on; all of them if `none`. -/
  times : Option Nat
  effect : Effect

namespace Fault

/-- The fault concerns a call and has not been used up. -/
def concerns (f : Fault) (c : Call) : Bool :=
  f.kind == kindOf c && f.suffix.toList.isSuffixOf (keyOf c).toList && f.times != some 0

/-- The effect on a call, if there is one, and the faults after the call. -/
def apply (c : Call) : List Fault → Option Effect × List Fault
  | [] => (none, [])
  | f :: rest =>
    if !f.concerns c then
      let (effect, rest) := apply c rest
      (effect, f :: rest)
    else if 0 < f.skip then
      let (effect, rest) := apply c rest
      (effect, { f with skip := f.skip - 1 } :: rest)
    else (some f.effect, { f with times := f.times.map (· - 1) } :: rest)

end Fault

/-- The keys that the answer of a call shows. -/
def keysFound : (c : Call) → c.Answer → List String
  | .get _, entry => (entry.map Entry.key).toList
  | .list _, entries => entries.map Entry.key
  | _, _ => []

/-- What another writer does to the store right after a call with the given answer. -/
def Effect.race (effect : Effect) (c : Call) (answer : c.Answer) (s : KeyStore) : KeyStore :=
  match effect, c, answer with
  | .overwritten value, .get key, _ => s.write key value
  | .touched, .get key, some entry => s.write key entry.value
  | .removed, c, answer => (keysFound c answer).foldl (fun s key => (s.delete key).2) s
  | _, _, _ => s

end Workplane.Simulation
