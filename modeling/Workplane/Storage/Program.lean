import Workplane.Storage.BlobMap
import Workplane.Storage.KeyStore
import Workplane.Time.Timestamp

/-!
# Programs over a storage backend

A program is the tree of the calls that an operation makes to its backend: each call comes with
a limit on the time it may take, and what follows depends on how the call ended.  Whether calls
fail, hang or race with other programs is up to the one who runs the program;
`Call.answer` says what a call does when nothing goes wrong.
-/

namespace Workplane

-- Byte arrays are compared by core's instance, whatever is in scope beside this module.
attribute [local instance (high)] ByteArray.instDecidableEq

/-! ### Calls -/

/-- A single call to the storage backend. -/
inductive Call where
  | get (key : String)
  /-- The entries whose key starts with a text. -/
  | list (start : String)
  | swap (key : String) (expected : UInt64) (value : ByteArray)
  | delete (key : String)
  | putBlob (key : String) (data : ByteArray)
  | getBlob (key : String)
  deriving DecidableEq

/-- What a call answers. -/
abbrev Call.Answer : Call → Type
  | get _ => Option Entry
  | list _ => List Entry
  | swap .. => Swap
  | delete _ => Bool
  | putBlob .. => Unit
  | getBlob _ => Option ByteArray

/-- The stored data of a control plane. -/
structure Backend where
  keys : KeyStore
  blobs : BlobMap

/-- The backend that nothing was ever written to. -/
def Backend.empty : Backend := ⟨.empty, .empty⟩

/-- The answer of a call that nothing disturbs, and the backend after it. -/
def Call.answer : (c : Call) → Backend → c.Answer × Backend
  | get key, b => (b.keys.get? key, b)
  | list start, b => (b.keys.list start, b)
  | swap key expected value, b =>
    let (result, keys) := b.keys.compareAndSwap key expected value
    (result, { b with keys })
  | delete key, b =>
    let (existed, keys) := b.keys.delete key
    (existed, { b with keys })
  | putBlob key data, b => ((), { b with blobs := b.blobs.put key data })
  | getBlob key, b => (b.blobs.get? key, b)

/-- How a call ended. -/
inductive Outcome (α : Type) where
  | answered (answer : α)
  /-- The causes stand from the outermost to the innermost. -/
  | failed (causes : List String)
  /-- There was no answer within the limit. -/
  | gaveUp

/-- How a call ended, and how many milliseconds it took. -/
structure Reply (α : Type) where
  outcome : Outcome α
  took : Nat

/-! ### Programs -/

/-- A tree of calls with a result of type `α` at every leaf. -/
inductive Program (α : Type) where
  | done (result : α)
  /-- A call that is given up after `limit` milliseconds. -/
  | call (c : Call) (limit : Nat) (next : Reply c.Answer → Program α)
  /-- A look at the clock. -/
  | clock (next : Timestamp → Program α)

namespace Program

/-- One program after another. -/
def bind (p : Program α) (f : α → Program β) : Program β :=
  match p with
  | done a => f a
  | call c limit next => call c limit fun reply => (next reply).bind f
  | clock next => clock fun now => (next now).bind f

instance : Monad Program where
  pure := done
  bind := bind

theorem done_bind (a : α) (f : α → Program β) : done a >>= f = f a := rfl

theorem call_bind (c : Call) (limit : Nat) (next : Reply c.Answer → Program α)
    (f : α → Program β) : call c limit next >>= f = call c limit fun reply => next reply >>= f :=
  rfl

theorem clock_bind (next : Timestamp → Program α) (f : α → Program β) :
    clock next >>= f = clock fun now => next now >>= f := rfl

theorem bind_done (p : Program α) : p >>= done = p := by
  induction p with
  | done a => rfl
  | call c limit next ih => simp only [call_bind, ih]
  | clock next ih => simp only [clock_bind, ih]

theorem bind_assoc (p : Program α) (f : α → Program β) (g : β → Program γ) :
    p >>= f >>= g = p >>= fun a => f a >>= g := by
  induction p with
  | done a => rfl
  | call c limit next ih => simp only [call_bind, ih]
  | clock next ih => simp only [clock_bind, ih]

instance : LawfulMonad Program := LawfulMonad.mk'
  Program
  bind_done
  (fun _ _ => rfl)
  bind_assoc

/-- The current time. -/
def now : Program Timestamp :=
  clock done

/-- A program that is given up as a whole after `budget` milliseconds, with `none` as its result
then.  A call whose own limit ends at the same moment as the budget is given up on its own. -/
def within (budget : Nat) : Program α → Program (Option α)
  | done a => done (some a)
  | clock next => clock fun now => (next now).within budget
  | call c limit next => call c (min limit budget) fun reply =>
    match reply.outcome with
    -- The call's own limit or the budget ran out, whichever is smaller.
    | .gaveUp => if limit ≤ budget then (next reply).within (budget - reply.took) else done none
    | _ => (next reply).within (budget - reply.took)

end Program

end Workplane
