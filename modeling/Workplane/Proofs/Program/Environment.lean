import Workplane.Proofs.Program.Moves
import Workplane.Service.Basic

/-!
# Programs in an environment

An environment decides how calls are answered.  It has states; it says which steps a program may
take in a state (`permits`) and how a step may go (`allows`).  A program is correct from a state
(`Program.Holds`) when every step that it can come to is permitted, and every result that it can
end with satisfies a postcondition, however the environment answers.  The rules below follow the
way programs are put together, so that a program is verified by walking through its text.

Correctness is kept by every step (`Program.Holds.step`), so what it promises holds in each run
and at each moment of a run, also when other programs run at the same time.
-/

namespace Workplane

/-- What a program may do, and how its steps may go. -/
structure Environment (σ : Type) where
  /-- A call may be made, or with `none`, the clock may be looked at. -/
  permits : σ → Option Call → Prop
  /-- A move may be made and lead to another state. -/
  allows : σ → Move → σ → Prop

namespace Program

variable {σ α β : Type} {env : Environment σ} {post : α → σ → Prop} {s s' : σ}

/-- From state `s` on, the program takes only permitted steps and ends only with results that
satisfy `post`. -/
def Holds (env : Environment σ) (post : α → σ → Prop) : Program α → σ → Prop
  | done a, s => post a s
  | call c _ next, s =>
    env.permits s (some c) ∧
      ∀ reply s', env.allows s (.call c reply) s' → (next reply).Holds env post s'
  | clock next, s =>
    env.permits s none ∧ ∀ now s', env.allows s (.clock now) s' → (next now).Holds env post s'

theorem holds_pure {a : α} : (pure a : Program α).Holds env post s ↔ post a s := Iff.rfl

/-- What a program establishes may be weakened. -/
theorem Holds.mono {post' : α → σ → Prop} {p : Program α} (h : p.Holds env post s)
    (hpost : ∀ a s', post a s' → post' a s') : p.Holds env post' s := by
  induction p generalizing s with
  | done a => exact hpost a s h
  | call c limit next ih => exact ⟨h.1, fun reply s' hs => ih reply (h.2 reply s' hs)⟩
  | clock next ih => exact ⟨h.1, fun now s' hs => ih now (h.2 now s' hs)⟩

theorem holds_bind {post : β → σ → Prop} {p : Program α} {f : α → Program β} :
    (p >>= f).Holds env post s ↔ p.Holds env (fun a s' => (f a).Holds env post s') s := by
  induction p generalizing s with
  | done a => exact Iff.rfl
  | call c limit next ih =>
    exact and_congr_right fun _ => forall_congr' fun reply => forall₂_congr fun _ _ => ih reply
  | clock next ih =>
    exact and_congr_right fun _ => forall_congr' fun now => forall₂_congr fun _ _ => ih now

theorem holds_map {post : β → σ → Prop} {p : Program α} {f : α → β} :
    (f <$> p).Holds env post s ↔ p.Holds env (fun a s' => post (f a) s') s := by
  rw [map_eq_pure_bind, holds_bind]
  exact Iff.rfl

theorem holds_now {post : Timestamp → σ → Prop} :
    Program.now.Holds env post s ↔
      env.permits s none ∧ ∀ t s', env.allows s (.clock t) s' → post t s' :=
  Iff.rfl

/-! ### Steps -/

/-- A program makes a move and goes on. -/
inductive Step : Program α → Move → Program α → Prop
  | call (c : Call) (limit : Nat) (next : Reply c.Answer → Program α) (reply : Reply c.Answer) :
    Step (call c limit next) (.call c reply) (next reply)
  | clock (next : Timestamp → Program α) (now : Timestamp) :
    Step (clock next) (.clock now) (next now)

/-- A step of a correct program is permitted. -/
theorem Holds.permits {p q : Program α} {m : Move} (h : p.Holds env post s) (hstep : p.Step m q) :
    env.permits s m.request := by
  cases hstep with
  | call c limit next reply => exact h.1
  | clock next now => exact h.1

/-- What is left of a correct program after a step is correct. -/
theorem Holds.step {p q : Program α} {m : Move} (h : p.Holds env post s) (hstep : p.Step m q)
    (hs : env.allows s m s') : q.Holds env post s' := by
  cases hstep with
  | call c limit next reply => exact h.2 reply s' hs
  | clock next now => exact h.2 now s' hs

end Program

/-! ### Programs that may fail -/

section Ensures

variable {σ α β ε ε' : Type} {env : Environment σ} {ok : α → σ → Prop} {err : ε → σ → Prop} {s : σ}

/-- From state `s` on, the program takes only permitted steps, ends only with results that
satisfy `ok`, and fails only with errors that satisfy `err`. -/
def Ensures (env : Environment σ) (ok : α → σ → Prop) (err : ε → σ → Prop)
    (p : ExceptT ε Program α) (s : σ) : Prop :=
  p.run.Holds env (fun r s' => Except.casesOn r (err · s') (ok · s')) s

theorem Ensures.mono {ok' : α → σ → Prop} {err' : ε → σ → Prop} {p : ExceptT ε Program α}
    (h : Ensures env ok err p s) (hok : ∀ a s', ok a s' → ok' a s')
    (herr : ∀ e s', err e s' → err' e s') : Ensures env ok' err' p s :=
  Program.Holds.mono h fun r s' => match r with
    | .ok a => hok a s'
    | .error e => herr e s'

theorem ensures_pure {a : α} : Ensures env ok err (pure a : ExceptT ε Program α) s ↔ ok a s :=
  Iff.rfl

theorem ensures_throw {e : ε} : Ensures env ok err (throw e : ExceptT ε Program α) s ↔ err e s :=
  Iff.rfl

/-- A sequence fails in either part, and goes on only from a result. -/
theorem ensures_bind {ok : β → σ → Prop} {p : ExceptT ε Program α}
    {f : α → ExceptT ε Program β} :
    Ensures env ok err (p >>= f) s ↔
      Ensures env (fun a s' => Ensures env ok err (f a) s') err p s := by
  unfold Ensures
  rw [ExceptT.run_bind, Program.holds_bind]
  constructor <;> refine fun h => h.mono fun r s' hr => ?_
  · cases r with
    | ok a => exact hr
    | error e => exact hr
  · cases r with
    | ok a => exact hr
    | error e => exact hr

theorem ensures_map {ok : β → σ → Prop} {p : ExceptT ε Program α} {f : α → β} :
    Ensures env ok err (f <$> p) s ↔ Ensures env (fun a s' => ok (f a) s') err p s := by
  rw [map_eq_pure_bind, ensures_bind]
  exact Iff.rfl

/-- A handler takes over where a program fails. -/
theorem ensures_tryCatch {p : ExceptT ε Program α} {handle : ε → ExceptT ε Program α} :
    Ensures env ok err (tryCatch p handle) s ↔
      Ensures env ok (fun e s' => Ensures env ok err (handle e) s') p s := by
  unfold Ensures
  show (ExceptT.run (ExceptT.tryCatch p handle)).Holds env _ s ↔ _
  unfold ExceptT.tryCatch
  show (p.run >>= _).Holds env _ s ↔ _
  rw [Program.holds_bind]
  constructor <;> refine fun h => h.mono fun r s' hr => ?_
  · cases r with
    | ok a => exact hr
    | error e => exact hr
  · cases r with
    | ok a => exact hr
    | error e => exact hr

theorem ensures_lift {p : Program α} :
    Ensures env ok err (monadLift p : ExceptT ε Program α) s ↔ p.Holds env ok s := by
  show (Except.ok <$> p).Holds env _ s ↔ _
  rw [Program.holds_map]

theorem ensures_adapt {p : ExceptT ε Program α} {f : ε → ε'} {err : ε' → σ → Prop} :
    Ensures env ok err (ExceptT.adapt f p) s ↔ Ensures env ok (fun e s' => err (f e) s') p s := by
  unfold Ensures
  show (Except.mapError f <$> p.run).Holds env _ s ↔ _
  rw [Program.holds_map]
  constructor <;> refine fun h => h.mono fun r s' hr => ?_
  · cases r with
    | ok a => exact hr
    | error e => exact hr
  · cases r with
    | ok a => exact hr
    | error e => exact hr

end Ensures

end Workplane
