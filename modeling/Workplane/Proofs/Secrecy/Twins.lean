import Workplane.Proofs.Program.Endings
import Workplane.Proofs.Secrecy.Stores

/-!
# Twin programs

Programs are twins (`Program.Twins`) if they make calls that are alike as long as they are told what
is alike, and end with related results; what they see on the clock does not matter.  The rules below
follow the way programs are put together.  Twins that run on stores that are alike, with the same
calls failing, end with related results and leave stores that are alike (`Program.Twins.ends`).
-/

namespace Workplane

open Workspace (Config)

variable {α α' β β' ε ε' : Type} {c : Config}

/-! ### Twins -/

/-- Calls that ended in the same way, with related answers if they were answered. -/
inductive Outcome.Rel (R : α → α' → Prop) : Outcome α → Outcome α' → Prop
  | answered {a : α} {a' : α'} (related : R a a') : Rel R (.answered a) (.answered a')
  | failed (causes : List String) : Rel R (.failed causes) (.failed causes)
  | gaveUp : Rel R .gaveUp .gaveUp

namespace Program

/-- Programs that make the same calls, up to values, and end with related results. -/
inductive Twins (c : Config) {α α' : Type} (R : α → α' → Prop) : Program α → Program α' → Prop
  | done {a : α} {a' : α'} (related : R a a') : Twins c R (.done a) (.done a')
  | call {x x' : Call} (limit : Nat) (next : Reply x.Answer → Program α)
    (next' : Reply x'.Answer → Program α') (alike : Call.Alike c x x')
    (more : ∀ reply reply', Outcome.Rel (Call.AnswersAlike c x x') reply.outcome reply'.outcome →
      Twins c R (next reply) (next' reply')) :
    Twins c R (.call x limit next) (.call x' limit next')
  | clock (next : Timestamp → Program α) (next' : Timestamp → Program α')
    (more : ∀ now now', Twins c R (next now) (next' now')) : Twins c R (.clock next) (.clock next')

variable {R : α → α' → Prop} {S : β → β' → Prop}

/-- Twins may go on with anything that makes twins of related results. -/
theorem Twins.bind {p : Program α} {p' : Program α'} {f : α → Program β} {f' : α' → Program β'}
    (h : p.Twins c R p') (hf : ∀ a a', R a a' → (f a).Twins c S (f' a')) :
    (p >>= f).Twins c S (p' >>= f') := by
  induction h with
  | done related => exact hf _ _ related
  | call limit next next' alike _ ih => exact .call limit _ _ alike ih
  | clock next next' _ ih => exact .clock _ _ ih

theorem Twins.map {p : Program α} {p' : Program α'} {f : α → β} {f' : α' → β'}
    (h : p.Twins c R p') (hf : ∀ a a', R a a' → S (f a) (f' a')) :
    (f <$> p).Twins c S (f' <$> p') := by
  rw [map_eq_pure_bind, map_eq_pure_bind]
  exact h.bind fun a a' related => .done (hf a a' related)

theorem twins_now (c : Config) : Program.now.Twins c (fun _ _ => True) Program.now :=
  .clock _ _ fun _ _ => .done trivial

end Program

/-! ### Twins that may fail -/

/-- Results that are related, or the same error. -/
inductive Except.Rel (R : α → α' → Prop) : Except ε α → Except ε α' → Prop
  | ok {a : α} {a' : α'} (related : R a a') : Rel R (.ok a) (.ok a')
  | error (e : ε) : Rel R (.error e) (.error e)

/-- Twins that end with related results or with the same error. -/
def Twins (c : Config) (R : α → α' → Prop) (p : ExceptT ε Program α)
    (p' : ExceptT ε Program α') : Prop :=
  p.run.Twins c (Except.Rel R) p'.run

section Rules

variable {R : α → α' → Prop} {S : β → β' → Prop}

theorem twins_pure {a : α} {a' : α'} (related : R a a') :
    Twins c R (pure a : ExceptT ε Program α) (pure a') :=
  .done (.ok related)

theorem twins_throw (e : ε) : Twins c R (throw e : ExceptT ε Program α) (throw e) :=
  .done (.error e)

theorem Twins.bind {p : ExceptT ε Program α} {p' : ExceptT ε Program α'}
    {f : α → ExceptT ε Program β} {f' : α' → ExceptT ε Program β'} (h : Twins c R p p')
    (hf : ∀ a a', R a a' → Twins c S (f a) (f' a')) : Twins c S (p >>= f) (p' >>= f') := by
  unfold Twins
  rw [ExceptT.run_bind, ExceptT.run_bind]
  refine Program.Twins.bind h fun r r' hr => ?_
  cases hr with
  | ok related => exact hf _ _ related
  | error e => exact twins_throw e

theorem Twins.map {p : ExceptT ε Program α} {p' : ExceptT ε Program α'} {f : α → β} {f' : α' → β'}
    (h : Twins c R p p') (hf : ∀ a a', R a a' → S (f a) (f' a')) :
    Twins c S (f <$> p) (f' <$> p') := by
  rw [map_eq_pure_bind, map_eq_pure_bind]
  exact h.bind fun a a' related => twins_pure (hf a a' related)

theorem Twins.mono {S : α → α' → Prop} {p : ExceptT ε Program α} {p' : ExceptT ε Program α'}
    (h : Twins c R p p') (himp : ∀ a a', R a a' → S a a') : Twins c S p p' := by
  have hmap : Twins c S (id <$> p) (id <$> p') := h.map himp
  rwa [id_map, id_map] at hmap

/-- Twins fail with the same errors, so that handlers see the same. -/
theorem Twins.tryCatch {p : ExceptT ε Program α} {p' : ExceptT ε Program α'}
    {handle : ε → ExceptT ε Program α} {handle' : ε → ExceptT ε Program α'} (h : Twins c R p p')
    (hhandle : ∀ e, Twins c R (handle e) (handle' e)) :
    Twins c R (MonadExcept.tryCatch p handle) (MonadExcept.tryCatch p' handle') := by
  refine Program.Twins.bind h fun r r' hr => ?_
  cases hr with
  | ok related => exact twins_pure related
  | error e => exact hhandle e

theorem twins_lift {p : Program α} {p' : Program α'} (h : p.Twins c R p') :
    Twins c R (monadLift p : ExceptT ε Program α) (monadLift p') :=
  Program.Twins.map h fun _ _ related => .ok related

theorem Twins.adapt {p : ExceptT ε Program α} {p' : ExceptT ε Program α'} (h : Twins c R p p')
    (f : ε → ε') : Twins c R (ExceptT.adapt f p) (ExceptT.adapt f p') := by
  refine Program.Twins.map h fun r r' hr => ?_
  cases hr with
  | ok related => exact .ok related
  | error e => exact .error (f e)

/-- A list of twins are twins, one after another. -/
theorem twins_forM {f : β → ExceptT ε Program PUnit} {f' : β' → ExceptT ε Program PUnit}
    (each : ∀ x x', S x x' → Twins c (fun _ _ => True) (f x) (f' x')) {xs : List β} {xs' : List β'}
    (h : List.Forall₂ S xs xs') : Twins c (fun _ _ => True) (xs.forM f) (xs'.forM f') := by
  induction h with
  | nil => exact twins_pure trivial
  | cons hfirst _ ih => exact (each _ _ hfirst).bind fun _ _ _ => ih

end Rules

/-! ### Operations of repositories -/

namespace Repository

/-- Requests that are alike get answers that are alike. -/
theorem twins_request [Kind α] (r : Repository α) (operation : String) {x x' : Call}
    (h : Call.Alike c x x') :
    Twins c (Call.AnswersAlike c x x') (r.request operation x) (r.request operation x') := by
  refine .call r.limit _ _ h ?_
  rintro ⟨outcome, took⟩ ⟨outcome', took'⟩ (hrel | causes | _)
  · exact .done (.ok hrel)
  · exact .done (.error _)
  · exact .done (.error _)

theorem twins_delete [Kind α] (r : Repository α) (name : String) :
    Twins c (fun _ _ => True) (r.delete name) (r.delete name) := by
  refine (r.twins_request "delete" (.delete (r.key name))).bind ?_
  rintro existed _ rfl
  split
  · exact twins_pure trivial
  · exact twins_throw _

/-- Creations are twins if what they store is alike. -/
theorem twins_create [Kind α] {r : Repository α} {name : String} {a a' : α}
    (h : AlikeAt c (r.key name) (Kind.encode a) (Kind.encode a')) :
    Twins c (fun _ _ => True) (r.create name a) (r.create name a') := by
  refine (r.twins_request "create" (.swap (r.key name) 0 h)).bind ?_
  rintro swap _ rfl
  split
  · exact twins_pure trivial
  · exact twins_throw _

theorem twins_updateAt [Kind α] {r : Repository α} {name : String} {a a' : α} (revision : UInt64)
    (h : AlikeAt c (r.key name) (Kind.encode a) (Kind.encode a')) :
    Twins c (fun _ _ => True) (r.updateAt name a revision) (r.updateAt name a' revision) := by
  refine (r.twins_request "update" (.swap (r.key name) revision h)).bind ?_
  rintro swap _ rfl
  split
  · exact twins_pure trivial
  · split
    · exact twins_throw _
    · exact twins_throw _

variable [Kind α] [Kind.Lawful α] [Kind.Masked α] {r : Repository α}

/-- Values that are read alike are decoded alike. -/
theorem twins_decode {v v' : ByteArray}
    (h : Option.Rel Kind.Alike (Kind.decode? v : Option α) (Kind.decode? v')) :
    Twins c Kind.Alike (decode v : StoreProgram α) (decode v') := by
  unfold decode
  revert h
  generalize (Kind.decode? v : Option α) = a, (Kind.decode? v' : Option α) = a'
  rintro (hrel | _)
  · exact twins_pure hrel
  · exact twins_throw _

/-- What two alike stores show under a name is alike and of the same revision. -/
theorem twins_getVersioned (hr : r.ReadsAlike c) (name : String) :
    Twins c (fun v v' => Kind.Alike v.object v'.object ∧ v.revision = v'.revision)
      (r.getVersioned name) (r.getVersioned name) := by
  refine (r.twins_request "get" (.get (r.key name))).bind ?_
  rintro e e' (⟨hentry, hkey⟩ | _)
  · refine (twins_decode (hr name _ _ (hkey ▸ hentry.value))).bind fun a a' ha => ?_
    exact twins_pure ⟨ha, hentry.revision⟩
  · exact twins_throw _

theorem twins_get (hr : r.ReadsAlike c) (name : String) :
    Twins c Kind.Alike (r.get name) (r.get name) :=
  (twins_getVersioned hr name).map fun _ _ h => h.1

/-- What two alike stores list is alike, one by one. -/
theorem twins_list (hr : r.ReadsAlike c) :
    Twins c (List.Forall₂ Kind.Alike) r.list r.list := by
  refine (r.twins_request "list" (.list r.root)).bind fun es es' hes => twins_pure ?_
  refine List.rel_filterMap (R := fun e e' : Entry => Entry.Alike c e e' ∧
    KeyStore.isUnder r.root e.key = true) ?_ hes
  rintro e e' ⟨hentry, hunder⟩
  obtain ⟨name, hkey⟩ := KeyStore.isUnder_iff.1 hunder
  have hvalue := hentry.value
  rw [hkey] at hvalue
  exact hr name _ _ hvalue

end Repository

/-! ### Runs -/

/-- How a call ended, without its answer. -/
def Outcome.ending : Outcome α → Outcome Unit
  | answered _ => answered ()
  | failed causes => failed causes
  | gaveUp => gaveUp

/-- A call without the value that it writes. -/
def Call.bare : Call → Call
  | swap key expected _ => swap key expected .empty
  | putBlob key _ => putBlob key .empty
  | call => call

/-- Calls that are alike are the same but for the values that they carry. -/
theorem Call.Alike.bare_eq {x x' : Call} (h : Call.Alike c x x') : x.bare = x'.bare := by
  cases h with
  | get key => rfl
  | list start => rfl
  | swap key expected value => rfl
  | delete key => rfl

/-- The calls of a run without their values. -/
def bareCalls (moves : List Move) : List Call :=
  moves.filterMap fun m => m.request.map Call.bare

/-- Which calls of a run fail, and how: this depends on a call and on those before it, without the
values that they write. -/
abbrev Failures := List Call → Outcome Unit

/-- The calls of a run that has made some calls before end as the failures have it. -/
def Failures.Allow (failures : Failures) : List Call → List Move → Prop
  | _, [] => True
  | past, .clock _ :: moves => Allow failures past moves
  | past, .call x reply :: moves =>
    reply.outcome.ending = failures (past ++ [x.bare]) ∧ Allow failures (past ++ [x.bare]) moves

/-- Failures allow a run exactly if they allow its front part, and the rest after it. -/
theorem Failures.allow_append {failures : Failures} {past : List Call} {u v : List Move} :
    failures.Allow past (u ++ v) ↔
      failures.Allow past u ∧ failures.Allow (past ++ bareCalls u) v := by
  induction u generalizing past with
  | nil =>
    show failures.Allow past v ↔ True ∧ failures.Allow (past ++ []) v
    rw [List.append_nil, true_and]
  | cons m u ih =>
    cases m with
    | clock now => exact ih
    | call x reply =>
      show _ ∧ failures.Allow _ (u ++ v) ↔ (_ ∧ failures.Allow _ u) ∧ _
      rw [ih, and_assoc, List.append_assoc]
      rfl

/-- No call fails. -/
def Failures.none : Failures := fun _ => .answered ()

/-- A program can go on to its end so that no call fails. -/
theorem Program.Alone.answered {p q : Program α} {b b' : Backend} {moves : List Move}
    {past : List Call} (h : p.Alone b moves b' q) (hmoves : Failures.none.Allow past moves)
    (now : Timestamp) :
    ∃ moves', p.Alone b moves' (q.undisturbed now b').2 (.done (q.undisturbed now b').1) ∧
      Failures.none.Allow past moves' := by
  induction q generalizing b' moves with
  | done a => exact ⟨moves, h, hmoves⟩
  | call x limit next ih =>
    refine ih _ (h.move (.call x ⟨.answered (x.answer b').1, 0⟩) _ (.call _ _ _ _) ?_) ?_
    · rintro answer h
      exact (Outcome.answered.inj h).symm
    · exact Failures.allow_append.2 ⟨hmoves, rfl, trivial⟩
  | clock next ih =>
    refine ih now (h.move (.clock now) _ (.clock _ _) trivial) ?_
    exact Failures.allow_append.2 ⟨hmoves, trivial⟩

/-- Moves are true of a backend one after another and lead to another one. -/
def Backend.Follows (b : Backend) : List Move → Backend → Prop
  | [], b' => b' = b
  | m :: moves, b' => m.IsTrue b ∧ (m.after b).Follows moves b'

theorem Backend.Follows.concat {b b' : Backend} {moves : List Move} (h : b.Follows moves b')
    {m : Move} (hm : m.IsTrue b') : b.Follows (moves ++ [m]) (m.after b') := by
  induction moves generalizing b with
  | nil =>
    obtain rfl : b' = b := h
    exact ⟨hm, rfl⟩
  | cons first moves ih => exact ⟨h.1, ih h.2⟩

/-- A run alone follows the truth of the backend. -/
theorem Program.Alone.follows {p q : Program α} {b b' : Backend} {past : List Move}
    (h : p.Alone b past b' q) : b.Follows past b' := by
  induction h with
  | start => rfl
  | move run m q' step true_move ih => exact ih.concat true_move

/-- Calls that are alike and end in the same way have answers that are alike, and leave stores that
are alike. -/
theorem Call.Alike.after {x x' : Call} (h : Call.Alike c x x') {b b' : Backend}
    (hb : b.keys.Alike c b'.keys) {reply : Reply x.Answer} {reply' : Reply x'.Answer}
    (hm : (Move.call x reply).IsTrue b) (hm' : (Move.call x' reply').IsTrue b')
    (hending : reply.outcome.ending = reply'.outcome.ending) :
    Outcome.Rel (Call.AnswersAlike c x x') reply.outcome reply'.outcome ∧
      ((Move.call x reply).after b).keys.Alike c ((Move.call x' reply').after b').keys := by
  obtain ⟨outcome, took⟩ := reply
  obtain ⟨outcome', took'⟩ := reply'
  cases outcome with
  | answered answer =>
    cases outcome' with
    | answered answer' =>
      obtain rfl := hm answer rfl
      obtain rfl := hm' answer' rfl
      exact ⟨.answered (h.answer hb).1, (h.answer hb).2⟩
    | failed causes => exact nomatch hending
    | gaveUp => exact nomatch hending
  | failed causes =>
    cases outcome' with
    | answered answer => exact nomatch hending
    | failed causes' =>
      obtain rfl := Outcome.failed.inj hending
      exact ⟨.failed causes, hb⟩
    | gaveUp => exact nomatch hending
  | gaveUp =>
    cases outcome' with
    | answered answer => exact nomatch hending
    | failed causes => exact nomatch hending
    | gaveUp => exact ⟨.gaveUp, hb⟩

/-- Twins on stores that are alike end with related results if the same calls fail. -/
theorem Program.Twins.ends {R : α → α' → Prop} {p : Program α} {p' : Program α'}
    (h : p.Twins c R p') {failures : Failures} {past : List Call} {b b' b₁ b₁' : Backend}
    {moves moves' : List Move} {a : α} {a' : α'} (hb : b.keys.Alike c b'.keys)
    (hends : p.Ends moves a) (hends' : p'.Ends moves' a') (hfollows : b.Follows moves b₁)
    (hfollows' : b'.Follows moves' b₁') (hfailures : failures.Allow past moves)
    (hfailures' : failures.Allow past moves') :
    R a a' ∧ b₁.keys.Alike c b₁'.keys ∧ bareCalls moves = bareCalls moves' := by
  induction h generalizing past b b' moves moves' with
  | done related =>
    obtain ⟨rfl, rfl⟩ := ends_done_iff.1 hends
    obtain ⟨rfl, rfl⟩ := ends_done_iff.1 hends'
    obtain rfl : b₁ = b := hfollows
    obtain rfl : b₁' = b' := hfollows'
    exact ⟨related, hb, rfl⟩
  | @call x x' limit next next' alike _ ih =>
    obtain ⟨reply, rest, rfl, hrest⟩ := ends_call_iff.1 hends
    obtain ⟨reply', rest', rfl, hrest'⟩ := ends_call_iff.1 hends'
    obtain ⟨hm, hfollows⟩ := hfollows
    obtain ⟨hm', hfollows'⟩ := hfollows'
    obtain ⟨hending, hfailures⟩ := hfailures
    obtain ⟨hending', hfailures'⟩ := hfailures'
    -- The failures depend on the bare calls only, which are the same.
    rw [← alike.bare_eq] at hending' hfailures'
    obtain ⟨hrel, hafter⟩ := alike.after hb hm hm' (hending.trans hending'.symm)
    obtain ⟨hresult, hkeys, hcalls⟩ := ih reply reply' hrel hafter hrest hrest' hfollows hfollows'
      hfailures hfailures'
    refine ⟨hresult, hkeys, ?_⟩
    show x.bare :: bareCalls rest = x'.bare :: bareCalls rest'
    rw [alike.bare_eq, hcalls]
  | clock next next' _ ih =>
    obtain ⟨now, rest, rfl, hrest⟩ := ends_clock_iff.1 hends
    obtain ⟨now', rest', rfl, hrest'⟩ := ends_clock_iff.1 hends'
    obtain ⟨hresult, hkeys, hcalls⟩ :=
      ih now now' hb hrest hrest' hfollows.2 hfollows'.2 hfailures hfailures'
    exact ⟨hresult, hkeys, hcalls⟩

end Workplane
