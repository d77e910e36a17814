import Mathlib.Data.List.Forall2
import Workplane.Proofs.Program.Alone
import Workplane.Proofs.Workspace.Stored

/-!
# How programs end

`Program.Ends` relates a program to the moves that it can make, whatever it is told, and to the
result that it ends with then; `Succeeds` is the same for a program that may fail.  The rules below
are equivalences (`Program.ends_bind_iff`, `succeeds_bind_iff`), so what a program has to be told to
succeed can be read off its text, and nothing else makes it succeed.
-/

namespace Workplane

variable {α β ε ε' : Type} {moves : List Move}

namespace Program

/-- A program can make moves one after another and end with a result. -/
inductive Ends {α : Type} : Program α → List Move → α → Prop
  | done (a : α) : Ends (.done a) [] a
  | move {p q : Program α} {m : Move} {moves : List Move} {a : α} (step : p.Step m q)
    (rest : q.Ends moves a) : Ends p (m :: moves) a

theorem ends_done_iff {a a' : α} : (done a).Ends moves a' ↔ moves = [] ∧ a' = a := by
  constructor
  · rintro (_ | ⟨step, -⟩)
    · exact ⟨rfl, rfl⟩
    · exact nomatch step
  · rintro ⟨rfl, rfl⟩
    exact .done a'

theorem ends_call_iff {c : Call} {limit : Nat} {next : Reply c.Answer → Program α} {a : α} :
    (call c limit next).Ends moves a ↔
      ∃ reply rest, moves = .call c reply :: rest ∧ (next reply).Ends rest a := by
  constructor
  · rintro (_ | ⟨step, rest⟩)
    cases step with
    | call _ _ _ reply => exact ⟨reply, _, rfl, rest⟩
  · rintro ⟨reply, rest, rfl, h⟩
    exact .move (.call c limit next reply) h

theorem ends_clock_iff {next : Timestamp → Program α} {a : α} :
    (clock next).Ends moves a ↔ ∃ now rest, moves = .clock now :: rest ∧ (next now).Ends rest a := by
  constructor
  · rintro (_ | ⟨step, rest⟩)
    cases step with
    | clock _ now => exact ⟨now, _, rfl, rest⟩
  · rintro ⟨now, rest, rfl, h⟩
    exact .move (.clock next now) h

/-- A program that goes on after another one makes the moves of both. -/
theorem ends_bind_iff {p : Program α} {f : α → Program β} {b : β} :
    (p >>= f).Ends moves b ↔ ∃ a u v, moves = u ++ v ∧ p.Ends u a ∧ (f a).Ends v b := by
  induction p generalizing moves with
  | done a =>
    rw [done_bind]
    constructor
    · exact fun h => ⟨a, [], moves, rfl, .done a, h⟩
    · rintro ⟨a', u, v, rfl, hp, hf⟩
      obtain ⟨rfl, rfl⟩ := ends_done_iff.1 hp
      exact hf
  | call c limit next ih =>
    rw [call_bind, ends_call_iff]
    constructor
    · rintro ⟨reply, rest, rfl, h⟩
      obtain ⟨a, u, v, rfl, hp, hf⟩ := (ih reply).1 h
      exact ⟨a, _ :: u, v, rfl, .move (.call c limit next reply) hp, hf⟩
    · rintro ⟨a, u, v, rfl, hp, hf⟩
      obtain ⟨reply, rest, rfl, hnext⟩ := ends_call_iff.1 hp
      exact ⟨reply, rest ++ v, rfl, (ih reply).2 ⟨a, rest, v, rfl, hnext, hf⟩⟩
  | clock next ih =>
    rw [clock_bind, ends_clock_iff]
    constructor
    · rintro ⟨now, rest, rfl, h⟩
      obtain ⟨a, u, v, rfl, hp, hf⟩ := (ih now).1 h
      exact ⟨a, _ :: u, v, rfl, .move (.clock next now) hp, hf⟩
    · rintro ⟨a, u, v, rfl, hp, hf⟩
      obtain ⟨now, rest, rfl, hnext⟩ := ends_clock_iff.1 hp
      exact ⟨now, rest ++ v, rfl, (ih now).2 ⟨a, rest, v, rfl, hnext, hf⟩⟩

theorem ends_map_iff {p : Program α} {f : α → β} {b : β} :
    (f <$> p).Ends moves b ↔ ∃ a, p.Ends moves a ∧ b = f a := by
  rw [map_eq_pure_bind, ends_bind_iff]
  constructor
  · rintro ⟨a, u, v, rfl, hp, hf⟩
    obtain ⟨rfl, rfl⟩ := ends_done_iff.1 hf
    rw [List.append_nil]
    exact ⟨a, hp, rfl⟩
  · rintro ⟨a, hp, rfl⟩
    exact ⟨a, moves, [], (List.append_nil _).symm, hp, .done _⟩

/-- A program that is alone makes moves that it can make. -/
theorem Alone.ends_append {p q : Program α} {b b' : Backend} {past : List Move} {a : α}
    (h : p.Alone b past b' q) (rest : q.Ends moves a) : p.Ends (past ++ moves) a := by
  induction h generalizing moves with
  | start => exact rest
  | move run m q' step _ ih =>
    rw [List.append_assoc]
    exact ih (.move step rest)

/-- A run that is done consists of the moves of an ending. -/
theorem Alone.ends {p : Program α} {b b' : Backend} {past : List Move} {a : α}
    (h : p.Alone b past b' (.done a)) : p.Ends past a :=
  List.append_nil past ▸ h.ends_append (.done a)

end Program

/-! ### Programs that may fail -/

/-- A program can make moves one after another and succeed with a result. -/
def Succeeds (p : ExceptT ε Program α) (moves : List Move) (a : α) : Prop :=
  p.run.Ends moves (.ok a)

theorem succeeds_pure_iff {a a' : α} :
    Succeeds (pure a : ExceptT ε Program α) moves a' ↔ moves = [] ∧ a' = a := by
  unfold Succeeds
  show (Program.done (Except.ok a)).Ends moves _ ↔ _
  rw [Program.ends_done_iff, Except.ok.injEq]

theorem not_succeeds_throw {e : ε} {a : α} :
    ¬Succeeds (throw e : ExceptT ε Program α) moves a := by
  intro h
  exact nomatch (Program.ends_done_iff.1 (show (Program.done (Except.error e)).Ends moves _ from h)).2

/-- A sequence succeeds if its parts do, one after the other. -/
theorem succeeds_bind_iff {p : ExceptT ε Program α} {f : α → ExceptT ε Program β} {b : β} :
    Succeeds (p >>= f) moves b ↔
      ∃ a u v, moves = u ++ v ∧ Succeeds p u a ∧ Succeeds (f a) v b := by
  unfold Succeeds
  rw [ExceptT.run_bind, Program.ends_bind_iff]
  constructor
  · rintro ⟨r, u, v, rfl, hp, hf⟩
    cases r with
    | ok a => exact ⟨a, u, v, rfl, hp, hf⟩
    | error e => exact (not_succeeds_throw hf).elim
  · rintro ⟨a, u, v, rfl, hp, hf⟩
    exact ⟨.ok a, u, v, rfl, hp, hf⟩

theorem succeeds_map_iff {p : ExceptT ε Program α} {f : α → β} {b : β} :
    Succeeds (f <$> p) moves b ↔ ∃ a, Succeeds p moves a ∧ b = f a := by
  rw [map_eq_pure_bind, succeeds_bind_iff]
  constructor
  · rintro ⟨a, u, v, rfl, hp, hf⟩
    obtain ⟨rfl, rfl⟩ := succeeds_pure_iff.1 hf
    rw [List.append_nil]
    exact ⟨a, hp, rfl⟩
  · rintro ⟨a, hp, rfl⟩
    exact ⟨a, moves, [], (List.append_nil _).symm, hp, succeeds_pure_iff.2 ⟨rfl, rfl⟩⟩

/-- Where nothing can fail, success is the end. -/
theorem succeeds_lift_iff {p : Program α} {a : α} :
    Succeeds (monadLift p : ExceptT ε Program α) moves a ↔ p.Ends moves a := by
  unfold Succeeds
  show (Except.ok <$> p).Ends moves _ ↔ _
  rw [Program.ends_map_iff]
  constructor
  · rintro ⟨a', hp, h⟩
    obtain rfl := Except.ok.inj h
    exact hp
  · exact fun hp => ⟨a, hp, rfl⟩

theorem succeeds_adapt_iff {p : ExceptT ε Program α} {f : ε → ε'} {a : α} :
    Succeeds (ExceptT.adapt f p) moves a ↔ Succeeds p moves a := by
  unfold Succeeds
  show (Except.mapError f <$> p.run).Ends moves _ ↔ _
  rw [Program.ends_map_iff]
  constructor
  · rintro ⟨r, hp, h⟩
    cases r with
    | ok a' =>
      obtain rfl := Except.ok.inj h
      exact hp
    | error e => exact nomatch h
  · exact fun hp => ⟨.ok a, hp, rfl⟩

/-- A program can make moves one after another and fail with an error. -/
def Fails (p : ExceptT ε Program α) (moves : List Move) (e : ε) : Prop :=
  p.run.Ends moves (.error e)

theorem not_fails_pure {a : α} {e : ε} : ¬Fails (pure a : ExceptT ε Program α) moves e := by
  intro h
  exact nomatch (Program.ends_done_iff.1 (show (Program.done (Except.ok a)).Ends moves _ from h)).2

theorem fails_throw_iff {e e' : ε} :
    Fails (throw e : ExceptT ε Program α) moves e' ↔ moves = [] ∧ e' = e := by
  unfold Fails
  show (Program.done (Except.error e)).Ends moves _ ↔ _
  rw [Program.ends_done_iff, Except.error.injEq]

/-- A sequence fails in its first part, or in the second one after the first has succeeded. -/
theorem fails_bind_iff {p : ExceptT ε Program α} {f : α → ExceptT ε Program β} {e : ε} :
    Fails (p >>= f) moves e ↔
      Fails p moves e ∨ ∃ a u v, moves = u ++ v ∧ Succeeds p u a ∧ Fails (f a) v e := by
  unfold Fails
  rw [ExceptT.run_bind, Program.ends_bind_iff]
  constructor
  · rintro ⟨r, u, v, rfl, hp, hf⟩
    cases r with
    | ok a => exact Or.inr ⟨a, u, v, rfl, hp, hf⟩
    | error e' =>
      obtain ⟨rfl, rfl⟩ := fails_throw_iff.1 (show Fails (throw e' : ExceptT ε Program β) v e from hf)
      rw [List.append_nil]
      exact Or.inl hp
  · rintro (hp | ⟨a, u, v, rfl, hp, hf⟩)
    · exact ⟨.error e, moves, [], (List.append_nil _).symm, hp, .done _⟩
    · exact ⟨.ok a, u, v, rfl, hp, hf⟩

theorem fails_map_iff {p : ExceptT ε Program α} {f : α → β} {e : ε} :
    Fails (f <$> p) moves e ↔ Fails p moves e := by
  rw [map_eq_pure_bind, fails_bind_iff]
  constructor
  · rintro (hp | ⟨a, u, v, rfl, -, hf⟩)
    · exact hp
    · exact (not_fails_pure hf).elim
  · exact Or.inl

/-- A failure may be caught, and then the handler has to succeed. -/
theorem succeeds_tryCatch_iff {p : ExceptT ε Program α} {handle : ε → ExceptT ε Program α} {a : α} :
    Succeeds (tryCatch p handle) moves a ↔
      Succeeds p moves a ∨ ∃ e u v, moves = u ++ v ∧ Fails p u e ∧ Succeeds (handle e) v a := by
  show (ExceptT.run (ExceptT.tryCatch p handle)).Ends moves _ ↔ _
  unfold ExceptT.tryCatch
  show (p.run >>= _).Ends moves _ ↔ _
  rw [Program.ends_bind_iff]
  constructor
  · rintro ⟨r, u, v, rfl, hp, hf⟩
    cases r with
    | ok a' =>
      obtain ⟨rfl, h⟩ := Program.ends_done_iff.1 hf
      obtain rfl := Except.ok.inj h
      rw [List.append_nil]
      exact Or.inl hp
    | error e => exact Or.inr ⟨e, u, v, rfl, hp, hf⟩
  · rintro (hp | ⟨e, u, v, rfl, hp, hf⟩)
    · exact ⟨.ok a, moves, [], (List.append_nil _).symm, hp, .done _⟩
    · exact ⟨.error e, u, v, rfl, hp, hf⟩

/-- Programs that succeed with one move each succeed one after another with these moves. -/
theorem succeeds_forM_iff {P : β → Move → Prop} {f : β → ExceptT ε Program PUnit} {bs : List β}
    (each : ∀ x moves, Succeeds (f x) moves ⟨⟩ ↔ ∃ m, moves = [m] ∧ P x m) :
    Succeeds (bs.forM f) moves ⟨⟩ ↔ List.Forall₂ P bs moves := by
  induction bs generalizing moves with
  | nil =>
    rw [List.forall₂_nil_left_iff]
    exact succeeds_pure_iff.trans (and_iff_left rfl)
  | cons x bs ih =>
    rw [List.forall₂_cons_left_iff]
    show Succeeds (f x >>= fun _ => bs.forM f) moves ⟨⟩ ↔ _
    rw [succeeds_bind_iff]
    constructor
    · rintro ⟨_, u, v, rfl, hx, hbs⟩
      obtain ⟨m, rfl, hm⟩ := (each x u).1 hx
      exact ⟨m, v, hm, ih.1 hbs, rfl⟩
    · rintro ⟨m, v, hm, hbs, rfl⟩
      exact ⟨⟨⟩, [m], v, rfl, (each x [m]).2 ⟨m, rfl, hm⟩, ih.2 hbs⟩

/-! ### Operations of repositories -/

/-- The move changes neither keys nor blobs, whatever it is answered. -/
def Move.Reads (m : Move) : Prop :=
  ∀ call, m.request = some call → call.IsRead

theorem Move.reads_clock (now : Timestamp) : (Move.clock now).Reads :=
  nofun

/-- After reads alone nothing is decided. -/
theorem Writer.quiet_of_reads {past : List Move} (h : ∀ m ∈ past, m.Reads) : Quiet past :=
  fun m hm => verdict_eq_none_of_isRead (h m hm)

/-- A program that has only read leaves the backend as it was. -/
theorem Program.Alone.eq_of_reads {p q : Program α} {b b' : Backend} {past : List Move}
    (h : p.Alone b past b' q) (hreads : ∀ m ∈ past, m.Reads) : b' = b := by
  refine h.eq_of_unchanged (fun m hm => ?_) fun m hm key data hrequest => hreads m hm _ hrequest
  rw [Writer.quiet_of_reads hreads m hm]
  exact nofun

/-- The move is an answered look at a key, with the answer. -/
def Move.Looks (key : String) (answer : Option Entry) (m : Move) : Prop :=
  ∃ took, m = .call (.get key) ⟨.answered answer, took⟩

theorem Move.Looks.reads {key : String} {answer : Option Entry} {m : Move}
    (h : m.Looks key answer) : m.Reads := by
  obtain ⟨took, rfl⟩ := h
  intro call hcall
  obtain rfl := Option.some.inj hcall
  trivial

/-- The move is a conditional write that took place. -/
def Move.Wrote (key : String) (expected : UInt64) (value : ByteArray) (m : Move) : Prop :=
  ∃ revision took, m = .call (.swap key expected value) ⟨.answered ⟨true, revision⟩, took⟩

/-- A conditional write that took place found the revision that it expected. -/
theorem Move.Wrote.effect {key : String} {expected : UInt64} {value : ByteArray} {m : Move}
    {b : Backend} (h : m.Wrote key expected value) (hm : m.IsTrue b) :
    b.keys.revisionOf key = expected ∧ m.after b = { b with keys := b.keys.write key value } := by
  obtain ⟨revision, took, rfl⟩ := h
  obtain ⟨hrevision, hkeys⟩ := hm.swap_written rfl rfl
  refine ⟨hrevision, ?_⟩
  rw [← hkeys]
  rfl

namespace Repository

variable [Kind α] {r : Repository α} {name : String} {a : α}

/-- The move finds an object under a name. -/
def Finds (r : Repository α) (name : String) (a : α) (m : Move) : Prop :=
  ∃ e, m.Looks (r.key name) (some e) ∧ Kind.decode? e.value = some a

theorem Finds.reads {m : Move} (h : r.Finds name a m) : m.Reads := by
  obtain ⟨e, hlooks, -⟩ := h
  exact hlooks.reads

/-- What a program alone has found is stored as long as it only reads. -/
theorem Finds.stored {p q : Program β} {b b' : Backend} {past : List Move} {m : Move}
    (h : r.Finds name a m) (run : p.Alone b past b' q) (hreads : ∀ m ∈ past, m.Reads)
    (hm : m ∈ past) : r.Stored b.keys name a := by
  obtain ⟨e, ⟨took, rfl⟩, ha⟩ := h
  exact ⟨e, run.get?_of_answered (Writer.quiet_of_reads hreads) hm, ha⟩

theorem succeeds_request_iff {operation : String} {c : Call} {answer : c.Answer} :
    Succeeds (r.request operation c) moves answer ↔
      ∃ took, moves = [.call c ⟨.answered answer, took⟩] := by
  unfold Succeeds
  show (Program.call c r.limit _).Ends moves _ ↔ _
  rw [Program.ends_call_iff]
  constructor
  · rintro ⟨⟨outcome, took⟩, rest, rfl, h⟩
    obtain ⟨rfl, hresult⟩ := Program.ends_done_iff.1 h
    cases outcome with
    | answered answer' =>
      obtain rfl := Except.ok.inj hresult
      exact ⟨took, rfl⟩
    | failed causes => exact nomatch hresult
    | gaveUp => exact nomatch hresult
  · rintro ⟨took, rfl⟩
    exact ⟨_, [], rfl, .done _⟩

/-- A call that fails does not say that an object is missing. -/
theorem isNotFound_of_fails_request {operation : String} {c : Call} {e : StoreError}
    (h : Fails (r.request operation c) moves e) : e.isNotFound = false := by
  obtain ⟨⟨outcome, took⟩, rest, -, h⟩ :=
    Program.ends_call_iff.1 (show (Program.call c r.limit _).Ends moves _ from h)
  obtain ⟨-, hresult⟩ := Program.ends_done_iff.1 h
  cases outcome with
  | answered answer => exact nomatch hresult
  | failed causes =>
    obtain rfl := Except.error.inj hresult
    rfl
  | gaveUp =>
    obtain rfl := Except.error.inj hresult
    rfl

/-- Decoding is no move. -/
theorem succeeds_decode_iff {value : ByteArray} :
    Succeeds (decode value : StoreProgram α) moves a ↔
      moves = [] ∧ Kind.decode? value = some a := by
  unfold decode
  cases (Kind.decode? value : Option α) with
  | some a' =>
    rw [succeeds_pure_iff, Option.some.injEq]
    exact and_congr_right fun _ => eq_comm
  | none => exact iff_of_false not_succeeds_throw nofun

/-- A value that is no object does not say that an object is missing. -/
theorem isNotFound_of_fails_decode {value : ByteArray} {e : StoreError}
    (h : Fails (decode value : StoreProgram α) moves e) : e.isNotFound = false := by
  unfold decode at h
  cases hvalue : (Kind.decode? value : Option α) with
  | some a =>
    rw [hvalue] at h
    exact (not_fails_pure h).elim
  | none =>
    rw [hvalue] at h
    obtain ⟨-, rfl⟩ := fails_throw_iff.1 h
    rfl

/-- A read succeeds with one look at an entry that decodes. -/
theorem succeeds_getVersioned_iff {v : Versioned α} :
    Succeeds (r.getVersioned name) moves v ↔ ∃ e m, moves = [m] ∧
      m.Looks (r.key name) (some e) ∧ Kind.decode? e.value = some v.object ∧
      v.revision = e.revision := by
  rw [getVersioned, succeeds_bind_iff]
  constructor
  · rintro ⟨answer, u, w, rfl, hget, h⟩
    obtain ⟨took, rfl⟩ := succeeds_request_iff.1 hget
    cases answer with
    | none => exact (not_succeeds_throw h).elim
    | some e =>
      obtain ⟨a, u', w', rfl, hdecode, hpure⟩ := succeeds_bind_iff.1 h
      obtain ⟨rfl, ha⟩ := succeeds_decode_iff.1 hdecode
      obtain ⟨rfl, rfl⟩ := succeeds_pure_iff.1 hpure
      exact ⟨e, _, rfl, ⟨took, rfl⟩, ha, rfl⟩
  · rintro ⟨e, m, rfl, ⟨took, rfl⟩, ha, hrevision⟩
    refine ⟨some e, [_], [], rfl, succeeds_request_iff.2 ⟨took, rfl⟩, succeeds_bind_iff.2 ?_⟩
    refine ⟨v.object, [], [], rfl, succeeds_decode_iff.2 ⟨rfl, ha⟩, succeeds_pure_iff.2 ⟨rfl, ?_⟩⟩
    rw [← hrevision]

theorem succeeds_get_iff :
    Succeeds (r.get name) moves a ↔ ∃ m, moves = [m] ∧ r.Finds name a m := by
  rw [get, succeeds_map_iff]
  constructor
  · rintro ⟨v, hv, rfl⟩
    obtain ⟨e, m, rfl, hlooks, ha, -⟩ := succeeds_getVersioned_iff.1 hv
    exact ⟨m, rfl, e, hlooks, ha⟩
  · rintro ⟨m, rfl, e, hlooks, ha⟩
    exact ⟨⟨a, e.revision⟩, succeeds_getVersioned_iff.2 ⟨e, m, rfl, hlooks, ha, rfl⟩, rfl⟩

/-- An object is missed only by a look that was answered, and found nothing. -/
theorem fails_get_notFound_iff {e : StoreError} (he : e.isNotFound = true) :
    Fails (r.get name) moves e ↔
      e = .notFound (Kind.plural α) name ∧ ∃ m, moves = [m] ∧ m.Looks (r.key name) none := by
  rw [get, fails_map_iff, getVersioned, fails_bind_iff]
  constructor
  · rintro (h | ⟨answer, u, w, rfl, hget, h⟩)
    · exact absurd he (Bool.eq_false_iff.1 (isNotFound_of_fails_request h))
    · obtain ⟨took, rfl⟩ := succeeds_request_iff.1 hget
      cases answer with
      | none =>
        obtain ⟨rfl, rfl⟩ := fails_throw_iff.1 h
        exact ⟨rfl, _, rfl, took, rfl⟩
      | some entry =>
        obtain hdecode | ⟨a, u', w', rfl, -, hpure⟩ := fails_bind_iff.1 h
        · exact absurd he (Bool.eq_false_iff.1 (isNotFound_of_fails_decode hdecode))
        · exact (not_fails_pure hpure).elim
  · rintro ⟨rfl, m, rfl, took, rfl⟩
    exact Or.inr ⟨none, [_], [], rfl, succeeds_request_iff.2 ⟨took, rfl⟩,
      fails_throw_iff.2 ⟨rfl, rfl⟩⟩

/-- A conditional write is followed by its revision, or by a failure. -/
theorem succeeds_swap_iff {operation : String} {key : String} {expected revision : UInt64}
    {value : ByteArray} {refused : Swap → StoreProgram UInt64}
    (hrefused : ∀ swap moves revision, ¬Succeeds (refused swap) moves revision) :
    Succeeds (do
        let swap ← r.request operation (.swap key expected value)
        if swap.written then return swap.revision else refused swap) moves revision ↔
      ∃ took, moves = [.call (.swap key expected value) ⟨.answered ⟨true, revision⟩, took⟩] := by
  rw [succeeds_bind_iff]
  constructor
  · rintro ⟨⟨written, revision'⟩, u, v, rfl, hswap, h⟩
    obtain ⟨took, rfl⟩ := succeeds_request_iff.1 hswap
    cases written with
    | true =>
      obtain ⟨rfl, rfl⟩ := succeeds_pure_iff.1 h
      exact ⟨took, rfl⟩
    | false => exact (hrefused _ _ _ h).elim
  · rintro ⟨took, rfl⟩
    exact ⟨⟨true, revision⟩, [_], [], rfl, succeeds_request_iff.2 ⟨took, rfl⟩,
      succeeds_pure_iff.2 ⟨rfl, rfl⟩⟩

/-- A creation succeeds with one swap that expects nothing and is written. -/
theorem succeeds_create_iff {revision : UInt64} :
    Succeeds (r.create name a) moves revision ↔ ∃ took,
      moves = [.call (.swap (r.key name) 0 (Kind.encode a)) ⟨.answered ⟨true, revision⟩, took⟩] :=
  succeeds_swap_iff fun _ _ _ => not_succeeds_throw

theorem succeeds_updateAt_iff {expected revision : UInt64} :
    Succeeds (r.updateAt name a expected) moves revision ↔ ∃ took, moves =
      [.call (.swap (r.key name) expected (Kind.encode a)) ⟨.answered ⟨true, revision⟩, took⟩] := by
  refine succeeds_swap_iff fun swap moves revision h => ?_
  split at h
  · exact not_succeeds_throw h
  · exact not_succeeds_throw h

end Repository

end Workplane
