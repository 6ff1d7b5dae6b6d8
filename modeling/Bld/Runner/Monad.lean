import Bld.Runner.Context

/-!
# The runner's effects

The async code of a runner is a computation in `M`. It extends the run's trace (`Event`: the
executor updates, the log lines, the builds of called runners, the platform operations and the
stop tokens taken from the channel), counts the tokens it has taken, and ends with a value, an
`anyhow` error (`Fault.err`), the panic of `unreachable!()` (`Fault.panic`), or the end of the
fuel that bounds the recursion through `Runner::call` (`Fault.outOfFuel`, `Bld/Runner/Run.lean`).

What the runner does not decide is a `World`: the outcome of each platform operation (given the
operations before it), of each platform creation, the number of stop tokens sent on the
run's channel by each moment, a moment being the length of the trace, and the iteration order of
the maps that the builds of the run collect.

* `ofExcept` is `?`, `attempt` is a `match` on a `Result` that catches an `anyhow` error and
  lets a halt through.
* `Emits Q x`: `x` only appends to the trace, and only events satisfying `Q`. It is closed under
  `bind`, `forM` and the primitives.
-/

namespace Bld

/-- An operation on a platform: `copy_into`, `copy_from`, `sh`, `dispose`. -/
inductive Op where
  | push (p : TargetPlatform) («from» «to» : String)
  | get (p : TargetPlatform) («from» «to» : String)
  | sh (p : TargetPlatform) (workingDir : Option String) (command : String)
  | dispose (p : TargetPlatform)
  deriving DecidableEq, Repr

/-- An operation as the runner at nesting depth `depth` performs it; the root is at depth `0`,
a runner built by `Runner::call` one deeper than its caller. -/
structure Act where
  depth : Nat
  op : Op
  deriving DecidableEq, Repr

/-- A line that a runner writes to the logger. -/
inductive Log where
  /-- `[bld] Pipeline: {name}` -/
  | pipeline (name : String)
  /-- `[bld] Runs on: {runs_on}` -/
  | runsOn (r : RunsOn)
  /-- `[bld] Step: {name}` -/
  | step (name : String)
  /-- `[bld] Copying artifacts from: {from} into container to: {to}` -/
  | copying («from» «to» : String)
  /-- The text of an error that `Runner::run` caught. -/
  | error (e : Error)
  deriving DecidableEq, Repr

inductive Event where
  /-- `update_running(b)` on the run's executor state. -/
  | running (b : Bool)
  | log (depth : Nat) (line : Log)
  /-- `Runner::call` starts building, at depth `depth`, the runner of `pipeline`. -/
  | build (depth : Nat) (pipeline : String)
  | act (a : Act)
  /-- `check_stop_signal` of the runner at `depth` took a stop token from the channel. -/
  | received (depth : Nat)
  deriving DecidableEq, Repr

def Event.act? : Event → Option Act
  | .act a => some a
  | _ => none

/-- The platform operations of a trace. -/
def acts (T : List Event) : List Act := T.filterMap Event.act?

@[simp] theorem acts_nil : acts [] = [] := rfl

@[simp] theorem acts_append (T T' : List Event) : acts (T ++ T') = acts T ++ acts T' :=
  List.filterMap_append _ _ _

@[simp] theorem acts_act (a : Act) : acts [.act a] = [a] := rfl

@[simp] theorem acts_cons_act (a : Act) (T : List Event) : acts (.act a :: T) = a :: acts T := rfl

@[simp] theorem acts_cons_log (d : Nat) (l : Log) (T : List Event) :
    acts (.log d l :: T) = acts T := rfl

@[simp] theorem acts_map_act (L : List Act) : acts (L.map .act) = L := by
  induction L with
  | nil => rfl
  | cons a L ih => simp [ih]

structure World where
  /-- The outcome of the operation `a` after the operations `h`. -/
  result : List Act → Act → Except String Unit
  /-- The outcome of `Machine::new` or `Container::new` at moment `t`. -/
  init : Nat → RunsOn → Except String Unit
  /-- The number of stop tokens sent on the run's channel by moment `t`. -/
  sent : Nat → Nat
  /-- The iteration order of the maps that every `RunnerBuilder::build` of the run collects. -/
  order : MapOrder

inductive Fault where
  | err (e : Error)
  | panic
  | outOfFuel
  deriving DecidableEq, Repr

structure St where
  trace : List Event
  /-- The stop tokens taken from the channel. -/
  consumed : Nat
  deriving DecidableEq, Repr

def M (α : Type) : Type := St → Except Fault α × St

namespace M

protected def pure {α : Type} (a : α) : M α := fun s => (.ok a, s)

protected def bind {α β : Type} (x : M α) (f : α → M β) : M β := fun s =>
  match x s with
  | (.ok a, s') => f a s'
  | (.error e, s') => (.error e, s')

instance : Monad M where
  pure := M.pure
  bind := M.bind

variable {α β : Type} {x : M α} {f : α → M β} {s s' : St}

@[simp] theorem pure_apply (a : α) (s : St) : (pure a : M α) s = (.ok a, s) := rfl

theorem bind_of_ok {a : α} (h : x s = (.ok a, s')) : (x >>= f) s = f a s' := by
  show M.bind x f s = _
  rw [M.bind, h]

theorem bind_of_error {e : Fault} (h : x s = (.error e, s')) :
    (x >>= f) s = (.error e, s') := by
  show M.bind x f s = _
  rw [M.bind, h]

theorem bind_fst_of_error {e : Fault} (h : (x s).1 = .error e) : ((x >>= f) s).1 = .error e := by
  rcases hxs : x s with ⟨_ | a, s₁⟩ <;> rw [hxs] at h <;> cases h
  rw [bind_of_error hxs]

end M

/-- Appends `e` to the trace. -/
def emit (e : Event) : M Unit := fun s => (.ok (), { s with trace := s.trace ++ [e] })

/-- The current moment. -/
def time : M Nat := fun s => (.ok s.trace.length, s)

def halt {α : Type} (f : Fault) : M α := fun s => (.error f, s)

/-- `?` on a `Result`. -/
def ofExcept {α : Type} : Except Error α → M α
  | .ok a => pure a
  | .error e => halt (.err e)

/-- `match x.await { Ok(a) => .., Err(e) => .. }`: an `anyhow` error of `x` becomes a value; a
halt goes through. -/
def attempt {α : Type} (x : M α) : M (Except Error α) := fun s =>
  match x s with
  | (.ok a, s') => (.ok (.ok a), s')
  | (.error (.err e), s') => (.ok (.error e), s')
  | (.error f, s') => (.error f, s')

section
variable (W : World)

/-- Performs the operation `a`; its outcome is the world's. -/
def perform (a : Act) : M (Except Error Unit) := fun s =>
  (.ok ((W.result (acts s.trace) a).mapError .platform), { s with trace := s.trace ++ [.act a] })

/-- `check_stop_signal` of the runner at depth `d`, on its receiver `cm`. Modelled from the spec
(the trait `CheckStopSignal` is not in the source): a receive that does not block. A token sent
and not yet taken is taken, and the check fails with the cancellation error. -/
def checkStopSignal (d : Nat) (cm : Option Receiver) : M Unit := fun s =>
  match cm with
  | none => (.ok (), s)
  | some _ =>
    if s.consumed < W.sent s.trace.length then
      (.error (.err .stopped), ⟨s.trace ++ [.received d], s.consumed + 1⟩)
    else (.ok (), s)

end

/-! ## Events appended -/

/-- `x` only appends to the trace, and only events satisfying `Q`. -/
def Emits {α : Type} (Q : Event → Prop) (x : M α) : Prop :=
  ∀ s, ∃ new, (x s).2.trace = s.trace ++ new ∧ ∀ e ∈ new, Q e

namespace Emits

variable {Q : Event → Prop} {α β : Type}

theorem pure (a : α) : Emits Q (pure a : M α) := fun _ => ⟨[], by simp⟩

theorem halt (f : Fault) : Emits Q (halt f : M α) := fun _ => ⟨[], by simp [Bld.halt]⟩

theorem emit {e : Event} (h : Q e) : Emits Q (emit e) :=
  fun _ => ⟨[e], rfl, by simpa using h⟩

theorem time : Emits Q time := fun _ => ⟨[], by simp [Bld.time]⟩

theorem ofExcept (r : Except Error α) : Emits Q (ofExcept r) := by
  cases r
  · exact halt _
  · exact pure _

theorem perform {W : World} {a : Act} (h : Q (.act a)) : Emits Q (perform W a) :=
  fun _ => ⟨[.act a], rfl, by simpa using h⟩

theorem checkStopSignal {W : World} {d : Nat} {cm : Option Receiver} (h : Q (.received d)) :
    Emits Q (checkStopSignal W d cm) := by
  intro s
  unfold Bld.checkStopSignal
  split
  · exact ⟨[], by simp⟩
  · split
    · exact ⟨[.received d], rfl, by simpa using h⟩
    · exact ⟨[], by simp⟩

/-- `bind`, where the continuation is needed only at the values `x` can return. -/
theorem bind_of {x : M α} {f : α → M β} {P : α → Prop} (hx : Emits Q x)
    (hP : ∀ s a, (x s).1 = .ok a → P a) (hf : ∀ a, P a → Emits Q (f a)) :
    Emits Q (x >>= f) := by
  intro s
  obtain ⟨n₁, h₁, q₁⟩ := hx s
  rcases hxs : x s with ⟨_ | a, s₁⟩
  · rw [M.bind_of_error hxs]
    exact ⟨n₁, by rw [← h₁, hxs], q₁⟩
  · rw [M.bind_of_ok hxs]
    obtain ⟨n₂, h₂, q₂⟩ := hf a (hP s a (by rw [hxs])) s₁
    refine ⟨n₁ ++ n₂, by rw [h₂, show s₁ = (x s).2 by rw [hxs], h₁, List.append_assoc], ?_⟩
    simp only [List.mem_append]
    rintro e (he | he)
    exacts [q₁ e he, q₂ e he]

theorem bind {x : M α} {f : α → M β} (hx : Emits Q x) (hf : ∀ a, Emits Q (f a)) :
    Emits Q (x >>= f) :=
  bind_of (P := fun _ => True) hx (fun _ _ _ => trivial) fun a _ => hf a

theorem attempt {x : M α} (hx : Emits Q x) : Emits Q (attempt x) := by
  intro s
  obtain ⟨n, h, q⟩ := hx s
  refine ⟨n, ?_, q⟩
  unfold Bld.attempt
  split <;> simp_all

theorem forM {γ : Type} {f : γ → M PUnit} :
    ∀ {l : List γ}, (∀ c ∈ l, Emits Q (f c)) → Emits Q (l.forM f)
  | [], _ => pure _
  | c :: l, h => bind (h c (List.mem_cons_self c l))
      fun _ => forM fun c hc => h c (List.mem_cons_of_mem _ hc)

end Emits

/-! ## Halts avoided -/

/-- `x` never ends with the fault `f`. -/
def Avoids {α : Type} (f : Fault) (x : M α) : Prop := ∀ s, (x s).1 ≠ .error f

namespace Avoids

variable {f : Fault} {α β : Type}

theorem pure (a : α) : Avoids f (pure a : M α) := fun _ => Except.noConfusion

theorem emit (e : Event) : Avoids f (emit e) := fun _ => Except.noConfusion

theorem time : Avoids f time := fun _ => Except.noConfusion

theorem perform {W : World} (a : Act) : Avoids f (perform W a) := fun _ => Except.noConfusion

theorem halt {f' : Fault} (h : f' ≠ f) : Avoids f (halt f' : M α) :=
  fun _ he => h (Except.error.inj he)

theorem ofExcept (hf : ∀ e, f ≠ .err e) (r : Except Error α) : Avoids f (ofExcept r) := by
  cases r with
  | error e => exact halt (hf e).symm
  | ok a => exact pure a

theorem checkStopSignal (hf : ∀ e, f ≠ .err e) {W : World} {d : Nat} {cm : Option Receiver} :
    Avoids f (checkStopSignal W d cm) := by
  intro s
  unfold Bld.checkStopSignal
  split
  · exact Except.noConfusion
  · split
    · exact fun he => hf _ (Except.error.inj he).symm
    · exact Except.noConfusion

/-- `bind`, where the continuation is needed only at the values `x` can return. -/
theorem bind_of {x : M α} {g : α → M β} {P : α → Prop} (hx : Avoids f x)
    (hP : ∀ s a, (x s).1 = .ok a → P a) (hg : ∀ a, P a → Avoids f (g a)) :
    Avoids f (x >>= g) := by
  intro s
  rcases hxs : x s with ⟨_ | a, s₁⟩
  · rw [M.bind_of_error hxs]
    simpa [hxs] using hx s
  · rw [M.bind_of_ok hxs]
    exact hg a (hP s a (by rw [hxs])) s₁

theorem bind {x : M α} {g : α → M β} (hx : Avoids f x) (hg : ∀ a, Avoids f (g a)) :
    Avoids f (x >>= g) :=
  bind_of (P := fun _ => True) hx (fun _ _ _ => trivial) fun a _ => hg a

theorem attempt {x : M α} (hx : Avoids f x) : Avoids f (attempt x) := by
  intro s
  have := hx s
  unfold Bld.attempt
  split <;> simp_all

theorem forM {γ : Type} {g : γ → M PUnit} :
    ∀ {l : List γ}, (∀ c ∈ l, Avoids f (g c)) → Avoids f (l.forM g)
  | [], _ => pure _
  | c :: l, h => bind (h c (List.mem_cons_self c l))
      fun _ => forM fun c hc => h c (List.mem_cons_of_mem _ hc)

end Avoids

end Bld
