import Bld.Runner.Spec

/-!
# The trace of a run

* `run_eq_err_iff`: a run ends with an error exactly when it ends with its own dispose and that
  dispose fails; `run_eq_ok`: a run that ends and whose dispose cannot fail ends normally. The
  errors of the artifacts and of the steps are logged and dropped, so `await_child_err_iff`:
  awaiting a called runner in `Runner::call` fails only when the build of the runner failed or
  its dispose did.
* `run_executor_updates`: the executor state of the root receives `running = true` first,
  `running = false` at most once and then only the root's dispose follows, no other update, and
  `running = false` whenever the run ends.
* `child_run_disposes`: a called runner whose pipeline sets `dispose` ends, whenever it ends, with
  its dispose of the platform made for it.
* `child_machine_dispose`: a called runner whose pipeline sets `dispose` on the machine removes
  the run's temporary directory before its caller goes on.
-/

namespace Bld

variable (D : Definitions) (W : World)

namespace Runner

/-- A run with fuel halts out of fuel inside its guarded steps, or gets through them, and then
`persist_end` and the dispose follow. -/
theorem run_succ_cases (n d : Nat) (r : Runner) (s : St) :
    ∃ s', r.runSteps D W (run D W n (d + 1)) d
        { s with trace := s.trace ++ r.updates true ++ r.infoLines d } = (.error .outOfFuel, s') ∧
        r.run D W (n + 1) d s = (.error .outOfFuel, s') ∨
      r.runSteps D W (run D W n (d + 1)) d
        { s with trace := s.trace ++ r.updates true ++ r.infoLines d } = (.ok (), s') ∧
        r.run D W (n + 1) d s = r.dispose W d { s' with trace := s'.trace ++ r.updates false } := by
  have hp := run_noPanic D W (n + 1) d r s
  have hne := runSteps_ne_err D W (run D W n (d + 1)) d r
    { s with trace := s.trace ++ r.updates true ++ r.infoLines d }
  simp only [run] at hp ⊢
  rw [runBody_eq] at hp ⊢
  rcases h : r.runSteps D W (run D W n (d + 1)) d _ with ⟨f | ⟨⟩, s'⟩ <;> rw [h] at hp hne
  · cases f with
    | err e => exact absurd rfl (hne e)
    | panic => exact absurd rfl hp
    | outOfFuel => exact ⟨s', .inl ⟨rfl, rfl⟩⟩
  · exact ⟨s', .inr ⟨rfl, rfl⟩⟩

/-- A run that ends, ends with the outcome of its own dispose: it fails exactly when the
pipeline asks for a dispose, the dispose is the run's last event, and the platform fails it. -/
theorem run_eq_err_iff (n d : Nat) (r : Runner) (s : St) (e : Error) :
    (r.run D W n d s).1 = .error (.err e) ↔
      (r.run D W n d s).1 ≠ .error .outOfFuel ∧ r.pip.dispose = true ∧ ∃ T m,
        (r.run D W n d s).2.trace = T ++ [.act ⟨d, .dispose r.platform⟩] ∧
        W.result (acts T) ⟨d, .dispose r.platform⟩ = .error m ∧ e = .platform m := by
  cases n with
  | zero => simp [run]
  | succ n =>
    obtain ⟨s', ⟨-, hr⟩ | ⟨-, hr⟩⟩ := run_succ_cases D W n d r s
    · simp [hr]
    rw [hr, dispose_apply]
    split
    · rename_i hd
      simp only [hd, true_and, List.append_cancel_right_eq, exists_and_left, exists_eq_left']
      generalize W.result (acts (s'.trace ++ r.updates false)) ⟨d, .dispose r.platform⟩ = w
      cases w <;> simp [Except.mapError, eq_comm]
    · simp_all

/-- A run that ends, and whose dispose cannot fail, ends normally. -/
theorem run_eq_ok (n d : Nat) (r : Runner) (s : St)
    (hf : (r.run D W n d s).1 ≠ .error .outOfFuel)
    (hd : ∀ h, W.result h ⟨d, .dispose r.platform⟩ = .ok ()) : (r.run D W n d s).1 = .ok () := by
  rcases h : (r.run D W n d s).1 with (e | _ | _) | ⟨⟩
  · obtain ⟨-, -, T, m, -, hm, -⟩ := (run_eq_err_iff D W n d r s e).mp h
    rw [hd] at hm
    cases hm
  · exact absurd h (run_noPanic D W n d r s)
  · exact absurd h hf
  · rfl

/-- Awaiting a runner that `Runner::call` builds fails exactly when its build fails, or when its
run ends with its own dispose and that dispose fails. A failure in its artifacts or its steps (a
transfer, a command, a call of its own, a stop token) is logged by it and never reaches its
caller. -/
theorem await_child_err_iff (n d : Nat) (r : Runner) (name : String) (s : St) (e : Error) :
    let x := r.buildChild W d name >>= fun c => c.run D W n (d + 1)
    (x s).1 = .error (.err e) ↔
      (r.childBuilder name).build (W.init (s.trace.length + 1)) W.order = .error e ∨
      ∃ c, (r.childBuilder name).build (W.init (s.trace.length + 1)) W.order = .ok c ∧
        (x s).1 ≠ .error .outOfFuel ∧ c.pip.dispose = true ∧ ∃ T m,
          (x s).2.trace = T ++ [.act ⟨d + 1, .dispose c.platform⟩] ∧
          W.result (acts T) ⟨d + 1, .dispose c.platform⟩ = .error m ∧ e = .platform m := by
  intro x
  cases hc : (r.childBuilder name).build (W.init (s.trace.length + 1)) W.order with
  | error e' => simp [x, bind_apply, buildChild_apply, hc]
  | ok c =>
    have hx : x s = c.run D W n (d + 1) { s with trace := s.trace ++ [.build (d + 1) name] } := by
      simp [x, bind_apply, buildChild_apply, hc]
    rw [hx, run_eq_err_iff]
    simp

/-- The called runner's command `a` fails, and awaiting it succeeds: the root goes on with the
command `b` of its next step. -/
theorem child_failure_not_awaited :
    let child : Pipeline := ⟨none, .machine, false, [], [], [], [⟨none, none, [], ["a"]⟩]⟩
    let root : Pipeline := ⟨none, .machine, false, [], [], [],
      [⟨some "s1", none, ["child"], []⟩, ⟨none, none, [], ["b"]⟩]⟩
    let r : Runner := ⟨"7", "0", {}, .pipelineExec, {}, [("child", child)], root, none, [], [],
      .machine "7"⟩
    let W : World := ⟨fun _ a => if a.op = .sh (.machine "7") none "a" then .error "exit 1"
      else .ok (), fun _ _ => .ok (), fun _ => 0, .insertion⟩
    W.result [] ⟨1, .sh (.machine "7") none "a"⟩ = .error "exit 1" ∧
      ((r.buildChild W 0 "child" >>= fun c => c.run Definitions.bld W 2 1) ⟨[], 0⟩).1 = .ok () ∧
      acts (r.run Definitions.bld W 3 0 ⟨[], 0⟩).2.trace =
        [⟨1, .sh (.machine "7") none "a"⟩, ⟨0, .sh (.machine "7") none "b"⟩] :=
  ⟨rfl, rfl, by decide⟩

end Runner

/-! ## The executor's state -/

/-- The executor update that `e` is, if it is one. -/
def Event.running? : Event → Option Bool
  | .running b => some b
  | _ => none

/-- A platform operation, or the build of a runner that `Runner::call` starts. -/
def Event.isAction : Event → Bool
  | .act _ | .build _ _ => true
  | _ => false

/-- Every runner writes no executor update of its own: only `persist_start` and `persist_end`
do. -/
theorem own_noUpdate (d : Nat) : Own (fun e => e.running? = none) d :=
  ⟨⟨fun _ => rfl, fun _ => rfl, fun _ => rfl⟩, rfl⟩

namespace Runner

theorem infoLines_noUpdate (d : Nat) (r : Runner) : ∀ e ∈ r.infoLines d, e.running? = none := by
  unfold infoLines
  split <;> simp [Event.running?]

/-- A run of a runner with the pipeline executor writes `running = true`, then events that are no
executor update, then, unless it ran out of fuel, `running = false` and its own dispose. -/
theorem run_updates_shape (n d : Nat) (r : Runner) (hex : r.ex = .pipelineExec) (s : St) :
    ∃ M, (∀ e ∈ M, e.running? = none) ∧
      ((r.run D W (n + 1) d s).2.trace = s.trace ++ .running true :: M ∧
          (r.run D W (n + 1) d s).1 = .error .outOfFuel ∨
        (r.run D W (n + 1) d s).2.trace =
          s.trace ++ .running true :: M ++ .running false :: (r.disposeActs d).map .act) := by
  have hu : ∀ b, r.updates b = [.running b] := by simp [updates, hex]
  let s₀ : St := { s with trace := s.trace ++ r.updates true ++ r.infoLines d }
  obtain ⟨M, hM, hq⟩ := runSteps_emits D W r (own_noUpdate d)
    (fun _ => run_emits D W n (fun d' _ => own_noUpdate d') (by simp)) s₀
  refine ⟨r.infoLines d ++ M, fun e he => ?_, ?_⟩
  · rcases List.mem_append.mp he with he | he
    exacts [infoLines_noUpdate d r e he, hq e he]
  obtain ⟨s', ⟨h, hr⟩ | ⟨h, hr⟩⟩ := run_succ_cases D W n d r s <;> rw [h] at hM <;>
    dsimp only at hM
  · exact .inl ⟨by simp [hr, hM, s₀, hu], by rw [hr]⟩
  · exact .inr (by simp [hr, dispose_trace, hM, s₀, hu])

/-- The executor state of a run receives `running = true` first and before any platform operation
or build of a called runner, `running = false` at most once and then only the run's own dispose
follows, no other update (the runners that `Runner::call` builds have the `EmptyExec`
executor), and `running = false` whenever the run ends. -/
theorem run_executor_updates (n d : Nat) (r : Runner) (hex : r.ex = .pipelineExec) (s : St) :
    ∃ T, (r.run D W n d s).2.trace = s.trace ++ T ∧
      T.filterMap Event.running? <+: [true, false] ∧
      (∀ A e B, T = A ++ e :: B → e.isAction → .running true ∈ A) ∧
      (∀ A B, T = A ++ .running false :: B → B = (r.disposeActs d).map .act) ∧
      ((r.run D W n d s).1 ≠ .error .outOfFuel → .running false ∈ T) := by
  cases n with
  | zero => exact ⟨[], by simp [run], by simp, by simp, by simp, by simp [run]⟩
  | succ n =>
    have hM' : ∀ {M : List Event}, (∀ e ∈ M, e.running? = none) → .running false ∉ M :=
      fun hM h => Option.noConfusion (hM _ h)
    have hfirst : ∀ {L : List Event} A e B, .running true :: L = A ++ e :: B → e.isAction →
        .running true ∈ A := by
      rintro L (_ | ⟨a, A⟩) e B h he
      · cases (List.cons.inj h).1
        simp [Event.isAction] at he
      · simp [(List.cons.inj h).1]
    have hdis : ∀ e ∈ (r.disposeActs d).map Event.act, e.running? = none := by simp [Event.running?]
    obtain ⟨M, hM, ⟨ht, hf⟩ | ht⟩ := run_updates_shape D W n d r hex s
    · refine ⟨_, ht, by simp [List.filterMap_eq_nil_iff.mpr hM, Event.running?], hfirst,
        fun A B h => ?_, fun h => absurd hf h⟩
      have : Event.running false ∈ A ++ .running false :: B := by simp
      rw [← h] at this
      simp [hM' hM] at this
    · refine ⟨.running true :: (M ++ .running false :: (r.disposeActs d).map .act),
        by simpa using ht, ?_, hfirst, fun A B h => ?_, fun _ => by simp⟩
      · simp [List.filterMap_eq_nil_iff.mpr hM, List.filterMap_eq_nil_iff.mpr hdis,
          Event.running?]
      · have hx : Event.running false ∉ Event.running true :: M := by simp [hM' hM]
        exact ((List.append_cons_inj_of_not_mem hx (hM' hdis)).mp h).2.2.symm

theorem run_executor_updates_root :
    let r : Runner := ⟨"7", "0", {}, .pipelineExec, {}, [],
      ⟨none, .machine, true, [], [], [], [⟨none, none, [], ["a"]⟩]⟩, none, [], [], .machine "7"⟩
    let W : World := ⟨fun _ _ => .ok (), fun _ _ => .ok (), fun _ => 0, .insertion⟩
    r.ex = .pipelineExec ∧ ∃ T, (r.run Definitions.bld W 1 0 ⟨[], 0⟩).2.trace = [] ++ T ∧
      T.filterMap Event.running? <+: [true, false] ∧
      (∀ A e B, T = A ++ e :: B → e.isAction → .running true ∈ A) ∧
      (∀ A B, T = A ++ .running false :: B → B = (r.disposeActs 0).map .act) ∧
      ((r.run Definitions.bld W 1 0 ⟨[], 0⟩).1 ≠ .error .outOfFuel → .running false ∈ T) := by
  intro r W
  exact ⟨rfl, run_executor_updates Definitions.bld W 1 0 r rfl ⟨[], 0⟩⟩

/-! ## The dispose of a called runner -/

/-- Whenever the run of a runner that `Runner::call` built for a pipeline with `dispose` set ends,
its last event is its dispose of the platform that `platformOf` made for it: on a machine, the
machine of the run id it shares with its caller. `Runner::dispose` asks no question about being
a child. -/
theorem child_run_disposes (n d : Nat) (r : Runner) (p : Pipeline) (hd : p.dispose = true)
    (s : St) (hfin : ((r.child W.order p).run D W n d s).1 ≠ .error .outOfFuel) :
    ∃ T, ((r.child W.order p).run D W n d s).2.trace =
      T ++ [.act ⟨d, .dispose (platformOf r.runId p.runsOn)⟩] := by
  cases n with
  | zero => exact absurd rfl hfin
  | succ n =>
    obtain ⟨s', ⟨-, hr⟩ | ⟨-, hr⟩⟩ := run_succ_cases D W n d (r.child W.order p) s
    · exact absurd (by rw [hr]) hfin
    · rw [hr, dispose_trace]
      exact ⟨s'.trace, by simp [disposeActs, hd]⟩

theorem child_run_disposes_machine :
    let p : Pipeline := ⟨none, .machine, true, [], [], [], []⟩
    let r : Runner := ⟨"7", "0", {}, .pipelineExec, {}, [("p", p)], p, none, [], [], .machine "7"⟩
    let W : World := ⟨fun _ _ => .ok (), fun _ _ => .ok (), fun _ => 0, .insertion⟩
    p.dispose = true ∧ ((r.child W.order p).run Definitions.bld W 1 1 ⟨[], 0⟩).1 ≠ .error .outOfFuel ∧
      ∃ T, ((r.child W.order p).run Definitions.bld W 1 1 ⟨[], 0⟩).2.trace =
        T ++ [.act ⟨1, .dispose (platformOf "7" .machine)⟩] := by
  intro p r W
  have hfin : ((r.child W.order p).run Definitions.bld W 1 1 ⟨[], 0⟩).1 ≠ .error .outOfFuel :=
    fun h => Except.noConfusion (h : Except.ok () = _)
  exact ⟨rfl, hfin, child_run_disposes Definitions.bld W 1 1 r p rfl _ hfin⟩

/-- A root on the machine whose first step calls a pipeline with `dispose` set on the machine: the
called runner disposes the machine of the run (`machine.dispose()` removes the run's temporary
directory) before the root's second step runs its command, and the root disposes it again. -/
theorem child_machine_dispose :
    let child : Pipeline := ⟨none, .machine, true, [], [], [], [⟨none, none, [], ["a"]⟩]⟩
    let root : Pipeline := ⟨none, .machine, true, [], [], [],
      [⟨some "s1", none, ["child"], []⟩, ⟨none, none, [], ["b"]⟩]⟩
    let r : Runner := ⟨"7", "0", {}, .pipelineExec, {}, [("child", child)], root, none, [], [],
      .machine "7"⟩
    let W : World := ⟨fun _ _ => .ok (), fun _ _ => .ok (), fun _ => 0, .insertion⟩
    acts (r.run Definitions.bld W 3 0 ⟨[], 0⟩).2.trace =
      [⟨1, .sh (.machine "7") none "a"⟩, ⟨1, .dispose (.machine "7")⟩,
        ⟨0, .sh (.machine "7") none "b"⟩, ⟨0, .dispose (.machine "7")⟩] := by
  decide

end Runner

end Bld
