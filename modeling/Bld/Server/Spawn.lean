import Bld.Server.Exec
import Bld.Runner.Fuel

/-!
# The run thread of the exec socket (`PipelineInfo::spawn`)

`ExecutePipelineSocket::get_info` hands the run to `PipelineInfo::spawn`, which starts a thread:
it creates a `Runtime`, builds the root runner (`PipelineInfo::build_runner`, the builder with
every input set), runs it to its end, logs the run's own error, and only then removes the run id
from the pipeline pool. `Bld.Server.spawnThread` abstracts the thread to the outcomes of the
runtime and of the build; here the build is `RunnerBuilder.build` and the run is `Runner.run`,
with the fuel `n`: the thread is `none` while the run needs more fuel.

* `buildRunner_eq`: the builder of `build_runner` has every input, so the build fails only where
  the proxy cannot read the pipeline or the platform cannot be created; the root runner has the
  run's executor and the run's receiver.
* `spawn_refines`: a thread that ends does to the pool what `spawnThread` does with its outcomes.
* `spawn_ends`: when no chain of calls from the pipeline repeats a name, the thread ends for
  every fuel above the number of stored pipelines, whatever the outcomes of the run's operations
  and stop tokens, and removes the run id exactly when its runtime and its build succeeded.

The server whose run threads run their runners (`execRuns`, over `RunEvent`s) is the abstract
server of `Bld/Server/Exec.lean` with the thread outcomes that the runs give:

* `execRuns_refines`: whenever its threads ended, its pool is the abstract server's on the
  abstract events (`RunEvent.abs`), from one lemma per event (`RunEvent.step_refines`).
* `execRuns_mem_iff`: over every interleaving of acyclic runs, every thread ends, and a run id
  stays in the pool exactly when its frame got past the insert and a later call failed, the build
  of its runner included.
-/

namespace Bld

namespace Server

variable (D : Definitions) (W : World)

/-- The fields of `PipelineInfo` that `build_runner` reads, apart from the config and the logger,
which no modelled function reads. `get_info` gives every run its executor (`PipelineExecWrapper`)
and its receiver (`cm: Some(rx)`). -/
structure PipelineInfo where
  id : String
  startTime : String
  name : String
  prx : Store
  env : Map
  vars : Map

/-- The builder chain of `PipelineInfo::build_runner`. -/
def PipelineInfo.builder (info : PipelineInfo) : RunnerBuilder where
  runId := some info.id
  runStartTime := some info.startTime
  cfg := some {}
  prx := some info.prx
  pip := some info.name
  ex := some .pipelineExec
  lg := some {}
  cm := some {}
  env := some info.env
  vars := some info.vars

/-- `PipelineInfo::build_runner`, at the start of the thread. -/
def PipelineInfo.buildRunner (info : PipelineInfo) : Except Error Runner :=
  info.builder.build (W.init 0) W.order

/-- The root runner of the run of `info` on the pipeline `p`, its maps in the World's order. -/
def PipelineInfo.root (info : PipelineInfo) (p : Pipeline) : Runner where
  runId := info.id
  runStartTime := info.startTime
  cfg := {}
  ex := .pipelineExec
  lg := {}
  prx := info.prx
  pip := p
  cm := some {}
  env := W.order.arrange (resolve p.environment info.env)
  vars := W.order.arrange (resolve p.«variables» info.vars)
  platform := platformOf info.id p.runsOn

/-- The thread of `PipelineInfo::spawn` with the fuel `n` for the run: the pool after the thread,
or `none` while the run needs more fuel. `runtime` is the outcome of `Runtime::new`. -/
def PipelineInfo.spawn (runtime : Except String Unit) (n : Nat) (info : PipelineInfo)
    (pool : Pool) : Option Pool :=
  match runtime with
  | .error _ => some pool
  | .ok () =>
    match info.buildRunner W with
    | .error _ => some pool
    | .ok runner =>
      match (runner.run D W n 0 ⟨[], 0⟩).1 with
      | .error .outOfFuel => none
      | _ => some (pool.remove info.id)

/-- The outcomes of the thread that `spawnThread` reads. -/
def PipelineInfo.calls (runtime : Except String Unit) (info : PipelineInfo) (c : FrameCalls) :
    FrameCalls :=
  { c with runtime, build := if (info.buildRunner W).toBool then .ok () else .error "build" }

/-- No chain of calls from the pipeline of `info` repeats a name. -/
def PipelineInfo.Acyclic (info : PipelineInfo) : Prop :=
  ∀ p, info.prx.read info.name = .ok p → ∀ l, CallChain info.prx p l → l.Nodup

namespace PipelineInfo

variable (info : PipelineInfo)

/-- `build_runner` sets every input: it fails only where the proxy cannot read the pipeline or
its platform cannot be created, and builds the root runner otherwise. -/
theorem buildRunner_eq :
    info.buildRunner W = (do
      let p ← info.prx.read info.name
      (W.init 0 p.runsOn).mapError .platform
      pure (info.root W p)) := by
  simp only [buildRunner, RunnerBuilder.build, builder, need, bind, Except.bind]
  cases info.prx.read info.name <;> simp only
  cases Except.mapError _ _ <;> rfl

theorem buildRunner_ok {r : Runner} (h : info.buildRunner W = .ok r) :
    ∃ p, info.prx.read info.name = .ok p ∧ r = info.root W p := by
  simp only [buildRunner_eq, bind_eq_ok] at h
  obtain ⟨p, hp, -, -, h⟩ := h
  exact ⟨p, hp, (Except.ok.inj h).symm⟩

/-- A thread that ends does to the pool what `spawnThread` does with the outcomes of its runtime
and its build. -/
theorem spawn_refines (runtime : Except String Unit) (n : Nat) (pool p' : Pool) (c : FrameCalls)
    (h : info.spawn D W runtime n pool = some p') :
    p' = spawnThread (info.calls W runtime c) info.id pool := by
  unfold spawn at h
  unfold spawnThread calls
  rcases runtime with _ | ⟨⟩
  · cases h; rfl
  rcases hb : info.buildRunner W with _ | r <;> rw [hb] at h <;> simp only at h
  · cases h; rfl
  · split at h
    · cases h
    · cases h; rfl

/-- The run of the root of an acyclic pipeline does not run out of a fuel above the size of its
store. -/
theorem root_run_ne_outOfFuel (hA : info.Acyclic) {n : Nat} (hn : info.prx.length < n)
    {p : Pipeline} (hp : info.prx.read info.name = .ok p) :
    ((info.root W p).run D W n 0 ⟨[], 0⟩).1 ≠ .error .outOfFuel :=
  Runner.run_avoids_outOfFuel D W n 0 (info.root W p)
    (fun l hl => Nat.lt_of_le_of_lt (hl.length_le (hA p hp l hl)) hn) ⟨[], 0⟩

theorem spawn_ne_none (hA : info.Acyclic) (runtime : Except String Unit) {n : Nat}
    (hn : info.prx.length < n) (pool : Pool) : info.spawn D W runtime n pool ≠ none := by
  rcases runtime with _ | ⟨⟩
  · simp [spawn]
  rcases hb : info.buildRunner W with _ | r
  · simp [spawn, hb]
  obtain ⟨p, hp, rfl⟩ := info.buildRunner_ok W hb
  have hfin := info.root_run_ne_outOfFuel D W hA hn hp
  simp only [spawn, hb, hfin]
  nofun

end PipelineInfo

/-- When no chain of calls from the pipeline repeats a name, the run thread ends for every fuel
above the number of stored pipelines, whatever the outcomes of the run's operations, platform
creations and stop tokens; it removes the run id from the pool exactly when its runtime and its
runner build succeeded. -/
theorem spawn_ends (info : PipelineInfo)
    (hA : ∀ p, info.prx.read info.name = .ok p → ∀ l, CallChain info.prx p l → l.Nodup)
    (runtime : Except String Unit) (n : Nat) (hn : info.prx.length < n) (pool : Pool) :
    info.spawn D W runtime n pool =
      some (if runtime.toBool && (info.buildRunner W).toBool then pool.remove info.id else pool) := by
  rcases runtime with _ | ⟨⟩
  · rfl
  rcases hb : info.buildRunner W with _ | r
  · simp [PipelineInfo.spawn, hb, Except.toBool]
  obtain ⟨p, hp, rfl⟩ := info.buildRunner_ok W hb
  have hfin := info.root_run_ne_outOfFuel D W hA hn hp
  simp only [PipelineInfo.spawn, hb, hfin]
  rfl

theorem spawn_ends_two_pipelines :
    let child : Pipeline := ⟨none, .machine, true, [], [], [], [⟨none, none, [], ["a"]⟩]⟩
    let main : Pipeline := ⟨none, .machine, false, [], [], [], [⟨none, none, ["child"], []⟩]⟩
    let info : PipelineInfo := ⟨"run-1", "0", "main", [("main", main), ("child", child)], [], []⟩
    let W : World := ⟨fun _ _ => .error "exit 1", fun _ _ => .ok (), fun _ => 1, .insertion⟩
    (∀ p, info.prx.read info.name = .ok p → ∀ l, CallChain info.prx p l → l.Nodup) ∧
      info.prx.length < 3 ∧
      info.spawn Definitions.bld W (.ok ()) 3 ["run-1"] =
        some (if (Except.ok () : Except String Unit).toBool && (info.buildRunner W).toBool then
          Pool.remove info.id ["run-1"] else ["run-1"]) := by
  intro child main info W
  have hA : ∀ p, info.prx.read info.name = .ok p → ∀ l, CallChain info.prx p l → l.Nodup := by
    intro p hp l hl
    obtain rfl : p = main := Except.ok.inj (hp.symm.trans rfl)
    rcases l with _ | ⟨a, _ | ⟨b, l⟩⟩
    · exact List.nodup_nil
    · exact List.nodup_singleton a
    · obtain ⟨ha, q, hq, hb, -⟩ := hl
      obtain rfl : a = "child" := by simpa [main, Pipeline.calls] using ha
      obtain rfl : q = child := Except.ok.inj (hq.symm.trans rfl)
      simp [child, Pipeline.calls] at hb
  exact ⟨hA, by decide, spawn_ends Definitions.bld W info hA (.ok ()) 3 (by decide) ["run-1"]⟩

/-! ## The server with its run threads -/

/-- What can happen next in the server whose run threads run their runners: `handle` of a text
frame for the run `info`, whose calls return `c`, or the end of the run thread of `info`, which got
its runtime from `c`. -/
inductive RunEvent where
  | frame (c : FrameCalls) (info : PipelineInfo)
  | threadEnd (c : FrameCalls) (info : PipelineInfo)

namespace RunEvent

/-- The run an event is about. -/
def info : RunEvent → PipelineInfo
  | .frame _ info | .threadEnd _ info => info

/-- The pool after the event, with the fuel `n` for a run: `none` while the run needs more
fuel. -/
def step (n : Nat) (pool : Pool) : RunEvent → Option Pool
  | .frame c info => some (getInfo c info.id pool).2
  | .threadEnd c info => info.spawn D W c.runtime n pool

/-- The event of the abstract server: the frame's calls, with the outcome of the runner's
build. -/
def abs : RunEvent → Event
  | .frame c info => .frame (info.calls W c.runtime c) info.id
  | .threadEnd c info => .threadEnd (info.calls W c.runtime c) info.id

/-- The events of one frame for the run `info`, to the end of its thread: `handle` of the frame,
then the end of its thread when `get_info` returned `Ok`. -/
def own (c : FrameCalls) (info : PipelineInfo) : List RunEvent :=
  .frame c info :: if (getInfo c info.id []).1.toBool then [.threadEnd c info] else []

@[simp] theorem abs_id (e : RunEvent) : (e.abs W).id = e.info.id := by
  cases e <;> rfl

/-- `get_info` reads none of the calls of the run thread. -/
@[simp] theorem getInfo_calls (c : FrameCalls) (info : PipelineInfo) (runtime : Except String Unit)
    (id : String) (pool : Pool) : getInfo (info.calls W runtime c) id pool = getInfo c id pool :=
  rfl

theorem map_abs_own (c : FrameCalls) (info : PipelineInfo) :
    (own c info).map (·.abs W) = ownEvents (info.calls W c.runtime c) info.id := by
  unfold own ownEvents
  split <;> simp_all [abs]

theorem step_refines {n : Nat} {pool p' : Pool} {e : RunEvent} (h : e.step D W n pool = some p') :
    p' = Server.step pool (e.abs W) := by
  cases e with
  | frame c info => exact (Option.some.inj h).symm
  | threadEnd c info => exact info.spawn_refines D W c.runtime n pool p' c h

end RunEvent

/-- The pool after the events `es`, in order, with the fuel `n` for each run: `none` while a run
needs more fuel. -/
def execRuns (n : Nat) (pool : Pool) : List RunEvent → Option Pool
  | [] => some pool
  | e :: es => (e.step D W n pool).bind fun p => execRuns n p es

/-- The server with its run threads refines the abstract server: whenever its threads ended, its
pool is the abstract server's on the abstract events. -/
theorem execRuns_refines (n : Nat) :
    ∀ (pool p' : Pool) (es : List RunEvent), execRuns D W n pool es = some p' →
      p' = exec pool (es.map (·.abs W))
  | _, _, [], h => (Option.some.inj h).symm
  | pool, p', e :: es, h => by
    obtain ⟨p₁, h₁, h⟩ := Option.bind_eq_some.mp h
    rw [List.map_cons, exec, List.foldl_cons, ← RunEvent.step_refines D W h₁]
    exact execRuns_refines n p₁ p' es h

/-- Every run thread of acyclic runs ends for every fuel above the size of their stores. -/
theorem execRuns_ne_none {n : Nat} :
    ∀ (pool : Pool) (es : List RunEvent),
      (∀ c info, .threadEnd c info ∈ es → info.Acyclic ∧ info.prx.length < n) →
      execRuns D W n pool es ≠ none
  | _, [], _ => nofun
  | pool, e :: es, hends => by
    have hrest := fun pool => execRuns_ne_none pool es fun c info h =>
      hends c info (List.mem_cons_of_mem e h)
    cases e with
    | frame c info => exact hrest _
    | threadEnd c info =>
      obtain ⟨hA, hn⟩ := hends c info (List.mem_cons_self _ _)
      obtain ⟨p₁, h₁⟩ := Option.ne_none_iff_exists'.mp (info.spawn_ne_none D W hA c.runtime hn pool)
      simpa [execRuns, RunEvent.step, h₁] using hrest p₁

/-- Over every interleaving of text frames and ends of run threads in which every run is acyclic
and has a fuel above the size of its store: every thread ends, and once a frame with a fresh run
id and its thread, if it spawned one, have ended, the pool holds the run id exactly when the
frame got past the insert and a later call failed: the log file, the scanner, the runtime, or
the build of the runner (its pipeline cannot be read, or its platform cannot be created). -/
theorem execRuns_mem_iff (n : Nat) (pool : Pool) (es : List RunEvent) (c : FrameCalls)
    (info : PipelineInfo)
    (hends : ∀ c info, .threadEnd c info ∈ es → info.Acyclic ∧ info.prx.length < n)
    (hfresh : info.id ∉ pool) (hown : es.filter (·.info.id = info.id) = RunEvent.own c info) :
    ∃ p', execRuns D W n pool es = some p' ∧ (info.id ∈ p' ↔
      (c.beforeInsert.toBool &&
        !(c.afterInsert.toBool && c.runtime.toBool && (info.buildRunner W).toBool)) = true) := by
  obtain ⟨p', h⟩ := Option.ne_none_iff_exists'.mp (execRuns_ne_none D W pool es hends)
  have hfilter : (es.map (·.abs W)).filter (·.id = info.id) = ownEvents (info.calls W c.runtime c) info.id := by
    rw [List.filter_map, ← RunEvent.map_abs_own, ← hown]
    simp [Function.comp_def]
  refine ⟨p', h, ?_⟩
  rw [execRuns_refines D W n pool p' es h, mem_exec_filter info.id _ pool [] (by simp [hfresh]),
    hfilter, mem_exec_ownEvents]
  unfold FrameCalls.leaks PipelineInfo.calls
  cases (info.buildRunner W).toBool <;> rfl

/-- A frame whose calls all succeed, for a run whose pipeline the proxy no longer holds: the build
of its runner fails, and its run id stays in the pool. -/
theorem execRuns_mem_iff_unread :
    let c : FrameCalls := ⟨.ok (), .ok (), true, .ok (), .ok (), .ok (), .ok (), .ok (), .ok (),
      .ok ()⟩
    let info : PipelineInfo := ⟨"run-1", "0", "gone", [], [], []⟩
    let W : World := ⟨fun _ _ => .ok (), fun _ _ => .ok (), fun _ => 0, .insertion⟩
    let es : List RunEvent := [.frame c info, .threadEnd c info]
    (∀ c' info', .threadEnd c' info' ∈ es → info'.Acyclic ∧ info'.prx.length < 1) ∧
      info.id ∉ ([] : Pool) ∧ es.filter (·.info.id = info.id) = RunEvent.own c info ∧
      ∃ p', execRuns Definitions.bld W 1 [] es = some p' ∧ (info.id ∈ p' ↔
        (c.beforeInsert.toBool &&
          !(c.afterInsert.toBool && c.runtime.toBool && (info.buildRunner W).toBool)) = true) := by
  intro c info W es
  have hends : ∀ c' info', .threadEnd c' info' ∈ es → info'.Acyclic ∧ info'.prx.length < 1 := by
    intro c' info' h
    obtain ⟨-, rfl⟩ : c' = c ∧ info' = info := by simpa [es] using h
    exact ⟨fun p hp => Except.noConfusion (hp.symm.trans rfl), by decide⟩
  have hown : es.filter (·.info.id = info.id) = RunEvent.own c info := rfl
  exact ⟨hends, List.not_mem_nil _, hown,
    execRuns_mem_iff Definitions.bld W 1 [] es c info hends (List.not_mem_nil _) hown⟩

end Server

end Bld
