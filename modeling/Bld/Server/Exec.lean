import Mathlib.Data.List.Basic

/-!
# The pipeline pool of the exec socket (`bld_server/src/sockets/exec.rs`)

`ExecutePipelineSocket::get_info` handles a text frame: it parses the request, finds the pipeline,
records the run, creates its executor, then inserts a stop channel for the fresh run id into the
pool (`PipelinePool.senders`) and only then creates the run's log file and its scanner. On `Ok`,
`handle` spawns the run's thread (`PipelineInfo::spawn`), which creates a runtime, builds the
runner, runs it and removes the run id from the pool. Each `?` and each early `return` leaves
the pool as it is.

The pool is the list of its keys; the values (the senders) are not read by this code. A run of
the server is any interleaving of frames and of the ends of run threads.

* `mem_step_of_ne`: an event of another run id does not touch the entry of `id`.
* `pool_mem_iff_leaks`: over every interleaving, once a frame with a fresh run id and its thread
  (if it spawned one) have ended, the pool holds its id exactly when the frame got past the insert
  and a later call failed (`FileLogger::new`, `FileScanner::new`, `Runtime::new`, or the build of
  the runner).
* `pool_keeps_failed_frame`: a frame whose log file cannot be created leaves its run id in the
  pool, with no run behind it.
-/

namespace Bld

namespace Server

/-- The keys of `PipelinePool.senders`. -/
abbrev Pool := List String

/-- `HashMap::insert`: a key already there keeps its place. -/
def Pool.insert (id : String) (p : Pool) : Pool := if id ∈ p then p else p ++ [id]

/-- `HashMap::remove`. -/
def Pool.remove (id : String) (p : Pool) : Pool := p.filter (· ≠ id)

@[simp] theorem Pool.mem_insert {id x : String} {p : Pool} : x ∈ p.insert id ↔ x = id ∨ x ∈ p := by
  unfold Pool.insert
  split <;> simp_all [or_comm]

@[simp] theorem Pool.mem_remove {id x : String} {p : Pool} : x ∈ p.remove id ↔ x ≠ id ∧ x ∈ p := by
  simp [Pool.remove, and_comm]

/-- What the fallible calls return when one text frame is handled, in the order of `get_info`,
then of the run thread of `PipelineInfo::spawn`. -/
structure FrameCalls where
  /-- `serde_json::from_str::<ExecInfo>` -/
  parse : Except String Unit
  /-- `self.prx.path(&info.name)` -/
  path : Except String Unit
  /-- `path.is_yaml()` -/
  isYaml : Bool
  /-- `self.db_pool.get()` -/
  connection : Except String Unit
  /-- `pipeline_runs::insert` -/
  insertRun : Except String Unit
  /-- `PipelineExecWrapper::new` -/
  execWrapper : Except String Unit
  /-- `FileLogger::new(&logs)` -/
  logger : Except String Unit
  /-- `FileScanner::new(&logs)` -/
  scanner : Except String Unit
  /-- `Runtime::new()` -/
  runtime : Except String Unit
  /-- `self.build_runner().await` -/
  build : Except String Unit

/-- The calls of `get_info` before the sender is inserted into the pool. -/
def FrameCalls.beforeInsert (c : FrameCalls) : Except String Unit := do
  c.parse
  c.path
  if !c.isYaml then throw "pipeline file not found"
  c.connection
  c.insertRun
  c.execWrapper

/-- The calls of `get_info` after the sender is inserted into the pool. -/
def FrameCalls.afterInsert (c : FrameCalls) : Except String Unit := do
  c.logger
  c.scanner

/-- `ExecutePipelineSocket::get_info` for the fresh run id `id`: its result and the pool after
it. -/
def getInfo (c : FrameCalls) (id : String) (pool : Pool) : Except String Unit × Pool :=
  match c.beforeInsert with
  | .error e => (.error e, pool)
  | .ok () => (c.afterInsert, pool.insert id)

/-- The run thread of `PipelineInfo::spawn`, to its end: the run's own result is only logged. -/
def spawnThread (c : FrameCalls) (id : String) (pool : Pool) : Pool :=
  match c.runtime, c.build with
  | .ok (), .ok () => pool.remove id
  | _, _ => pool

/-- What can happen next in the server: `handle` of a text frame (`get_info`, then `spawn` on
`Ok`), or the end of the run thread that a frame spawned. -/
inductive Event where
  | frame (c : FrameCalls) (id : String)
  | threadEnd (c : FrameCalls) (id : String)

/-- The run id an event is about. -/
def Event.id : Event → String
  | .frame _ id | .threadEnd _ id => id

def step (pool : Pool) : Event → Pool
  | .frame c id => (getInfo c id pool).2
  | .threadEnd c id => spawnThread c id pool

/-- The pool after the events `es`, in order. -/
def exec (pool : Pool) (es : List Event) : Pool := es.foldl step pool

/-- The frame gets past the insert, and a later call fails: its run id stays in the pool with no
run behind it. -/
def FrameCalls.leaks (c : FrameCalls) : Bool :=
  c.beforeInsert.toBool && !(c.afterInsert.toBool && c.runtime.toBool && c.build.toBool)

/-- The events of one frame with the run id `id`, to the end of its thread: `handle` of the frame,
then the end of its thread when `get_info` returned `Ok`. -/
def ownEvents (c : FrameCalls) (id : String) : List Event :=
  .frame c id :: if (getInfo c id []).1.toBool then [.threadEnd c id] else []

/-! ## Other run ids -/

/-- An event about another run id leaves the entry of `id` as it is. -/
theorem mem_step_of_ne {id : String} {e : Event} (h : e.id ≠ id) (pool : Pool) :
    id ∈ step pool e ↔ id ∈ pool := by
  cases e with
  | frame c x =>
    simp only [Event.id] at h
    simp only [step, getInfo]
    split <;> simp [Ne.symm h]
  | threadEnd c x =>
    simp only [Event.id] at h
    simp only [step, spawnThread]
    split <;> simp [Ne.symm h]

/-- Whether `id` is in the pool after a run depends only on the events about `id`. -/
theorem mem_exec_filter (id : String) :
    ∀ (es : List Event) (p q : Pool), (id ∈ p ↔ id ∈ q) →
      (id ∈ exec p es ↔ id ∈ exec q (es.filter (·.id = id)))
  | [], _, _, h => h
  | e :: es, p, q, h => by
    by_cases he : e.id = id
    · have hstep : id ∈ step p e ↔ id ∈ step q e := by
        cases e with
        | frame c x =>
          simp only [Event.id] at he
          subst he
          simp only [step, getInfo]
          split <;> simp [h]
        | threadEnd c x =>
          simp only [Event.id] at he
          subst he
          simp only [step, spawnThread]
          split <;> simp [h]
      simpa [exec, he] using mem_exec_filter id es (step p e) (step q e) hstep
    · simpa [exec, he] using mem_exec_filter id es (step p e) q ((mem_step_of_ne he p).trans h)

/-! ## The frame's own events -/

/-- The pool after a frame's own events, from a pool without its run id, holds the id exactly
when the frame leaks. -/
theorem mem_exec_ownEvents (c : FrameCalls) (id : String) :
    id ∈ exec [] (ownEvents c id) ↔ c.leaks = true := by
  unfold ownEvents FrameCalls.leaks
  cases hb : c.beforeInsert with
  | error e => simp [exec, step, getInfo, hb, Except.toBool]
  | ok u =>
    cases ha : c.afterInsert with
    | error e => simp [exec, step, getInfo, hb, ha, Except.toBool]
    | ok v =>
      cases hr : c.runtime <;> cases hd : c.build <;>
        simp [exec, step, getInfo, spawnThread, hb, ha, hr, hd, Except.toBool]

/-- Over every interleaving of the server's events: once a frame with a fresh run id and its
thread, if it spawned one, have ended, the pool holds the run id exactly when the frame got past
the insert and a later call failed (`FileLogger::new`, `FileScanner::new`, `Runtime::new` or the
build of the runner). -/
theorem pool_mem_iff_leaks (pool : Pool) (es : List Event) (c : FrameCalls) (id : String)
    (hfresh : id ∉ pool) (hown : es.filter (·.id = id) = ownEvents c id) :
    id ∈ exec pool es ↔ c.leaks = true := by
  rw [mem_exec_filter id es pool [] (by simp [hfresh]), hown]
  exact mem_exec_ownEvents c id

theorem pool_mem_iff_leaks_two_frames :
    let c₁ : FrameCalls := ⟨.ok (), .ok (), true, .ok (), .ok (), .ok (), .error "no log file",
      .ok (), .ok (), .ok ()⟩
    let c₂ : FrameCalls := ⟨.ok (), .ok (), true, .ok (), .ok (), .ok (), .ok (), .ok (), .ok (),
      .ok ()⟩
    let es : List Event := [.frame c₁ "a", .frame c₂ "b", .threadEnd c₂ "b"]
    "a" ∉ ([] : Pool) ∧ es.filter (·.id = "a") = ownEvents c₁ "a" ∧
      ("a" ∈ exec [] es ↔ c₁.leaks = true) := by
  intro c₁ c₂ es
  have hown : es.filter (·.id = "a") = ownEvents c₁ "a" := rfl
  exact ⟨List.not_mem_nil _, hown, pool_mem_iff_leaks [] es c₁ "a" (List.not_mem_nil _) hown⟩

/-- A frame whose log file cannot be created: `get_info` fails after the insert, `handle` spawns
no thread, and the run id stays in the pool. -/
theorem pool_keeps_failed_frame :
    let c : FrameCalls := ⟨.ok (), .ok (), true, .ok (), .ok (), .ok (),
      .error "No such file or directory", .ok (), .ok (), .ok ()⟩
    (getInfo c "run-1" []).1 = .error "No such file or directory" ∧
      exec [] (ownEvents c "run-1") = ["run-1"] :=
  ⟨rfl, rfl⟩

end Server

end Bld
