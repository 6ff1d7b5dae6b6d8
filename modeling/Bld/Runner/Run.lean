import Bld.Runner.Monad

/-!
# `Runner::run`

The runner's methods as computations in `M`, one definition per method of
`bld_runner/src/sync/runner.rs`, and one per loop body where a loop has one (`transferArtifact`,
`runCommand`, `callPipeline`, `runStep`). A method that awaits called runners takes the run of
a child as a parameter `runChild`; `Runner.run` ties the knot with fuel, which bounds how deep
the chain of runners built by `Runner::call` can go. A run that needs more fuel ends with
`Fault.outOfFuel`, and its trace is then a prefix of the run's.

The depth `d` of a runner is not a field of the source's `Runner`: it names the runner in the
trace (`0` for the root).
-/

namespace Bld

variable (D : Definitions) (W : World)

/-- `can_continue` of `Runner::artifacts`: the method is `PUSH` or `GET`, and both paths are
given. -/
def Artifact.canContinue (a : Artifact) : Bool :=
  (a.method == some D.push || a.method == some D.get) && a.«from».isSome && a.«to».isSome

namespace Runner

/-- `Runner::persist_start`: `update_running(true)`, which `EmptyExec` ignores. -/
def persistStart (r : Runner) : M Unit :=
  match r.ex with
  | .pipelineExec => emit (.running true)
  | .emptyExec => pure ()

/-- `Runner::persist_end`. -/
def persistEnd (r : Runner) : M Unit :=
  match r.ex with
  | .pipelineExec => emit (.running false)
  | .emptyExec => pure ()

/-- `Runner::info`. -/
def info (d : Nat) (r : Runner) : M Unit := do
  r.pip.name.forM fun name => emit (.log d (.pipeline name))
  emit (.log d (.runsOn r.pip.runsOn))

/-- The `match (&self.platform, &method[..])` of `Runner::artifacts`: `copy_into` for `PUSH`,
`copy_from` for `GET`, `unreachable!()` for any other method. -/
def transfer (d : Nat) (r : Runner) (method «from» «to» : String) : M (Except Error Unit) :=
  if method = D.push then perform W ⟨d, .push r.platform «from» «to»⟩
  else if method = D.get then perform W ⟨d, .get r.platform «from» «to»⟩
  else halt .panic

/-- One artifact of `Runner::artifacts`. -/
def transferArtifact (d : Nat) (r : Runner) (a : Artifact) : M Unit :=
  if a.canContinue D then do
    let method := r.applyContext D (a.method.getD "")
    let «from» := r.applyContext D (a.«from».getD "")
    let «to» := r.applyContext D (a.«to».getD "")
    emit (.log d (.copying «from» «to»))
    let result ← r.transfer D W d method «from» «to»
    if !a.ignoreErrors then ofExcept result else pure ()
  else pure ()

/-- `Runner::artifacts`: the artifacts anchored at `name`, in order. -/
def artifacts (d : Nat) (r : Runner) (name : Option String) : M Unit :=
  (r.pip.artifacts.filter (·.after == name)).forM (r.transferArtifact D W d)

/-- One command of `Runner::sh`. -/
def runCommand (d : Nat) (r : Runner) (step : BuildStep) (command : String) : M Unit := do
  let workingDir := step.workingDir.map (r.applyContext D)
  let command := r.applyContext D command
  ofExcept (← perform W ⟨d, .sh r.platform workingDir command⟩)
  checkStopSignal W d r.cm

/-- `Runner::sh`. -/
def sh (d : Nat) (r : Runner) (step : BuildStep) : M Unit :=
  step.commands.forM (r.runCommand D W d step)

/-- The builder chain and `build().await?` of `Runner::call`. -/
def buildChild (d : Nat) (r : Runner) (name : String) : M Runner := do
  emit (.build (d + 1) name)
  let t ← time
  ofExcept ((r.childBuilder name).build (W.init t) W.order)

/-- One pipeline of `Runner::call`: build its runner, await its run, check the stop signal. -/
def callPipeline (runChild : Runner → M Unit) (d : Nat) (r : Runner) (name : String) :
    M Unit := do
  let runner ← r.buildChild W d name
  runChild runner
  checkStopSignal W d r.cm

/-- `Runner::call`. -/
def call (runChild : Runner → M Unit) (d : Nat) (r : Runner) (step : BuildStep) : M Unit :=
  step.call.forM (r.callPipeline W runChild d)

/-- `Runner::step`. -/
def step (runChild : Runner → M Unit) (d : Nat) (r : Runner) (step : BuildStep) : M Unit := do
  step.name.forM fun name => emit (.log d (.step name))
  r.call W runChild d step
  r.sh D W d step

/-- One step of `Runner::steps`. -/
def runStep (runChild : Runner → M Unit) (d : Nat) (r : Runner) (s : BuildStep) : M Unit := do
  r.step D W runChild d s
  r.artifacts D W d s.name
  checkStopSignal W d r.cm

/-- `Runner::steps`. -/
def steps (runChild : Runner → M Unit) (d : Nat) (r : Runner) : M Unit :=
  r.pip.steps.forM (r.runStep D W runChild d)

/-- `Runner::dispose`. -/
def dispose (d : Nat) (r : Runner) : M Unit :=
  if r.pip.dispose then do ofExcept (← perform W ⟨d, .dispose r.platform⟩) else pure ()

/-- `match x.await { Ok(_) => k, Err(e) => self.dumpln(&e.to_string()) }` in `Runner::run`: an
error of `x` is logged and ends this part. `if let Err(e) = x.await` is the case `k = pure ()`. -/
def logErr (d : Nat) (x k : M Unit) : M Unit := do
  match ← attempt x with
  | .ok () => k
  | .error e => emit (.log d (.error e))

/-- The `match` of `Runner::run`: the artifacts before the steps, then the steps. -/
def runSteps (runChild : Runner → M Unit) (d : Nat) (r : Runner) : M Unit :=
  logErr d (r.artifacts D W d none) (logErr d (r.steps D W runChild d) (pure ()))

/-- The future that `Runner::run` returns. -/
def runBody (runChild : Runner → M Unit) (d : Nat) (r : Runner) : M Unit := do
  r.persistStart
  r.info d
  r.runSteps D W runChild d
  r.persistEnd
  r.dispose W d

/-- `runner.run().await.await` of the runner `r` at depth `d`; `fuel` bounds the depth of the
runners it builds. -/
def run : Nat → Nat → Runner → M Unit
  | 0, _, _ => halt .outOfFuel
  | fuel + 1, d, r => r.runBody D W (run fuel (d + 1)) d

end Runner

end Bld
