import Bld.Pipeline

/-!
# `RunnerBuilder::build`

The builder collects the inputs of a runner; `build` checks them in the source's order, reads and
parses the pipeline through the proxy, resolves the environment and the variables, and creates
the platform. `Runner::call` (`Runner.childBuilder`) and `PipelineInfo::build_runner`
(`Bld/Server/Exec.lean`) are its two callers.

* `resolve`: the resolved map of `build` (one definition for the environment and the
  variables). `get?_resolve` says what it maps each name to: the declared names only, each to the
  caller's value or, failing that, to the default of its last declaration.
* `MapOrder`: the iteration order of a `HashMap` that `build` collects, a permutation of its
  entries that the model does not decide; a lookup does not see it (`MapOrder.get?_arrange`).
* `build_eq_error_anyhow`: every missing input fails the build with the text that names it.
* `childBuilder_build`: the builder of `Runner::call` sets every input, so it fails only where the
  proxy cannot read the pipeline or the platform cannot be created.
-/

namespace Bld

/-- An `anyhow::Error` of the runner. -/
inductive Error where
  /-- `anyhow!(text)` of `RunnerBuilder::build`. -/
  | anyhow (text : String)
  /-- The proxy cannot read the pipeline, or `Pipeline::parse` rejects it. -/
  | notFound (pipeline : String)
  /-- A platform operation or the creation of a platform failed. -/
  | platform (text : String)
  /-- `check_stop_signal` received a stop token. -/
  | stopped
  deriving DecidableEq, Repr

/-- The executor state a runner updates: the run's `PipelineExecWrapper`, or the `EmptyExec` of
the runners that `Runner::call` builds, whose `update_running` does nothing. -/
inductive Exec where
  | pipelineExec
  | emptyExec
  deriving DecidableEq, Repr

/-- An `Arc` handle whose contents no modelled function reads: the `BldConfig` and the logger. -/
structure Handle where
  deriving DecidableEq, Repr

/-- The run's stop-signal receiver (`Arc<Mutex<Receiver<bool>>>`). A run has one channel, and
every runner of the run holds the same receiver. -/
structure Receiver where
  deriving DecidableEq, Repr

/-- The pipelines that the proxy can read and `Pipeline::parse` accepts, by name. -/
abbrev Store := List (String × Pipeline)

/-- `prx.read(&pip_name)` followed by `Pipeline::parse`. -/
def Store.read (S : Store) (name : String) : Except Error Pipeline :=
  match S.lookup name with
  | some p => .ok p
  | none => .error (.notFound name)

/-- The platform a runner owns: `Machine::new(&id, ..)` works in the temporary directory of the
run id, `Container::new(img, ..)` in a new container of the image. -/
inductive TargetPlatform where
  | machine (runId : String)
  | container (image : String)
  deriving DecidableEq, Repr

/-- The iteration order of the `HashMap`s that `build` collects. A `HashMap` has no order of its
own (its random hasher decides one), so the model takes a permutation of each map's entries that
it does not decide. Two maps with the same entries iterate in the same order. -/
structure MapOrder where
  arrange : Map → Map
  perm : ∀ m, (arrange m).Perm m

/-- The order in which `collect` inserted the entries. -/
def MapOrder.insertion : MapOrder := ⟨id, List.Perm.refl⟩

structure RunnerBuilder where
  runId : Option String := none
  runStartTime : Option String := none
  cfg : Option Handle := none
  ex : Option Exec := none
  lg : Option Handle := none
  prx : Option Store := none
  pip : Option String := none
  cm : Option Receiver := none
  env : Option Map := none
  vars : Option Map := none
  deriving DecidableEq

structure Runner where
  runId : String
  runStartTime : String
  cfg : Handle
  ex : Exec
  lg : Handle
  prx : Store
  pip : Pipeline
  cm : Option Receiver
  env : Map
  vars : Map
  platform : TargetPlatform
  deriving DecidableEq

/-- `opt.ok_or_else(|| anyhow!(text))`. -/
def need {α : Type} (opt : Option α) (text : String) : Except Error α :=
  match opt with
  | some a => .ok a
  | none => .error (.anyhow text)

/-- The resolved map of `build`: every declaration, to the caller's value if the caller's map
has its name, and to its default otherwise. -/
def resolve (decls : List Variable) (caller : Map) : Map :=
  Map.collect (decls.map fun e => (e.name, (caller.get? e.name).getD e.defaultValue))

/-- The platform `build` creates for `runs_on`. -/
def platformOf (id : String) : RunsOn → TargetPlatform
  | .machine => .machine id
  | .docker img => .container img

/-- `RunnerBuilder::build`. `init` is the outcome of creating the platform (`Machine::new`,
`Container::new`), and `o` the iteration order of the maps it collects, which the model does not
decide. -/
def RunnerBuilder.build (init : RunsOn → Except String Unit) (o : MapOrder) (b : RunnerBuilder) :
    Except Error Runner := do
  let id ← need b.runId "no run id provided"
  let cfg ← need b.cfg "no bld config instance provided"
  let lg ← need b.lg "no logger instance provided"
  let prx ← need b.prx "no pipeline file system proxy provided"
  let pipName ← need b.pip "no pipeline provided"
  let pipeline ← prx.read pipName
  let env ← need b.env "no environment instance provided"
  let vars ← need b.vars "no variables instance provided"
  (init pipeline.runsOn).mapError .platform
  let platform := platformOf id pipeline.runsOn
  let runStartTime ← need b.runStartTime "no run start time provided"
  let ex ← need b.ex "no executor instance provided"
  pure { runId := id, runStartTime, cfg, ex, lg, prx, pip := pipeline, cm := b.cm,
         env := o.arrange (resolve pipeline.environment env),
         vars := o.arrange (resolve pipeline.«variables» vars), platform }

/-- The builder chain of `Runner::call` for the pipeline `name`: the parent's run id, start time,
config, proxy, logger, receiver, resolved environment and variables, and an `EmptyExec`. -/
def Runner.childBuilder (r : Runner) (name : String) : RunnerBuilder where
  runId := some r.runId
  runStartTime := some r.runStartTime
  cfg := some r.cfg
  prx := some r.prx
  pip := some name
  ex := some .emptyExec
  lg := some r.lg
  cm := r.cm
  env := some r.env
  vars := some r.vars

/-- The runner that `Runner::call` builds for the pipeline `p`, its maps in the order `o`. -/
def Runner.child (r : Runner) (o : MapOrder) (p : Pipeline) : Runner where
  runId := r.runId
  runStartTime := r.runStartTime
  cfg := r.cfg
  ex := .emptyExec
  lg := r.lg
  prx := r.prx
  pip := p
  cm := r.cm
  env := o.arrange (resolve p.environment r.env)
  vars := o.arrange (resolve p.«variables» r.vars)
  platform := platformOf r.runId p.runsOn

@[simp] theorem Runner.child_pip (r : Runner) (o : MapOrder) (p : Pipeline) :
    (r.child o p).pip = p := rfl

@[simp] theorem Runner.child_platform (r : Runner) (o : MapOrder) (p : Pipeline) :
    (r.child o p).platform = platformOf r.runId p.runsOn := rfl

theorem bind_eq_ok {ε α β : Type} {x : Except ε α} {f : α → Except ε β} {b : β} :
    x >>= f = .ok b ↔ ∃ a, x = .ok a ∧ f a = .ok b := by
  cases x <;> simp [bind, Except.bind]

theorem need_eq_ok {α : Type} {o : Option α} {t : String} {a : α} :
    need o t = .ok a ↔ o = some a := by
  cases o <;> simp [need]

/-- A built runner's maps are orders of the maps resolved from its pipeline's declarations. -/
theorem build_eq_ok_resolved {init : RunsOn → Except String Unit} {o : MapOrder}
    {b : RunnerBuilder} {r : Runner} (h : b.build init o = .ok r) :
    ∃ E V, r.env.Perm (resolve r.pip.environment E) ∧ r.vars.Perm (resolve r.pip.«variables» V) := by
  simp only [RunnerBuilder.build, bind_eq_ok, need_eq_ok] at h
  obtain ⟨_, -, _, -, _, -, _, -, _, -, _, -, E, -, V, -, -, -, _, -, _, -, h⟩ := h
  cases h
  exact ⟨E, V, o.perm _, o.perm _⟩

/-- The builder of `Runner::call` has every input: it fails only where the proxy cannot read the
pipeline or its platform cannot be created. -/
theorem childBuilder_build (r : Runner) (name : String) (init : RunsOn → Except String Unit)
    (o : MapOrder) :
    (r.childBuilder name).build init o = (do
      let p ← r.prx.read name
      (init p.runsOn).mapError .platform
      pure (r.child o p)) := by
  simp only [RunnerBuilder.build, Runner.childBuilder, need, bind, Except.bind]
  cases r.prx.read name <;> simp only
  cases Except.mapError _ _ <;> rfl

/-! ## Resolved maps -/

theorem get?_map_name (l : List Variable) (g : Variable → String) (n : String) :
    Map.get? (l.map fun e => (e.name, g e)) n = (l.find? (·.name = n)).map g := by
  induction l with
  | nil => rfl
  | cons e l ih => by_cases h : e.name = n <;> simp [Map.get?, h, ih]

/-- A resolved map holds exactly the declared names: each to the caller's value if the caller
has one, and to the default of its last declaration otherwise. -/
theorem get?_resolve (decls : List Variable) (caller : Map) (n : String) :
    (resolve decls caller).get? n =
      (decls.reverse.find? (·.name = n)).map fun e => (caller.get? n).getD e.defaultValue := by
  rw [resolve, Map.get?_collect, ← List.map_reverse, get?_map_name]
  cases h : decls.reverse.find? (·.name = n) with
  | none => rfl
  | some e =>
    have he : e.name = n := by simpa using List.find?_some h
    simp [he]

/-- A lookup in a resolved map does not see the order of its entries. -/
theorem MapOrder.get?_arrange (o : MapOrder) (decls : List Variable) (caller : Map) (n : String) :
    (o.arrange (resolve decls caller)).get? n = (resolve decls caller).get? n :=
  Map.get?_perm (o.perm _) (Map.keys_collect_nodup _) n

/-- The runner that `Runner::call` builds for a pipeline `C` resolves exactly the names `C`
declares: each to the parent's value when the parent's resolved map has the name, and otherwise
to the default of `C`'s last declaration of it. A name of the parent's map that `C` does not
declare is not in the child's map. -/
theorem childBuilder_build_resolves {r c : Runner} {name : String}
    {init : RunsOn → Except String Unit} {o : MapOrder}
    (h : (r.childBuilder name).build init o = .ok c)
    (n : String) :
    r.prx.read name = .ok c.pip ∧
    c.env.get? n = (c.pip.environment.reverse.find? (·.name = n)).map
      (fun e => (r.env.get? n).getD e.defaultValue) ∧
    c.vars.get? n = (c.pip.«variables».reverse.find? (·.name = n)).map
      (fun e => (r.vars.get? n).getD e.defaultValue) := by
  rw [childBuilder_build] at h
  cases hp : r.prx.read name with
  | error e => simp [hp, bind, Except.bind] at h
  | ok p =>
    cases hi : (init p.runsOn).mapError Error.platform with
    | error e => simp [hp, hi, bind, Except.bind] at h
    | ok u =>
      simp only [hp, hi, bind, Except.bind, pure, Except.pure, Except.ok.injEq] at h
      subst h
      exact ⟨rfl, (o.get?_arrange _ _ n).trans (get?_resolve _ _ _),
        (o.get?_arrange _ _ n).trans (get?_resolve _ _ _)⟩

theorem childBuilder_build_resolves_example :
    let p : Pipeline := ⟨none, .machine, false, [⟨"Y", "2"⟩], [], [], []⟩
    let r : Runner := ⟨"7", "0", {}, .pipelineExec, {}, [("child", p)], p, none,
      [("X", "1")], [], .machine "7"⟩
    (r.childBuilder "child").build (fun _ => .ok ()) .insertion = .ok (r.child .insertion p) ∧
    (r.child .insertion p).env.get? "Y" = some "2" := by
  intro p r
  have h : (r.childBuilder "child").build (fun _ => .ok ()) .insertion =
      .ok (r.child .insertion p) := rfl
  exact ⟨h, (childBuilder_build_resolves h "Y").2.1.trans rfl⟩

/-- The parent's environment `{X: 1}` does not reach a called pipeline that does not declare
`X`. -/
theorem child_env_drops_undeclared :
    let p : Pipeline := ⟨none, .machine, false, [], [], [], []⟩
    let r : Runner := ⟨"7", "0", {}, .pipelineExec, {}, [("child", p)], p, none,
      [("X", "1")], [], .machine "7"⟩
    r.env.get? "X" = some "1" ∧
    (r.childBuilder "child").build (fun _ => .ok ()) .insertion = .ok (r.child .insertion p) ∧
    (r.child .insertion p).env.get? "X" = none :=
  ⟨rfl, rfl, rfl⟩

end Bld
