import Bld.Runner.Run

/-!
# What each method of the runner does

One lemma per primitive and per method, so that the results about whole runs never unfold the
methods again.

* The primitives, as equations (`perform_apply`, `checkStopSignal_of_lt`, ...).
* `runBody_eq`: `Runner::run` is `persist_start`, `info`, the guarded steps, then, unless they
  halted, `persist_end` and `dispose`; `runSteps_ne_err`: the guarded steps never return an
  error, so the result of a run is the result of its `dispose`.
* `Emits` for every method, from what the runner's own events and its children's satisfy
  (`runSteps_emits`).
* `run_noPanic`: with the real constants' property (`Definitions.tokens_not_in_methods`), no run
  reaches the `unreachable!()` of `Runner::artifacts`.
-/

namespace Bld

variable (D : Definitions) (W : World)

/-! ## The primitives -/

section Primitives

variable {α β : Type} (s : St)

theorem bind_apply (x : M α) (f : α → M β) :
    (x >>= f) s = match x s with
      | (.ok a, s') => f a s'
      | (.error e, s') => (.error e, s') := rfl

@[simp] theorem emit_apply (e : Event) :
    emit e s = (.ok (), { s with trace := s.trace ++ [e] }) := rfl

@[simp] theorem time_apply : time s = (.ok s.trace.length, s) := rfl

@[simp] theorem halt_apply (f : Fault) : (halt f : M α) s = (.error f, s) := rfl

@[simp] theorem ofExcept_ok (a : α) : ofExcept (.ok a : Except Error α) s = (.ok a, s) := rfl

@[simp] theorem ofExcept_error (e : Error) :
    ofExcept (.error e : Except Error α) s = (.error (.err e), s) := rfl

@[simp] theorem perform_apply (a : Act) :
    perform W a s = (.ok ((W.result (acts s.trace) a).mapError .platform),
      { s with trace := s.trace ++ [.act a] }) := rfl

theorem checkStopSignal_none (d : Nat) : checkStopSignal W d none s = (.ok (), s) := rfl

theorem checkStopSignal_of_le (d : Nat) (c : Option Receiver)
    (h : W.sent s.trace.length ≤ s.consumed) : checkStopSignal W d c s = (.ok (), s) := by
  cases c
  · rfl
  · simp [checkStopSignal, Nat.not_lt.mpr h]

theorem checkStopSignal_of_lt (d : Nat) (c : Receiver) (h : s.consumed < W.sent s.trace.length) :
    checkStopSignal W d (some c) s =
      (.error (.err .stopped), ⟨s.trace ++ [.received d], s.consumed + 1⟩) := by
  simp [checkStopSignal, h]

/-- The check passes, or it takes a token and fails. -/
theorem checkStopSignal_cases (d : Nat) (c : Option Receiver) :
    checkStopSignal W d c s = (.ok (), s) ∨
      checkStopSignal W d c s =
        (.error (.err .stopped), ⟨s.trace ++ [.received d], s.consumed + 1⟩) := by
  cases c with
  | none => exact .inl rfl
  | some c =>
    by_cases h : s.consumed < W.sent s.trace.length
    · exact .inr (checkStopSignal_of_lt W s d c h)
    · exact .inl (checkStopSignal_of_le W s d _ (Nat.le_of_not_lt h))

theorem ofExcept_fst {x : Except Error α} {a : α} : (ofExcept x s).1 = .ok a ↔ x = .ok a := by
  cases x <;> simp

theorem attempt_of_ok {x : M α} {a : α} {s' : St} (h : x s = (.ok a, s')) :
    attempt x s = (.ok (.ok a), s') := by
  simp [attempt, h]

theorem attempt_of_err {x : M α} {e : Error} {s' : St} (h : x s = (.error (.err e), s')) :
    attempt x s = (.ok (.error e), s') := by
  simp [attempt, h]

theorem attempt_of_halt {x : M α} {f : Fault} {s' : St} (h : x s = (.error f, s'))
    (hf : ∀ e, f ≠ .err e) : attempt x s = (.error f, s') := by
  cases f <;> simp_all [attempt]

end Primitives

/-! ## `Runner::run` -/

namespace Runner

/-- The executor update `update_running(b)` of `r`: recorded only on the run's executor. -/
def updates (r : Runner) (b : Bool) : List Event :=
  match r.ex with
  | .pipelineExec => [.running b]
  | .emptyExec => []

/-- The lines of `Runner::info`. -/
def infoLines (d : Nat) (r : Runner) : List Event :=
  (match r.pip.name with
    | some name => [.log d (.pipeline name)]
    | none => []) ++ [.log d (.runsOn r.pip.runsOn)]

/-- The dispose of `r`, if its pipeline asks for it. -/
def disposeActs (d : Nat) (r : Runner) : List Act :=
  if r.pip.dispose then [⟨d, .dispose r.platform⟩] else []

@[simp] theorem acts_updates (r : Runner) (b : Bool) : acts (r.updates b) = [] := by
  unfold updates
  split <;> rfl

@[simp] theorem acts_infoLines (d : Nat) (r : Runner) : acts (r.infoLines d) = [] := by
  unfold infoLines
  split <;> rfl

theorem persistStart_apply (r : Runner) (s : St) :
    r.persistStart s = (.ok (), { s with trace := s.trace ++ r.updates true }) := by
  unfold persistStart updates
  cases r.ex <;> simp

theorem persistEnd_apply (r : Runner) (s : St) :
    r.persistEnd s = (.ok (), { s with trace := s.trace ++ r.updates false }) := by
  unfold persistEnd updates
  cases r.ex <;> simp

theorem info_apply (d : Nat) (r : Runner) (s : St) :
    r.info d s = (.ok (), { s with trace := s.trace ++ r.infoLines d }) := by
  unfold info infoLines
  cases r.pip.name <;> simp [bind_apply, Option.forM]

theorem dispose_trace (d : Nat) (r : Runner) (s : St) :
    (r.dispose W d s).2.trace = s.trace ++ (r.disposeActs d).map .act := by
  unfold dispose disposeActs
  split
  · simp only [bind_apply, perform_apply]
    cases (W.result _ _).mapError Error.platform <;> rfl
  · simp

theorem dispose_apply (d : Nat) (r : Runner) (s : St) :
    r.dispose W d s =
      if r.pip.dispose then
        ((W.result (acts s.trace) ⟨d, .dispose r.platform⟩).mapError fun m => .err (.platform m),
          { s with trace := s.trace ++ [.act ⟨d, .dispose r.platform⟩] })
      else (.ok (), s) := by
  unfold dispose
  split
  · simp only [bind_apply, perform_apply]
    cases W.result _ _ <;> rfl
  · rfl

/-- `Runner::run`: `persist_start`, `info`, the guarded steps and, unless they halted,
`persist_end` and `dispose`. -/
theorem runBody_eq (f : Runner → M Unit) (d : Nat) (r : Runner) (s : St) :
    r.runBody D W f d s =
      match r.runSteps D W f d { s with trace := s.trace ++ r.updates true ++ r.infoLines d } with
      | (.ok (), s') => r.dispose W d { s' with trace := s'.trace ++ r.updates false }
      | (.error e, s') => (.error e, s') := by
  simp only [runBody, bind_apply, persistStart_apply, info_apply]
  rcases r.runSteps D W f d _ with ⟨_ | ⟨⟩, s'⟩ <;> simp [bind_apply, persistEnd_apply]

/-- `logErr`: `k` after `x`, or the log line of the error of `x`; a halt of `x` goes through. -/
theorem logErr_apply (d : Nat) (x k : M Unit) (s : St) :
    logErr d x k s = match x s with
      | (.ok (), s') => k s'
      | (.error (.err e), s') => (.ok (), { s' with trace := s'.trace ++ [.log d (.error e)] })
      | (.error f, s') => (.error f, s') := by
  unfold logErr
  rw [bind_apply]
  rcases h : x s with ⟨f | ⟨⟩, s'⟩
  · cases f <;> simp [attempt, h]
  · simp [attempt, h]

theorem logErr_ne_err {d : Nat} {x k : M Unit} (hk : ∀ s e, (k s).1 ≠ .error (.err e)) (s : St)
    (e : Error) : (logErr d x k s).1 ≠ .error (.err e) := by
  rw [logErr_apply]
  rcases x s with ⟨f | ⟨⟩, s'⟩
  · cases f <;> simp
  · exact hk s' e

/-- The guarded steps catch every error: they end normally or halt. -/
theorem runSteps_ne_err (f : Runner → M Unit) (d : Nat) (r : Runner) (s : St) (e : Error) :
    (r.runSteps D W f d s).1 ≠ .error (.err e) :=
  logErr_ne_err (logErr_ne_err (fun _ _ => Except.noConfusion)) s e

theorem buildChild_apply (d : Nat) (r : Runner) (name : String) (s : St) :
    r.buildChild W d name s = ofExcept ((r.childBuilder name).build (W.init (s.trace.length + 1)) W.order)
      { s with trace := s.trace ++ [.build (d + 1) name] } := by
  simp [buildChild, bind_apply]

/-- The runners `buildChild` returns are children of `r`, for pipelines the proxy reads. -/
theorem buildChild_ok {d : Nat} {r c : Runner} {name : String} {s : St}
    (h : (r.buildChild W d name s).1 = .ok c) : ∃ p, r.prx.read name = .ok p ∧ c = r.child W.order p := by
  simp only [buildChild_apply, ofExcept_fst, childBuilder_build, bind_eq_ok] at h
  obtain ⟨p, hp, -, -, h⟩ := h
  exact ⟨p, hp, (Except.ok.inj h).symm⟩

end Runner

/-! ## Events of each method -/

/-- `Q` holds of every event that the runner at depth `d` writes itself outside its stop checks:
its log lines, its operations and the builds of the runners it calls. -/
structure OwnOps (Q : Event → Prop) (d : Nat) : Prop where
  log : ∀ l, Q (.log d l)
  act : ∀ o, Q (.act ⟨d, o⟩)
  build : ∀ name, Q (.build (d + 1) name)

/-- `Q` holds of every event that the runner at depth `d` writes itself, the stop tokens it takes
included. -/
structure Own (Q : Event → Prop) (d : Nat) extends OwnOps Q d : Prop where
  received : Q (.received d)

namespace Runner

theorem logErr_emits {Q : Event → Prop} {d : Nat} {x k : M Unit} (hl : ∀ l, Q (.log d l))
    (hx : Emits Q x) (hk : Emits Q k) : Emits Q (logErr d x k) :=
  (Emits.attempt hx).bind fun res => by
    rcases res with e | ⟨⟩
    exacts [Emits.emit (hl _), hk]

theorem persist_emits {Q : Event → Prop} (r : Runner) (b : Bool)
    (hu : ∀ b, ∀ e ∈ r.updates b, Q e) :
    Emits Q (if b then r.persistStart else r.persistEnd) := by
  intro s
  cases b
  · exact ⟨_, by simp [persistEnd_apply], hu false⟩
  · exact ⟨_, by simp [persistStart_apply], hu true⟩

section Emits

variable {Q : Event → Prop} {d : Nat} (r : Runner) {runChild : Runner → M Unit}

section Ops

variable (hQ : OwnOps Q d)

include hQ

theorem transferArtifact_emits (a : Artifact) : Emits Q (r.transferArtifact D W d a) := by
  unfold transferArtifact transfer
  split
  · refine (Emits.emit (hQ.log _)).bind fun _ => Emits.bind ?_ fun res => ?_
    · split
      · exact Emits.perform (hQ.act _)
      · split
        · exact Emits.perform (hQ.act _)
        · exact Emits.halt _
    · split
      · exact Emits.ofExcept _
      · exact Emits.pure _
  · exact Emits.pure _

theorem artifacts_emits (name : Option String) : Emits Q (r.artifacts D W d name) :=
  Emits.forM fun a _ => transferArtifact_emits D W r hQ a

theorem buildChild_emits (name : String) : Emits Q (r.buildChild W d name) :=
  (Emits.emit (hQ.build _)).bind fun _ => Emits.time.bind fun _ => Emits.ofExcept _

theorem info_emits : Emits Q (r.info d) := by
  intro s
  refine ⟨_, by rw [info_apply], ?_⟩
  simp only [infoLines, List.mem_append, List.mem_singleton]
  rintro e (he | rfl)
  · split at he <;> simp_all [hQ.log]
  · exact hQ.log _

theorem dispose_emits : Emits Q (r.dispose W d) := by
  unfold dispose
  split
  · exact (Emits.perform (hQ.act _)).bind fun _ => Emits.ofExcept _
  · exact Emits.pure _

end Ops

variable (hQ : Own Q d)

include hQ

theorem sh_emits (step : BuildStep) : Emits Q (r.sh D W d step) :=
  Emits.forM fun _ _ => (Emits.perform (hQ.act _)).bind fun _ =>
    (Emits.ofExcept _).bind fun _ => Emits.checkStopSignal hQ.received

variable (hc : ∀ p, Emits Q (runChild (r.child W.order p)))

include hc

theorem call_emits (step : BuildStep) : Emits Q (r.call W runChild d step) :=
  Emits.forM fun name _ =>
    (buildChild_emits W r hQ.toOwnOps name).bind_of (fun _ _ h => buildChild_ok W h)
      fun _ ⟨p, _, hp⟩ => hp ▸ (hc p).bind fun _ => Emits.checkStopSignal hQ.received

theorem step_emits (step : BuildStep) : Emits Q (r.step D W runChild d step) := by
  refine Emits.bind ?_ fun _ => (call_emits W r hQ hc step).bind fun _ => sh_emits D W r hQ step
  cases step.name
  · exact Emits.pure _
  · exact Emits.emit (hQ.log _)

theorem steps_emits : Emits Q (r.steps D W runChild d) :=
  Emits.forM fun step _ => (step_emits D W r hQ hc step).bind fun _ =>
    (artifacts_emits D W r hQ.toOwnOps _).bind fun _ => Emits.checkStopSignal hQ.received

theorem runSteps_emits : Emits Q (r.runSteps D W runChild d) :=
  logErr_emits hQ.log (artifacts_emits D W r hQ.toOwnOps none)
    (logErr_emits hQ.log (steps_emits D W r hQ hc) (Emits.pure _))

theorem runBody_emits (hu : ∀ b, ∀ e ∈ r.updates b, Q e) : Emits Q (r.runBody D W runChild d) :=
  (persist_emits r true hu).bind fun _ => (info_emits r hQ.toOwnOps).bind fun _ =>
    (runSteps_emits D W r hQ hc).bind fun _ => (persist_emits r false hu).bind fun _ =>
      dispose_emits W r hQ.toOwnOps

end Emits

/-- The updates of a runner that `Runner::call` built: none (`EmptyExec`). -/
@[simp] theorem updates_child (r : Runner) (p : Pipeline) (b : Bool) : (r.child W.order p).updates b = [] :=
  rfl

/-- `Q` holds of every event of a run whose runners all satisfy `Own Q` and whose root's
executor updates satisfy `Q`. -/
theorem run_emits {Q : Event → Prop} :
    ∀ (n : Nat) {d : Nat} {r : Runner}, (∀ d', d ≤ d' → Own Q d') →
      (∀ b, ∀ e ∈ r.updates b, Q e) → Emits Q (r.run D W n d)
  | 0, _, _, _, _ => Emits.halt _
  | n + 1, d, r, hQ, hu =>
    runBody_emits D W r (hQ d (Nat.le_refl d))
      (fun p => run_emits n (fun d' hd' => hQ d' (Nat.le_of_succ_le hd')) (by simp)) hu

/-! ## Halts avoided by each method -/

theorem logErr_avoids {f : Fault} {d : Nat} {x k : M Unit} (hx : Avoids f x) (hk : Avoids f k) :
    Avoids f (logErr d x k) :=
  (Avoids.attempt hx).bind fun res => by
    rcases res with e | ⟨⟩
    exacts [Avoids.emit _, hk]

theorem canContinue_method {a : Artifact} (h : a.canContinue D = true) :
    a.method.getD "" ∈ [D.push, D.get] := by
  simp only [Artifact.canContinue, Bool.and_eq_true, Bool.or_eq_true, beq_iff_eq] at h
  rcases h.1.1 with h | h <;> simp [h]

/-- `transfer` of a method `PUSH` or `GET` performs the operation: the `unreachable!()` arm is
not taken. -/
theorem transfer_avoids {f : Fault} (r : Runner) (d : Nat) {m : String} (hm : m ∈ [D.push, D.get])
    («from» «to» : String) : Avoids f (r.transfer D W d m «from» «to») := by
  unfold transfer
  split
  · exact Avoids.perform _
  · split
    · exact Avoids.perform _
    · simp_all

section Avoids

variable {f : Fault} (hf : ∀ e, f ≠ .err e) (r : Runner) {runChild : Runner → M Unit} {d : Nat}

include hf

theorem transferArtifact_avoids (a : Artifact) : Avoids f (r.transferArtifact D W d a) := by
  unfold transferArtifact
  split
  · refine (Avoids.emit _).bind fun _ => Avoids.bind ?_ fun res => ?_
    · exact transfer_avoids D W r d
        ((applyContext_method D r (canContinue_method D ‹_›)).symm ▸ canContinue_method D ‹_›) _ _
    · split
      · exact Avoids.ofExcept hf _
      · exact Avoids.pure _
  · exact Avoids.pure _

theorem artifacts_avoids (name : Option String) : Avoids f (r.artifacts D W d name) :=
  Avoids.forM fun a _ => transferArtifact_avoids D W hf r a

theorem sh_avoids (step : BuildStep) : Avoids f (r.sh D W d step) :=
  Avoids.forM fun _ _ => (Avoids.perform _).bind fun _ =>
    (Avoids.ofExcept hf _).bind fun _ => Avoids.checkStopSignal hf

theorem buildChild_avoids (name : String) : Avoids f (r.buildChild W d name) :=
  (Avoids.emit _).bind fun _ => Avoids.time.bind fun _ => Avoids.ofExcept hf _

theorem dispose_avoids : Avoids f (r.dispose W d) := by
  unfold dispose
  split
  · exact (Avoids.perform _).bind fun _ => Avoids.ofExcept hf _
  · exact Avoids.pure _

variable (hc : ∀ name ∈ r.pip.calls, ∀ p, r.prx.read name = .ok p →
  Avoids f (runChild (r.child W.order p)))

include hc

theorem steps_avoids : Avoids f (r.steps D W runChild d) := by
  refine Avoids.forM fun step hs => ?_
  have hcall : Avoids f (r.call W runChild d step) :=
    Avoids.forM fun name hn => (buildChild_avoids W hf r name).bind_of
      (fun _ _ h => buildChild_ok W h) fun _ ⟨p, hp, hcp⟩ => hcp ▸
        (hc name (List.mem_flatMap.mpr ⟨step, hs, hn⟩) p hp).bind fun _ =>
          Avoids.checkStopSignal hf
  refine ((Avoids.bind ?_ fun _ => hcall.bind fun _ => sh_avoids D W hf r step).bind fun _ =>
    (artifacts_avoids D W hf r _).bind fun _ => Avoids.checkStopSignal hf)
  cases step.name
  · exact Avoids.pure _
  · exact Avoids.emit _

theorem runBody_avoids : Avoids f (r.runBody D W runChild d) := by
  have hsteps : Avoids f (r.runSteps D W runChild d) :=
    logErr_avoids (artifacts_avoids D W hf r none)
      (logErr_avoids (steps_avoids D W hf r hc) (Avoids.pure _))
  have hp : ∀ b : Bool, Avoids f (if b then r.persistStart else r.persistEnd) := by
    intro b s
    cases b <;> simp [persistStart_apply, persistEnd_apply]
  have hi : Avoids f (r.info d) := fun s => by
    rw [info_apply]
    exact Except.noConfusion
  exact (hp true).bind fun _ => hi.bind fun _ => hsteps.bind fun _ => (hp false).bind fun _ =>
    dispose_avoids W hf r

end Avoids

/-- No run takes the `unreachable!()` arm of `Runner::artifacts`. -/
theorem run_noPanic : ∀ (n d : Nat) (r : Runner), Avoids .panic (r.run D W n d)
  | 0, _, _ => Avoids.halt (by decide)
  | n + 1, d, r => runBody_avoids D W (by simp) r fun _ _ p _ => run_noPanic n (d + 1) (r.child W.order p)

/-- A text holding none of the tokens is a fixed point of `apply_context`, whatever the run id, the
start time and the maps. So are the methods `PUSH` and `GET`, and no run reaches the
`unreachable!()` arm of `Runner::artifacts`. -/
theorem applyContext_fixed_noPanic (r : Runner) (txt : String) (h : r.NoTokens D txt) :
    r.applyContext D txt = txt ∧ (∀ m ∈ [D.push, D.get], r.applyContext D m = m) ∧
      ∀ n d s, (r.run D W n d s).1 ≠ .error .panic :=
  ⟨applyContext_of_noTokens D h, fun _ hm => applyContext_method D r hm,
    fun n d s => run_noPanic D W n d r s⟩

theorem applyContext_fixed_noPanic_echo :
    let r : Runner := ⟨"7", "0", {}, .pipelineExec, {}, [],
      ⟨none, .machine, false, [⟨"X", "1"⟩], [], [], []⟩, none, [("X", "2")], [], .machine "7"⟩
    let W : World := ⟨fun _ _ => .ok (), fun _ _ => .ok (), fun _ => 0, .insertion⟩
    r.NoTokens Definitions.bld "echo bld:env:Y" ∧
      r.applyContext Definitions.bld "echo bld:env:Y" = "echo bld:env:Y" ∧
      (∀ m ∈ [Definitions.bld.push, Definitions.bld.get], r.applyContext Definitions.bld m = m) ∧
      ∀ n d s, (r.run Definitions.bld W n d s).1 ≠ .error .panic := by
  intro r W
  have h : r.NoTokens Definitions.bld "echo bld:env:Y" := by decide
  exact ⟨h, applyContext_fixed_noPanic Definitions.bld W r _ h⟩

end Runner

end Bld
