import Bld.Runner.Cancel
import Bld.Runner.Flatten

/-!
# Failures of a runner's own operations

`Runner::steps` leaves at the first `?` that fails in the runner itself: a command of
`Runner::sh`, a transfer of `Runner::artifacts` whose artifact does not ignore errors, or the
`build().await?` of a runner in `Runner::call`. `Runner::run` logs that error, and then only
`persist_end` and the dispose follow. A failure inside a runner that it calls is logged by that
runner and ends nothing here (`Bld/Runner/Trace.lean`).

* `ownItems D d r`: the operations of `r` itself, in the order its steps perform them, each with
  whether its failure ends the steps: its transfers (fatal unless the artifact ignores errors) and
  its commands (always fatal). The runner's operations at depth `d` come from these items one
  after the other, so the number of them written so far is the place of the next one's item: two
  artifacts that make the same transfer are told apart.
* `Fails D W d r T A e err`: the event `e`, written after the trace `T` and after `A` since the
  run began, is such a failure of the runner `r` at depth `d`, with the error `err`: the
  operation of the own item after those in `A`, when that item is fatal and the platform fails
  it, or the build of a runner that `r` calls (`FailsAt` for the items of a part of the run).
* `Performs W d r items x`: `x` performs the own items `items` of `r` at most, all of them when it
  ends normally, and once it writes a failure of `r` it writes nothing more and fails with its
  error. It is closed under `bind` and `forM` (the items concatenate), and the steps of a runner
  perform its own items (`steps_performs`).
* `run_after_own_failure`: once a runner's own command, fatal transfer, or build of a runner it
  calls fails, its run writes the log line of that error, `persist_end` and its own dispose, and
  nothing else: no further step, call, command or transfer of it or of a runner it calls.
* `run_after_error_line`: whatever the cause of the error a runner logs (a failure of its own, a
  stop token it took, the failed dispose of a runner it called), only `persist_end` and its own
  dispose follow the line: a runner logs at most one error of its own.
-/

namespace Bld

variable (D : Definitions) (W : World)

/-- `e`, in neither `P` nor `Q`, occurs in `P ++ N ++ Q` only inside `N`, after all of `P`. -/
theorem append_eq_append_cons_inside {P N Q A B : List Event} {e : Event} (hP : e ∉ P)
    (hQ : e ∉ Q) (h : P ++ N ++ Q = A ++ e :: B) :
    ∃ A' B', A = P ++ A' ∧ N = A' ++ e :: B' ∧ B = B' ++ Q := by
  rw [List.append_assoc] at h
  rcases append_eq_append_cons h with ⟨B₁, hP', -⟩ | ⟨A₂, hA, h⟩
  · exact absurd (hP' ▸ by simp) hP
  rcases append_eq_append_cons h with ⟨B₁, hN, hB⟩ | ⟨A₃, -, hQ'⟩
  · exact ⟨A₂, B₁, hA, hN, hB⟩
  · exact absurd (hQ' ▸ by simp) hQ

/-! ## Failures that end the steps -/

/-- The number of operations at depth `d` in the trace `T`. -/
def ownCount (d : Nat) (T : List Event) : Nat := (acts T).countP (·.depth = d)

@[simp] theorem ownCount_nil (d : Nat) : ownCount d [] = 0 := rfl

@[simp] theorem ownCount_append (d : Nat) (T T' : List Event) :
    ownCount d (T ++ T') = ownCount d T + ownCount d T' := by
  simp [ownCount]

theorem ownCount_act_cons {d : Nat} {a : Act} (h : a.depth = d) (T : List Event) :
    ownCount d (.act a :: T) = ownCount d T + 1 := by
  simp [ownCount, h]

/-- An event written before `e` and `e` count no more operations at depth `d` than the whole. -/
theorem ownCount_le_of_eq {d : Nat} {N A B : List Event} {e : Event} (h : N = A ++ e :: B) :
    ownCount d (A ++ [e]) ≤ ownCount d N := by
  rw [h, show A ++ e :: B = A ++ [e] ++ B by simp]
  simp only [ownCount_append]
  omega

/-- The event `e` is neither an operation at depth `d` nor the build of a runner that the runner
at depth `d` calls. -/
def Event.Quiet (d : Nat) : Event → Prop
  | .act a => a.depth ≠ d
  | .build d' _ => d' ≠ d + 1
  | _ => True

theorem ownCount_eq_zero {d : Nat} {N : List Event} (h : ∀ e ∈ N, e.Quiet d) : ownCount d N = 0 := by
  simp only [ownCount, acts, List.countP_eq_zero, List.mem_filterMap, decide_eq_true_eq]
  rintro a ⟨e, he, ha⟩
  cases e <;> simp only [Event.act?, reduceCtorEq, Option.some.injEq] at ha
  exact ha ▸ h _ he

namespace Runner

/-- The operations of `r` itself at depth `d`, in the order its steps perform them, each with
whether its failure ends the steps of `r`: `items` without the runners that `r` calls. -/
def ownItems (d : Nat) (r : Runner) : List (Act × Bool) :=
  r.artifactItems D d none ++ r.pip.steps.flatMap fun s =>
    s.commands.map (fun c => (r.shAct D d s c, true)) ++ r.artifactItems D d s.name

/-- The event `e`, written after the trace `T` and after `A` since the start of a computation of
`r` at depth `d` that performs the own operations `items`, ends the steps of `r` with the error
`err`: the operation of the item that comes after the operations of `r` in `A`, when that item is
fatal and the platform fails it, or the build of a runner that `r` calls, which fails at the
moment after its event. -/
def FailsAt (d : Nat) (r : Runner) (items : List (Act × Bool)) (T A : List Event) :
    Event → Error → Prop
  | .act a, err => a.depth = d ∧ items[ownCount d A]? = some (a, true) ∧
      ∃ m, W.result (acts T) a = .error m ∧ err = .platform m
  | .build d' name, err =>
    d' = d + 1 ∧ (r.childBuilder name).build (W.init (T.length + 1)) W.order = .error err
  | _, _ => False

/-- The event `e` of a run of `r` at depth `d`, written after the trace `T` and after `A` since the
run began, ends the steps of `r` with the error `err`: the operation of the own item of `r` after
the operations of `r` in `A`, when that item is a command or a transfer whose artifact does not
ignore errors and the platform fails it, or the build of a runner that `r` calls. -/
def Fails (d : Nat) (r : Runner) (T A : List Event) (e : Event) (err : Error) : Prop :=
  r.FailsAt W d (r.ownItems D d) T A e err

section FailsAt

variable {W} {d : Nat} {r : Runner} {I J : List (Act × Bool)} {T A : List Event} {e : Event}
  {err : Error}

/-- An event inside the first part `N` of a computation ends the steps at the items of that part. -/
theorem FailsAt.left {N B : List Event} (h : r.FailsAt W d (I ++ J) T A e err)
    (hN : N = A ++ e :: B) (hc : ownCount d N ≤ I.length) : r.FailsAt W d I T A e err := by
  cases e
  case act a =>
    obtain ⟨hd, hi, hm⟩ := h
    have hlt : ownCount d A < I.length := by
      have := ownCount_le_of_eq (d := d) hN
      rw [ownCount_append, ownCount_act_cons hd] at this
      omega
    exact ⟨hd, (List.getElem?_append_left hlt).symm.trans hi, hm⟩
  all_goals exact h

/-- An event after a first part `N` that performed the items `I` ends the steps at the items of
the rest. -/
theorem FailsAt.right {N : List Event} (h : r.FailsAt W d (I ++ J) T (N ++ A) e err)
    (hN : ownCount d N = I.length) : r.FailsAt W d J T A e err := by
  cases e
  case act a =>
    obtain ⟨hd, hi, hm⟩ := h
    rw [ownCount_append, hN, List.getElem?_append_right (Nat.le_add_right _ _),
      Nat.add_sub_cancel_left] at hi
    exact ⟨hd, hi, hm⟩
  all_goals exact h

/-- With no items, only the build of a called runner ends the steps. -/
theorem FailsAt.not_quiet (h : r.FailsAt W d [] T A e err) : ¬ e.Quiet d := by
  cases e
  case act a => exact absurd h.2.1 (by simp)
  case build d' _ => exact fun hq => hq h.1
  all_goals exact h.elim

end FailsAt

/-- The operations that `r` performs itself are no disposes. -/
theorem ownItems_ne_dispose {d : Nat} (r : Runner) {x : Act × Bool} (hx : x ∈ r.ownItems D d)
    (p : TargetPlatform) : x.1 ≠ ⟨d, .dispose p⟩ := by
  have ha : ∀ name, ∀ y ∈ r.artifactItems D d name, y.1 ≠ ⟨d, .dispose p⟩ := by
    intro name y hy
    simp only [artifactItems, List.mem_flatMap] at hy
    obtain ⟨a, -, hy⟩ := hy
    split at hy
    · rw [List.mem_singleton.mp hy]
      unfold transferAct
      split <;> simp
    · cases hy
  simp only [ownItems, List.mem_append, List.mem_flatMap, List.mem_map] at hx
  rcases hx with hx | ⟨s, -, ⟨c, -, rfl⟩ | hx⟩
  · exact ha _ x hx
  · simp [shAct]
  · exact ha _ x hx

end Runner

/-- `x` performs the own operations `items` of the runner `r` at depth `d`: it writes at most as
many operations at depth `d` as `items` has, all of them when it ends normally, and once it writes
an event that ends the steps of `r` there (`FailsAt`), it writes nothing more and fails with its
error. -/
def Performs {α : Type} (d : Nat) (r : Runner) (items : List (Act × Bool)) (x : M α) : Prop :=
  ∀ s, ∃ N, (x s).2.trace = s.trace ++ N ∧ ownCount d N ≤ items.length ∧
    (∀ a, (x s).1 = .ok a → ownCount d N = items.length) ∧
    ∀ A e B err, N = A ++ e :: B → r.FailsAt W d items (s.trace ++ A) A e err →
      B = [] ∧ (x s).1 = .error (.err err)

namespace Performs

variable {W} {d : Nat} {r : Runner} {I J : List (Act × Bool)} {α β : Type}

/-- A computation that writes no operation of `r` and no build of a runner it calls. -/
theorem of_emits {x : M α} (hx : Emits (Event.Quiet d) x) : Performs W d r [] x := fun s =>
  let ⟨N, hN, q⟩ := hx s
  have hc : ownCount d N = 0 := ownCount_eq_zero q
  ⟨N, hN, hc.le, fun _ _ => hc, fun A e B _ h hf =>
    absurd (q e (h ▸ List.mem_append_right A (List.mem_cons_self e B))) hf.not_quiet⟩

/-- `bind`, where the continuation is needed only at the values `x` can return. -/
theorem bind_of {x : M α} {f : α → M β} {P : α → Prop} (hx : Performs W d r I x)
    (hP : ∀ s a, (x s).1 = .ok a → P a) (hf : ∀ a, P a → Performs W d r J (f a)) :
    Performs W d r (I ++ J) (x >>= f) := by
  intro s
  obtain ⟨N₁, h₁, c₁, o₁, q₁⟩ := hx s
  rcases hxs : x s with ⟨_ | a, s₁⟩ <;> rw [hxs] at h₁ o₁ q₁
  · rw [M.bind_of_error hxs]
    refine ⟨N₁, h₁, by rw [List.length_append]; omega, nofun, fun A e B err h hm => ?_⟩
    simpa using q₁ A e B err h (hm.left h c₁)
  · rw [M.bind_of_ok hxs]
    have hc₁ := o₁ a rfl
    obtain ⟨N₂, h₂, c₂, o₂, q₂⟩ := hf a (hP s a (by rw [hxs])) s₁
    have hc : ownCount d (N₁ ++ N₂) = I.length + ownCount d N₂ := by rw [ownCount_append, hc₁]
    refine ⟨N₁ ++ N₂, by rw [h₂, h₁, List.append_assoc], by rw [hc, List.length_append]; omega,
      fun b hb => by rw [hc, o₂ b hb, List.length_append], fun A e B err h hm => ?_⟩
    rcases append_eq_append_cons h with ⟨B₁, hN, -⟩ | ⟨A₂, hA, hN⟩
    · exact absurd (q₁ A e B₁ err hN (hm.left hN c₁)).2 Except.noConfusion
    · subst hA
      have h₁' : s₁.trace = s.trace ++ N₁ := h₁
      exact q₂ A₂ e B err hN (by rw [h₁', List.append_assoc]; exact hm.right hc₁)

theorem bind {x : M α} {f : α → M β} (hx : Performs W d r I x)
    (hf : ∀ a, Performs W d r J (f a)) : Performs W d r (I ++ J) (x >>= f) :=
  bind_of (P := fun _ => True) hx (fun _ _ _ => trivial) fun a _ => hf a

/-- A continuation that performs nothing of `r`. -/
theorem bind_nil {x : M α} {f : α → M β} (hx : Performs W d r I x)
    (hf : ∀ a, Performs W d r [] (f a)) : Performs W d r I (x >>= f) :=
  List.append_nil I ▸ hx.bind hf

theorem forM {γ : Type} {g : γ → List (Act × Bool)} {f : γ → M PUnit} :
    ∀ {l : List γ}, (∀ c ∈ l, Performs W d r (g c) (f c)) →
      Performs W d r (l.flatMap g) (l.forM f)
  | [], _ => of_emits (Emits.pure _)
  | c :: l, h => by
    rw [List.flatMap_cons]
    exact bind (h c (List.mem_cons_self c l)) fun _ => forM fun c hc => h c (List.mem_cons_of_mem _ hc)

/-- Performing the operation `a` of `r`, then a continuation that fails at once with the error of
`a` when `a` is fatal and failed. -/
theorem perform_bind {a : Act} {fatal : Bool} {f : Except Error Unit → M β} (hd : a.depth = d)
    (hf : ∀ res, Performs W d r [] (f res))
    (he : fatal = true → ∀ m s, f (.error (.platform m)) s = (.error (.err (.platform m)), s)) :
    Performs W d r [(a, fatal)] (perform W a >>= f) := by
  intro s
  rw [M.bind_of_ok (perform_apply W s a)]
  obtain ⟨N, hN, c, -, q⟩ := hf ((W.result (acts s.trace) a).mapError .platform)
    { s with trace := s.trace ++ [.act a] }
  have hc : ownCount d (.act a :: N) = 1 := by rw [ownCount_act_cons hd, Nat.le_zero.mp c]
  refine ⟨.act a :: N, by simp [hN], hc.le, fun _ _ => hc, fun A e B err h hm => ?_⟩
  rcases A with _ | ⟨e', A⟩
  · obtain ⟨rfl, rfl⟩ := List.cons.inj h
    obtain ⟨-, hi, m, hr, rfl⟩ := hm
    have hfat : fatal = true := by simpa using hi
    have hres : (W.result (acts s.trace) a).mapError Error.platform = .error (.platform m) := by
      rw [show W.result (acts s.trace) a = .error m by simpa using hr]
      rfl
    rw [hres, he hfat] at hN ⊢
    exact ⟨by simpa using hN, rfl⟩
  · obtain ⟨rfl, hN'⟩ := List.cons.inj h
    refine q A e B err hN' ?_
    have hm' := Runner.FailsAt.right (I := [(a, fatal)]) (J := []) (N := [.act a]) (A := A) hm
      (by rw [ownCount_act_cons hd]; rfl)
    simpa using hm'

end Performs

/-- Once `x` writes an event that ends the steps of `r` at the items `items`, it writes the log
line of its error and nothing else, and ends normally. -/
def LogsOn (d : Nat) (r : Runner) (items : List (Act × Bool)) (x : M Unit) : Prop :=
  ∀ s, ∃ N, (x s).2.trace = s.trace ++ N ∧
    ∀ A e B err, N = A ++ e :: B → r.FailsAt W d items (s.trace ++ A) A e err →
      B = [.log d (.error err)] ∧ (x s).1 = .ok ()

namespace Runner

section Steps

variable {d : Nat} (r : Runner)

/-- A deeper runner writes no operation of `r` and no build of a runner that `r` calls. -/
theorem own_quiet_of_lt {d' : Nat} (h : d < d') : Own (Event.Quiet d) d' :=
  ⟨⟨fun _ => trivial, fun _ => Nat.ne_of_gt h, fun _ => by simp only [Event.Quiet]; omega⟩,
    trivial⟩

theorem buildChild_performs (name : String) : Performs W d r [] (r.buildChild W d name) := by
  intro s
  rw [buildChild_apply]
  refine ⟨[.build (d + 1) name], by cases (r.childBuilder name).build _ _ <;> rfl, Nat.le_refl 0,
    fun _ _ => rfl, fun A e B err h hm => ?_⟩
  rcases A with _ | ⟨_, A⟩
  · obtain ⟨rfl, rfl⟩ := List.cons.inj h
    rw [(show r.FailsAt W d [] s.trace [] (.build (d + 1) name) err by simpa using hm).2]
    exact ⟨rfl, rfl⟩
  · simp at h

theorem transferArtifact_performs (a : Artifact) :
    Performs W d r (if a.canContinue D then [(r.transferAct D d a, !a.ignoreErrors)] else [])
      (r.transferArtifact D W d a) := by
  unfold transferArtifact
  split
  · rename_i hc
    refine (Performs.of_emits (Emits.emit (by trivial))).bind fun _ => ?_
    rw [transfer_eq r hc]
    refine Performs.perform_bind rfl (fun _ => ?_) fun hf _ _ => by simp [hf]
    split
    · exact Performs.of_emits (Emits.ofExcept _)
    · exact Performs.of_emits (Emits.pure _)
  · exact Performs.of_emits (Emits.pure _)

theorem artifacts_performs (name : Option String) :
    Performs W d r (r.artifactItems D d name) (r.artifacts D W d name) :=
  Performs.forM fun a _ => transferArtifact_performs D W r a

theorem sh_performs (step : BuildStep) :
    Performs W d r (step.commands.map fun c => (r.shAct D d step c, true)) (r.sh D W d step) := by
  rw [List.map_eq_flatMap]
  exact Performs.forM fun _ _ => Performs.perform_bind rfl
    (fun _ => (Performs.of_emits (Emits.ofExcept _)).bind_nil fun _ =>
      Performs.of_emits (Emits.checkStopSignal (by trivial)))
    fun _ _ _ => M.bind_of_error rfl

variable {runChild : Runner → M Unit} (hc : ∀ p, Performs W d r [] (runChild (r.child W.order p)))

include hc

theorem call_performs (step : BuildStep) : Performs W d r [] (r.call W runChild d step) := by
  have h := Performs.forM (g := fun _ => []) (l := step.call) (f := r.callPipeline W runChild d)
    fun name _ =>
    (buildChild_performs W r name).bind_of (fun _ _ h => buildChild_ok W h)
      fun _ ⟨p, _, hp⟩ => hp ▸ (hc p).bind_nil fun _ =>
        Performs.of_emits (Emits.checkStopSignal (by trivial))
  rwa [List.flatMap_eq_nil_iff.mpr fun _ _ => rfl] at h

/-- The steps of a runner perform its own items in order, and stop at the first failure of its
own. -/
theorem steps_performs :
    Performs W d r (r.pip.steps.flatMap fun s =>
        s.commands.map (fun c => (r.shAct D d s c, true)) ++ r.artifactItems D d s.name)
      (r.steps D W runChild d) := by
  refine Performs.forM fun step _ => Performs.bind ?_ fun _ =>
    (artifacts_performs D W r _).bind_nil fun _ => Performs.of_emits (Emits.checkStopSignal (by trivial))
  refine Performs.bind (I := []) ?_ fun _ => (call_performs W r hc step).bind fun _ =>
    sh_performs D W r step
  cases step.name
  · exact Performs.of_emits (Emits.pure _)
  · exact Performs.of_emits (Emits.emit (by trivial))

end Steps

/-- The `match` of `Runner::run` logs the error that stops `x`, and `k` follows only when `x`
ends normally. -/
theorem logErr_logsOn {d : Nat} {r : Runner} {I J : List (Act × Bool)} {x k : M Unit}
    (hx : Performs W d r I x) (hk : LogsOn W d r J k) : LogsOn W d r (I ++ J) (logErr d x k) := by
  intro s
  obtain ⟨N₁, h₁, c₁, o₁, q₁⟩ := hx s
  rw [logErr_apply]
  rcases hxs : x s with ⟨(e₁ | _ | _) | ⟨⟩, s₁⟩ <;> rw [hxs] at h₁ o₁ q₁ <;> dsimp only at h₁ q₁ ⊢
  · refine ⟨N₁ ++ [.log d (.error e₁)], by simp [h₁], fun A e B err h hm => ?_⟩
    rcases append_eq_append_cons h with ⟨B₁, hN, hB⟩ | ⟨_ | ⟨a, A₂⟩, -, hN⟩
    · obtain ⟨rfl, he₁⟩ := q₁ A e B₁ err hN (hm.left hN c₁)
      simp only [Except.error.injEq, Fault.err.injEq] at he₁
      exact ⟨he₁ ▸ hB, rfl⟩
    · obtain ⟨rfl, -⟩ := List.cons.inj hN
      exact hm.elim
    · simp at hN
  · exact ⟨N₁, h₁, fun A e B err h hm => absurd (q₁ A e B err h (hm.left h c₁)).2 (by simp)⟩
  · exact ⟨N₁, h₁, fun A e B err h hm => absurd (q₁ A e B err h (hm.left h c₁)).2 (by simp)⟩
  · obtain ⟨N₂, h₂, q₂⟩ := hk s₁
    refine ⟨N₁ ++ N₂, by rw [h₂, h₁, List.append_assoc], fun A e B err h hm => ?_⟩
    rcases append_eq_append_cons h with ⟨B₁, hN, -⟩ | ⟨A₂, hA, hN⟩
    · exact absurd (q₁ A e B₁ err hN (hm.left hN c₁)).2 (by simp)
    · subst hA
      exact q₂ A₂ e B err hN (by simpa [h₁] using hm.right (o₁ () rfl))

/-- The guarded steps of a runner perform its own items and log the first failure of its own,
and end there. -/
theorem runSteps_logsOn {d : Nat} (r : Runner) {runChild : Runner → M Unit}
    (hc : ∀ p, Performs W d r [] (runChild (r.child W.order p))) :
    LogsOn W d r (r.ownItems D d) (r.runSteps D W runChild d) := by
  have hk : LogsOn W d r [] (pure () : M Unit) := fun _ =>
    ⟨[], by simp, fun A e B err h => by simp at h⟩
  have h := logErr_logsOn W (artifacts_performs D W r none)
    (logErr_logsOn W (steps_performs D W r hc) hk)
  rwa [List.append_nil] at h

/-- The run around its guarded steps: an event that neither the executor update and the info
lines before the steps nor `persist_end` and the dispose after them contain, and after which the
guarded steps write only `L` and end normally when `G` holds of the trace before it and of the
part of it since the steps began, is followed in the run by `L`, `persist_end` and the dispose. -/
theorem run_after_steps_event {n d : Nat} {r : Runner} {e : Event}
    {G : List Event → List Event → Prop} {L : List Event}
    (hP : e ∉ r.updates true ++ r.infoLines d)
    (hQ : e ∉ r.updates false ++ (r.disposeActs d).map .act)
    (hs : ∀ s, ∃ N, (r.runSteps D W (run D W n (d + 1)) d s).2.trace = s.trace ++ N ∧
      ∀ A B, N = A ++ e :: B → G (s.trace ++ A) A →
        B = L ∧ (r.runSteps D W (run D W n (d + 1)) d s).1 = .ok ())
    {s : St} {A B : List Event} (h : (r.run D W (n + 1) d s).2.trace = s.trace ++ A ++ e :: B)
    (hg : ∀ A', A = r.updates true ++ r.infoLines d ++ A' → G (s.trace ++ A) A') :
    B = L ++ (r.updates false ++ (r.disposeActs d).map .act) := by
  obtain ⟨N, hN, q⟩ := hs { s with trace := s.trace ++ r.updates true ++ r.infoLines d }
  obtain ⟨s', ⟨hs, hr⟩ | ⟨hs, hr⟩⟩ := run_succ_cases D W n d r s <;> rw [hs] at hN q <;>
    dsimp only at hN q <;> rw [hr] at h
  · have h' : r.updates true ++ r.infoLines d ++ N ++ [] = A ++ e :: B := by
      simpa [hN] using h
    obtain ⟨A', B', hA, hN', -⟩ := append_eq_append_cons_inside hP (List.not_mem_nil _) h'
    exact absurd (q A' B' hN' (by simpa [hA] using hg A' hA)).2 (by simp)
  · rw [dispose_trace] at h
    have h' : r.updates true ++ r.infoLines d ++ N ++
        (r.updates false ++ (r.disposeActs d).map .act) = A ++ e :: B := by
      simpa [hN] using h
    obtain ⟨A', B', hA, hN', rfl⟩ := append_eq_append_cons_inside hP hQ h'
    rw [(q A' B' hN' (by simpa [hA] using hg A' hA)).1]

/-- Once a runner's own command fails, or a transfer of its own whose artifact does not ignore
errors, or the build of a runner it calls, its run writes the log line of that error,
`persist_end` and its own dispose, and nothing else: no further step, call, command or transfer
of it or of a runner it calls. The failed operation is named by its place among the runner's own
operations, so two artifacts that make the same transfer are told apart. -/
theorem run_after_own_failure (n d : Nat) (r : Runner) (s : St) (A B : List Event) (e : Event)
    (err : Error) (h : (r.run D W n d s).2.trace = s.trace ++ A ++ e :: B)
    (hf : r.Fails D W d (s.trace ++ A) A e err) :
    B = .log d (.error err) :: (r.updates false ++ (r.disposeActs d).map .act) := by
  cases n with
  | zero => simp [run] at h
  | succ n =>
    have hP : e ∉ r.updates true ++ r.infoLines d := by
      unfold updates infoLines
      rcases e with _ | _ | _ | _ | _ <;> (try exact hf.elim) <;> split <;> split <;> simp
    have hQ : e ∉ r.updates false ++ (r.disposeActs d).map .act := by
      unfold updates disposeActs
      rcases e with _ | _ | _ | a | _ <;> (try exact hf.elim)
      · split <;> split <;> simp
      · have ha : ∀ p, a ≠ ⟨d, .dispose p⟩ :=
          ownItems_ne_dispose D r (List.getElem?_mem hf.2.1)
        split <;> split <;> simp [ha]
    have hs := runSteps_logsOn D W (d := d) r fun _ => Performs.of_emits
      (run_emits D W n (fun _ hd => own_quiet_of_lt hd) (by simp))
    refine run_after_steps_event D W (G := fun T A => r.FailsAt W d (r.ownItems D d) T A e err)
      hP hQ (fun s => let ⟨N, hN, q⟩ := hs s; ⟨N, hN, fun A B hA hg => q A e B err hA hg⟩) h
      fun A' hA => ?_
    subst hA
    exact FailsAt.right (I := []) hf (by simp [ownCount])

/-- An artifact that pushes `x` to `y` before the steps ignores errors, and one that pushes the same
paths after the step `s1` does not. Both transfers fail: the first is ignored, the second ends the
steps, and the command `c2` of the step `s2` never runs. -/
theorem run_after_own_failure_push :
    let pre : Artifact := ⟨some "push", some "x", some "y", true, none⟩
    let post : Artifact := ⟨some "push", some "x", some "y", false, some "s1"⟩
    let root : Pipeline := ⟨none, .machine, false, [], [], [pre, post],
      [⟨some "s1", none, [], ["c1"]⟩, ⟨some "s2", none, [], ["c2"]⟩]⟩
    let r : Runner := ⟨"7", "0", {}, .pipelineExec, {}, [], root, some ⟨⟩, [], [], .machine "7"⟩
    let W : World := ⟨fun _ a => if a.op = .push (.machine "7") "x" "y" then .error "denied"
      else .ok (), fun _ _ => .ok (), fun _ => 0, .insertion⟩
    let A : List Event := [.running true, .log 0 (.runsOn .machine), .log 0 (.copying "x" "y"),
      .act ⟨0, .push (.machine "7") "x" "y"⟩, .log 0 (.step "s1"),
      .act ⟨0, .sh (.machine "7") none "c1"⟩, .log 0 (.copying "x" "y")]
    let e : Event := .act ⟨0, .push (.machine "7") "x" "y"⟩
    let B : List Event := [.log 0 (.error (.platform "denied")), .running false]
    (r.run Definitions.bld W 1 0 ⟨[], 0⟩).2.trace = [] ++ A ++ e :: B ∧
      r.Fails Definitions.bld W 0 ([] ++ A) A e (.platform "denied") ∧
      B = .log 0 (.error (.platform "denied")) ::
        (r.updates false ++ (r.disposeActs 0).map .act) := by
  intro pre post root r W A e B
  have h : (r.run Definitions.bld W 1 0 ⟨[], 0⟩).2.trace = [] ++ A ++ e :: B := by
    decide
  have hf : r.Fails Definitions.bld W 0 ([] ++ A) A e (.platform "denied") :=
    ⟨rfl, by decide, "denied", rfl, rfl⟩
  exact ⟨h, hf, run_after_own_failure Definitions.bld W 1 0 r ⟨[], 0⟩ A B e _ h hf⟩

/-! ## The error line of a runner -/

section ErrorLine

variable {d : Nat} (r : Runner)

/-- A deeper runner never writes an error line at depth `d`. -/
theorem own_noErrorLine_of_lt {d' : Nat} (h : d < d') :
    Own (fun e => ∀ err, e ≠ .log d (.error err)) d' :=
  ⟨⟨fun _ _ he => absurd (Event.log.inj he).1 (Nat.ne_of_gt h), fun _ _ => nofun,
    fun _ _ => nofun⟩, fun _ => nofun⟩

theorem transferArtifact_noErrorLine (a : Artifact) :
    Emits (fun e => ∀ err, e ≠ .log d (.error err)) (r.transferArtifact D W d a) := by
  unfold transferArtifact transfer
  split
  · refine (Emits.emit fun _ => nofun).bind fun _ => Emits.bind ?_ fun res => ?_
    · split
      · exact Emits.perform fun _ => nofun
      · split
        · exact Emits.perform fun _ => nofun
        · exact Emits.halt _
    · split
      · exact Emits.ofExcept _
      · exact Emits.pure _
  · exact Emits.pure _

theorem artifacts_noErrorLine (name : Option String) :
    Emits (fun e => ∀ err, e ≠ .log d (.error err)) (r.artifacts D W d name) :=
  Emits.forM fun a _ => transferArtifact_noErrorLine D W r a

/-- The steps of a runner write no error line of its own: `Runner::run` writes it. -/
theorem steps_noErrorLine {runChild : Runner → M Unit}
    (hc : ∀ p, Emits (fun e => ∀ err, e ≠ .log d (.error err)) (runChild (r.child W.order p))) :
    Emits (fun e => ∀ err, e ≠ .log d (.error err)) (r.steps D W runChild d) := by
  have hs : ∀ step : BuildStep, Emits (fun e => ∀ err, e ≠ .log d (.error err)) (r.sh D W d step) :=
    fun _ => Emits.forM fun _ _ => (Emits.perform fun _ => nofun).bind fun _ =>
      (Emits.ofExcept _).bind fun _ => Emits.checkStopSignal fun _ => nofun
  have hcall : ∀ step : BuildStep,
      Emits (fun e => ∀ err, e ≠ .log d (.error err)) (r.call W runChild d step) :=
    fun _ => Emits.forM fun _ _ =>
      ((Emits.emit fun _ => nofun).bind fun _ => Emits.time.bind fun _ => Emits.ofExcept _).bind_of
        (fun _ _ h => buildChild_ok W h)
        fun _ ⟨p, _, hp⟩ => hp ▸ (hc p).bind fun _ => Emits.checkStopSignal fun _ => nofun
  refine Emits.forM fun step _ => Emits.bind (Emits.bind ?_ fun _ => ?_) fun _ =>
    (artifacts_noErrorLine D W r _).bind fun _ => Emits.checkStopSignal fun _ => nofun
  · cases step.name
    · exact Emits.pure _
    · exact Emits.emit fun _ => nofun
  · exact (hcall step).bind fun _ => hs step

end ErrorLine

/-- Once `x` writes an error line of the runner at depth `d`, it writes nothing more and ends
normally. -/
def EndsAtErrorLine (d : Nat) (x : M Unit) : Prop :=
  ∀ s, ∃ N, (x s).2.trace = s.trace ++ N ∧
    ∀ A err B, N = A ++ .log d (.error err) :: B → B = [] ∧ (x s).1 = .ok ()

/-- The error line that the `match` of `Runner::run` writes for `x` is its last event, and `k`
follows only when `x` ends normally. -/
theorem logErr_endsAtErrorLine {d : Nat} {x k : M Unit}
    (hx : Emits (fun e => ∀ err, e ≠ .log d (.error err)) x) (hk : EndsAtErrorLine d k) :
    EndsAtErrorLine d (logErr d x k) := by
  intro s
  obtain ⟨N₁, h₁, q₁⟩ := hx s
  have hn : ∀ A err B, N₁ ≠ A ++ .log d (.error err) :: B := fun A err B hN =>
    q₁ _ (hN ▸ List.mem_append_right A (List.mem_cons_self _ B)) err rfl
  rw [logErr_apply]
  rcases hxs : x s with ⟨(e₁ | _ | _) | ⟨⟩, s₁⟩ <;> rw [hxs] at h₁ <;> dsimp only at h₁ ⊢
  · refine ⟨N₁ ++ [.log d (.error e₁)], by simp [h₁], fun A err B h => ?_⟩
    rcases append_eq_append_cons h with ⟨B₁, hN, -⟩ | ⟨_ | ⟨a, A₂⟩, -, hN⟩
    · exact absurd hN (hn A err B₁)
    · exact ⟨(List.cons.inj hN).2.symm, rfl⟩
    · simp at hN
  · exact ⟨N₁, h₁, fun A err B h => absurd h (hn A err B)⟩
  · exact ⟨N₁, h₁, fun A err B h => absurd h (hn A err B)⟩
  · obtain ⟨N₂, h₂, q₂⟩ := hk s₁
    refine ⟨N₁ ++ N₂, by rw [h₂, h₁, List.append_assoc], fun A err B h => ?_⟩
    rcases append_eq_append_cons h with ⟨B₁, hN, -⟩ | ⟨A₂, -, hN⟩
    · exact absurd hN (hn A err B₁)
    · exact q₂ A₂ err B hN

/-- The guarded steps of a runner end at the error line they write. -/
theorem runSteps_endsAtErrorLine {d : Nat} (r : Runner) {runChild : Runner → M Unit}
    (hc : ∀ p, Emits (fun e => ∀ err, e ≠ .log d (.error err)) (runChild (r.child W.order p))) :
    EndsAtErrorLine d (r.runSteps D W runChild d) :=
  logErr_endsAtErrorLine (artifacts_noErrorLine D W r none)
    (logErr_endsAtErrorLine (steps_noErrorLine D W r hc)
      fun _ => ⟨[], by simp, fun A _ B h => by simp at h⟩)

/-- Once a runner logs an error of its own, whatever its cause (a failure of its own, a stop token
it took, or the failed dispose of a runner it called), its run writes only `persist_end` and its
own dispose: a runner logs at most one error of its own, and no step, call, command or transfer
of it or of a runner it calls follows that line. -/
theorem run_after_error_line (n d : Nat) (r : Runner) (s : St) (A B : List Event) (err : Error)
    (h : (r.run D W n d s).2.trace = s.trace ++ A ++ .log d (.error err) :: B) :
    B = r.updates false ++ (r.disposeActs d).map .act := by
  cases n with
  | zero => simp [run] at h
  | succ n =>
    have hP : Event.log d (.error err) ∉ r.updates true ++ r.infoLines d := by
      unfold updates infoLines
      split <;> split <;> simp
    have hQ : Event.log d (.error err) ∉ r.updates false ++ (r.disposeActs d).map .act := by
      unfold updates disposeActs
      split <;> split <;> simp
    have hs := runSteps_endsAtErrorLine D W (d := d) r fun _ =>
      run_emits D W n (fun _ hd => own_noErrorLine_of_lt hd) (by simp)
    exact run_after_steps_event D W (G := fun _ _ => True) (L := []) hP hQ
      (fun s => let ⟨N, hN, q⟩ := hs s; ⟨N, hN, fun A B hA _ => q A err B hA⟩) h fun _ _ => trivial

/-- The root's first step calls a runner whose dispose fails: the root logs that error and ends
with `persist_end`, without the command `b` of its second step. -/
theorem run_after_error_line_child_dispose :
    let child : Pipeline := ⟨none, .machine, true, [], [], [], []⟩
    let root : Pipeline := ⟨none, .machine, false, [], [], [],
      [⟨none, none, ["child"], []⟩, ⟨none, none, [], ["b"]⟩]⟩
    let r : Runner := ⟨"7", "0", {}, .pipelineExec, {}, [("child", child)], root, some ⟨⟩, [], [],
      .machine "7"⟩
    let W : World := ⟨fun _ a => if a.op = .dispose (.machine "7") then .error "busy" else .ok (),
      fun _ _ => .ok (), fun _ => 0, .insertion⟩
    let A : List Event := [.running true, .log 0 (.runsOn .machine), .build 1 "child",
      .log 1 (.runsOn .machine), .act ⟨1, .dispose (.machine "7")⟩]
    let B : List Event := [.running false]
    (r.run Definitions.bld W 2 0 ⟨[], 0⟩).2.trace =
        [] ++ A ++ .log 0 (.error (.platform "busy")) :: B ∧
      B = r.updates false ++ (r.disposeActs 0).map .act := by
  intro child root r W A B
  have h : (r.run Definitions.bld W 2 0 ⟨[], 0⟩).2.trace =
      [] ++ A ++ .log 0 (.error (.platform "busy")) :: B := by
    decide
  exact ⟨h, run_after_error_line Definitions.bld W 2 0 r ⟨[], 0⟩ A B _ h⟩

end Runner

end Bld
