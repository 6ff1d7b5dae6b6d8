import Bld.Runner.Trace

/-!
# Stop tokens

The run's channel carries stop tokens, and every runner of the run checks the one receiver that
the root shares with the runners it calls: the first `check_stop_signal` after a token is sent,
of whichever runner, takes it and fails with the cancellation error. That error leaves the
runner's steps, and `Runner::run` logs it.

* `Stops e err x`: once `x` writes `e`, it writes nothing more and fails with `err`; the steps of
  a runner stop so at the token it takes itself (`steps_stops`).
* `run_after_own_token`: once a runner takes a token in a check of its own, its run writes only
  the log line of the cancellation, `persist_end` and its own dispose: it begins no further step.
* `child_token_not_seen`: a token that a called runner takes ends only that runner's steps; the
  root never sees it and goes on with its next step.
-/

namespace Bld

variable (D : Definitions) (W : World)

/-- `e` occurs in `N₁ ++ N₂` inside `N₁`, or inside `N₂`. -/
theorem append_eq_append_cons {N₁ N₂ A B : List Event} {e : Event} (h : N₁ ++ N₂ = A ++ e :: B) :
    (∃ B₁, N₁ = A ++ e :: B₁ ∧ B = B₁ ++ N₂) ∨ ∃ A₂, A = N₁ ++ A₂ ∧ N₂ = A₂ ++ e :: B := by
  rcases List.append_eq_append_iff.mp h with ⟨A₂, hA, hN⟩ | ⟨_ | ⟨c, C⟩, hN, hB⟩
  · exact .inr ⟨A₂, hA, hN⟩
  · exact .inr ⟨[], by simpa using hN.symm, by simpa using hB.symm⟩
  · obtain ⟨rfl, hB'⟩ := List.cons.inj hB
    exact .inl ⟨C, hN, hB'⟩

/-- `e`, in neither `P` nor `Q`, occurs in `P ++ N ++ Q` only inside `N`. -/
theorem append_eq_append_cons_of_not_mem {P N Q A B : List Event} {e : Event} (hP : e ∉ P)
    (hQ : e ∉ Q) (h : P ++ N ++ Q = A ++ e :: B) :
    ∃ A' B', N = A' ++ e :: B' ∧ B = B' ++ Q := by
  rw [List.append_assoc] at h
  rcases append_eq_append_cons h with ⟨B₁, hP', -⟩ | ⟨A₂, -, h⟩
  · exact absurd (hP' ▸ by simp) hP
  rcases append_eq_append_cons h with ⟨B₁, hN, hB⟩ | ⟨A₃, -, hQ'⟩
  · exact ⟨A₂, B₁, hN, hB⟩
  · exact absurd (hQ' ▸ by simp) hQ

/-- Once `x` writes `e`, it writes nothing more and fails with `err`. -/
def Stops {α : Type} (e : Event) (err : Error) (x : M α) : Prop :=
  ∀ s, ∃ N, (x s).2.trace = s.trace ++ N ∧
    ∀ A B, N = A ++ e :: B → B = [] ∧ (x s).1 = .error (.err err)

namespace Stops

variable {e : Event} {err : Error} {α β : Type}

/-- A computation that never writes `e`. -/
theorem of_emits {x : M α} (hx : Emits (· ≠ e) x) : Stops e err x := fun s =>
  let ⟨N, hN, q⟩ := hx s
  ⟨N, hN, fun A B h => absurd rfl (q e (h ▸ List.mem_append_right A (List.mem_cons_self e B)))⟩

theorem perform {d : Nat} {a : Act} : Stops (.received d) err (perform W a) :=
  of_emits (Emits.perform nofun)

theorem checkStopSignal {d : Nat} {cm : Option Receiver} :
    Stops (.received d) .stopped (checkStopSignal W d cm) := by
  intro s
  rcases checkStopSignal_cases W s d cm with h | h <;> rw [h]
  · exact ⟨[], by simp, fun A B h => by simp at h⟩
  · refine ⟨[.received d], rfl, fun A B h => ⟨?_, rfl⟩⟩
    rcases A with _ | ⟨a, A⟩
    · exact (List.cons.inj h).2.symm
    · simp at h

/-- `bind`, where the continuation is needed only at the values `x` can return. -/
theorem bind_of {x : M α} {f : α → M β} {P : α → Prop} (hx : Stops e err x)
    (hP : ∀ s a, (x s).1 = .ok a → P a) (hf : ∀ a, P a → Stops e err (f a)) :
    Stops e err (x >>= f) := by
  intro s
  obtain ⟨N₁, h₁, q₁⟩ := hx s
  rcases hxs : x s with ⟨_ | a, s₁⟩ <;> rw [hxs] at h₁ q₁
  · rw [M.bind_of_error hxs]
    exact ⟨N₁, h₁, fun A B h => by simpa using q₁ A B h⟩
  · rw [M.bind_of_ok hxs]
    obtain ⟨N₂, h₂, q₂⟩ := hf a (hP s a (by rw [hxs])) s₁
    refine ⟨N₁ ++ N₂, by rw [h₂, h₁, List.append_assoc], fun A B h => ?_⟩
    rcases append_eq_append_cons h with ⟨B₁, hN, -⟩ | ⟨A₂, -, hN⟩
    · exact absurd (q₁ A B₁ hN).2 Except.noConfusion
    · exact q₂ A₂ B hN

theorem bind {x : M α} {f : α → M β} (hx : Stops e err x) (hf : ∀ a, Stops e err (f a)) :
    Stops e err (x >>= f) :=
  bind_of (P := fun _ => True) hx (fun _ _ _ => trivial) fun a _ => hf a

theorem forM {γ : Type} {f : γ → M PUnit} :
    ∀ {l : List γ}, (∀ c ∈ l, Stops e err (f c)) → Stops e err (l.forM f)
  | [], _ => of_emits (Emits.pure _)
  | c :: l, h => bind (h c (List.mem_cons_self c l))
      fun _ => forM fun c hc => h c (List.mem_cons_of_mem _ hc)

end Stops

/-- The runner at depth `d` writes no `received d` outside its stop checks. -/
theorem ownOps_ne_received (d : Nat) : OwnOps (· ≠ .received d) d :=
  ⟨fun _ => nofun, fun _ => nofun, fun _ => nofun⟩

/-- A deeper runner takes its tokens under its own depth. -/
theorem own_ne_received_of_lt {d d' : Nat} (h : d < d') : Own (· ≠ .received d) d' :=
  ⟨⟨fun _ => nofun, fun _ => nofun, fun _ => nofun⟩,
    fun he => absurd (Event.received.inj he) (Nat.ne_of_gt h)⟩

/-- Once `x` writes `e`, it writes the log line of the cancellation error of the runner at depth
`d` and nothing else, and ends normally. -/
def LogsAfter (e : Event) (d : Nat) (x : M Unit) : Prop :=
  ∀ s, ∃ N, (x s).2.trace = s.trace ++ N ∧
    ∀ A B, N = A ++ e :: B → B = [.log d (.error .stopped)] ∧ (x s).1 = .ok ()

namespace Runner

/-- The `match` of `Runner::run` logs the cancellation that stops `x`, and `k` follows only when `x`
ends normally. -/
theorem logErr_logsAfter {e : Event} {d : Nat} {x k : M Unit} (he : ∀ l, .log d l ≠ e)
    (hx : Stops e .stopped x) (hk : LogsAfter e d k) : LogsAfter e d (logErr d x k) := by
  intro s
  obtain ⟨N₁, h₁, q₁⟩ := hx s
  rw [logErr_apply]
  rcases hxs : x s with ⟨(e₁ | _ | _) | ⟨⟩, s₁⟩ <;> rw [hxs] at h₁ q₁ <;> dsimp only at h₁ q₁ ⊢
  · refine ⟨N₁ ++ [.log d (.error e₁)], by simp [h₁], fun A B h => ?_⟩
    rcases append_eq_append_cons h with ⟨B₁, hN, hB⟩ | ⟨A₂, -, hN⟩
    · obtain ⟨rfl, he₁⟩ := q₁ A B₁ hN
      simp only [Except.error.injEq, Fault.err.injEq] at he₁
      exact ⟨he₁ ▸ hB, rfl⟩
    · rcases A₂ with _ | ⟨a, A₂⟩
      · exact absurd (List.cons.inj hN).1 (he _)
      · simp at hN
  · exact ⟨N₁, h₁, fun A B h => absurd (q₁ A B h).2 (by simp)⟩
  · exact ⟨N₁, h₁, fun A B h => absurd (q₁ A B h).2 (by simp)⟩
  · obtain ⟨N₂, h₂, q₂⟩ := hk s₁
    refine ⟨N₁ ++ N₂, by rw [h₂, h₁, List.append_assoc], fun A B h => ?_⟩
    rcases append_eq_append_cons h with ⟨B₁, hN, -⟩ | ⟨A₂, -, hN⟩
    · exact absurd (q₁ A B₁ hN).2 (by simp)
    · exact q₂ A₂ B hN

section Steps

variable {d : Nat} (r : Runner) {runChild : Runner → M Unit}
  (hc : ∀ p, Stops (.received d) .stopped (runChild (r.child W.order p)))

theorem sh_stops (step : BuildStep) : Stops (.received d) .stopped (r.sh D W d step) :=
  Stops.forM fun _ _ => (Stops.perform W).bind fun _ =>
    (Stops.of_emits (Emits.ofExcept _)).bind fun _ => Stops.checkStopSignal W

include hc

theorem call_stops (step : BuildStep) : Stops (.received d) .stopped (r.call W runChild d step) :=
  Stops.forM fun name _ =>
    (Stops.of_emits (buildChild_emits W r (ownOps_ne_received d) name)).bind_of
      (fun _ _ h => buildChild_ok W h)
      fun _ ⟨p, _, hp⟩ => hp ▸ (hc p).bind fun _ => Stops.checkStopSignal W

/-- The steps of a runner stop at the first token it takes itself. -/
theorem steps_stops : Stops (.received d) .stopped (r.steps D W runChild d) := by
  refine Stops.forM fun step _ => Stops.bind (Stops.bind ?_ fun _ => ?_) fun _ =>
    (Stops.of_emits (artifacts_emits D W r (ownOps_ne_received d) _)).bind fun _ =>
      Stops.checkStopSignal W
  · cases step.name
    · exact Stops.of_emits (Emits.pure _)
    · exact Stops.of_emits (Emits.emit nofun)
  · exact (call_stops W r hc step).bind fun _ => sh_stops D W r step

/-- The guarded steps of a runner log the first token it takes itself, and end there. -/
theorem runSteps_logsAfter : LogsAfter (.received d) d (r.runSteps D W runChild d) :=
  logErr_logsAfter (fun _ => nofun) (Stops.of_emits (artifacts_emits D W r (ownOps_ne_received d) _))
    (logErr_logsAfter (fun _ => nofun) (steps_stops D W r hc)
      fun s => ⟨[], by simp, fun A B h => by simp at h⟩)

end Steps

/-- Once a runner takes a stop token in a check of its own, its run writes the log line of the
cancellation error, `persist_end` and its own dispose, and nothing else: no further step, call,
command or transfer of it or of a runner it calls. -/
theorem run_after_own_token (n d : Nat) (r : Runner) (s : St) (A B : List Event)
    (h : (r.run D W n d s).2.trace = s.trace ++ A ++ .received d :: B) :
    B = .log d (.error .stopped) :: (r.updates false ++ (r.disposeActs d).map .act) := by
  cases n with
  | zero => simp [run] at h
  | succ n =>
    have hP : Event.received d ∉ r.updates true ++ r.infoLines d := by
      unfold updates infoLines
      split <;> split <;> simp
    have hQ : Event.received d ∉ r.updates false ++ (r.disposeActs d).map .act := by
      unfold updates
      split <;> simp
    obtain ⟨N, hN, q⟩ := runSteps_logsAfter D W r (fun p => Stops.of_emits
      (run_emits D W n (fun _ hd => own_ne_received_of_lt hd) (by simp)))
      { s with trace := s.trace ++ r.updates true ++ r.infoLines d }
    obtain ⟨s', ⟨hs, hr⟩ | ⟨hs, hr⟩⟩ := run_succ_cases D W n d r s <;> rw [hs] at hN q <;>
      dsimp only at hN q <;> rw [hr] at h
    · have h' : r.updates true ++ r.infoLines d ++ N ++ [] = A ++ .received d :: B := by
        simpa [hN] using h
      obtain ⟨A', B', hN', -⟩ := append_eq_append_cons_of_not_mem hP (List.not_mem_nil _) h'
      exact absurd (q A' B' hN').2 (by simp)
    · rw [dispose_trace] at h
      have h' : r.updates true ++ r.infoLines d ++ N ++
          (r.updates false ++ (r.disposeActs d).map .act) = A ++ .received d :: B := by
        simpa [hN] using h
      obtain ⟨A', B', hN', rfl⟩ := append_eq_append_cons_of_not_mem hP hQ h'
      rw [(q A' B' hN').1]
      rfl

theorem run_after_own_token_root :
    let root : Pipeline := ⟨none, .machine, false, [], [], [],
      [⟨none, none, [], ["a"]⟩, ⟨none, none, [], ["b"]⟩]⟩
    let r : Runner := ⟨"7", "0", {}, .pipelineExec, {}, [], root, some ⟨⟩, [], [], .machine "7"⟩
    let W : World := ⟨fun _ _ => .ok (), fun _ _ => .ok (), fun _ => 1, .insertion⟩
    let A : List Event :=
      [.running true, .log 0 (.runsOn .machine), .act ⟨0, .sh (.machine "7") none "a"⟩]
    let B : List Event := [.log 0 (.error .stopped), .running false]
    (r.run Definitions.bld W 1 0 ⟨[], 0⟩).2.trace = [] ++ A ++ .received 0 :: B ∧
      B = .log 0 (.error .stopped) :: (r.updates false ++ (r.disposeActs 0).map .act) := by
  intro root r W A B
  have h : (r.run Definitions.bld W 1 0 ⟨[], 0⟩).2.trace = [] ++ A ++ .received 0 :: B := by
    decide
  exact ⟨h, run_after_own_token Definitions.bld W 1 0 r ⟨[], 0⟩ A B h⟩

/-- The token is sent before the run begins, and the root's first step calls a runner: that
runner takes the token after its command `a`, and the root goes on with the command `b` of its
second step. -/
theorem child_token_not_seen :
    let child : Pipeline := ⟨none, .machine, false, [], [], [], [⟨none, none, [], ["a"]⟩]⟩
    let root : Pipeline := ⟨none, .machine, false, [], [], [],
      [⟨some "s1", none, ["child"], []⟩, ⟨none, none, [], ["b"]⟩]⟩
    let r : Runner := ⟨"7", "0", {}, .pipelineExec, {}, [("child", child)], root, some ⟨⟩, [], [],
      .machine "7"⟩
    let W : World := ⟨fun _ _ => .ok (), fun _ _ => .ok (), fun _ => 1, .insertion⟩
    (r.run Definitions.bld W 3 0 ⟨[], 0⟩).2.trace =
      [.running true, .log 0 (.runsOn .machine), .log 0 (.step "s1"), .build 1 "child",
        .log 1 (.runsOn .machine), .act ⟨1, .sh (.machine "7") none "a"⟩, .received 1,
        .log 1 (.error .stopped), .act ⟨0, .sh (.machine "7") none "b"⟩, .running false] := by
  decide

end Runner

end Bld
