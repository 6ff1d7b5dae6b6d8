import Bld.Runner.Termination

/-!
# Fuel

The fuel of `Runner.run` bounds how deep the chain of runners that `Runner::call` builds may go.
It only cuts a run short: with more fuel, a run that ended runs exactly as before, and a run that
ran out of fuel writes a longer trace that extends the one it wrote. So what holds of every
trace that some fuel gives, prefix by prefix, holds of the run of the source, whether it ends or
not.

* `Extends x y`: `y` runs as `x`, except where `x` runs out of fuel, and then the trace of `y`
  extends the trace of `x`. It is closed under `bind`, `forM` and `logErr`.
* `run_fuel_mono`: the run with the fuel `m` extends the run with any fuel `n ≤ m`.
* `run_fuel_stable`: when no chain of calls from the root repeats a name, every fuel above the
  number of stored pipelines gives the same run, so the model's fuel is not observable.
-/

namespace Bld

variable (D : Definitions) (W : World)

/-- `y` runs as `x`, except where `x` runs out of fuel: then the trace of `y` extends the trace of
`x`. Both only append to the trace. -/
def Extends {α : Type} (x y : M α) : Prop :=
  ∀ s, ((x s).1 ≠ .error .outOfFuel → y s = x s) ∧ (x s).2.trace <+: (y s).2.trace ∧
    s.trace <+: (y s).2.trace

namespace Extends

variable {α β : Type}

theorem refl {x : M α} (hx : Emits (fun _ => True) x) : Extends x x := fun s =>
  let ⟨_, hN, _⟩ := hx s
  ⟨fun _ => rfl, List.prefix_refl _, hN ▸ List.prefix_append _ _⟩

theorem trans {x y z : M α} (hxy : Extends x y) (hyz : Extends y z) : Extends x z := fun s =>
  let ⟨e₁, p₁, _⟩ := hxy s
  let ⟨e₂, p₂, q₂⟩ := hyz s
  ⟨fun h => (e₂ (e₁ h ▸ h)).trans (e₁ h), p₁.trans p₂, q₂⟩

/-- Running out of fuel at once is extended by every run that only appends. -/
theorem outOfFuel {y : M α} (hy : Emits (fun _ => True) y) : Extends (halt .outOfFuel) y :=
  fun s =>
    let ⟨_, hN, _⟩ := hy s
    ⟨fun h => absurd rfl h, hN ▸ List.prefix_append _ _, hN ▸ List.prefix_append _ _⟩

theorem bind {x x' : M α} {f f' : α → M β} (hx : Extends x x') (hf : ∀ a, Extends (f a) (f' a)) :
    Extends (x >>= f) (x' >>= f') := by
  intro s
  have hb : (x' s).2.trace <+: ((x' >>= f') s).2.trace := by
    rcases hx's : x' s with ⟨e' | a', s₂⟩
    · rw [M.bind_of_error hx's]
    · rw [M.bind_of_ok hx's]
      exact (hf a' s₂).2.2
  obtain ⟨ex, px, qx⟩ := hx s
  rcases hxs : x s with ⟨e | a, s₁⟩ <;> rw [hxs] at ex px
  · rw [M.bind_of_error hxs]
    by_cases he : e = .outOfFuel
    · exact ⟨fun h => absurd (congrArg Except.error he) h, px.trans hb, qx.trans hb⟩
    · have hx' := ex fun h => he (Except.error.inj h)
      rw [M.bind_of_error hx']
      exact ⟨fun _ => rfl, List.prefix_refl _, by simpa [hx'] using qx⟩
  · have hx' := ex Except.noConfusion
    rw [M.bind_of_ok hxs, M.bind_of_ok hx']
    obtain ⟨ef, pf, qf⟩ := hf a s₁
    exact ⟨ef, pf, (by simpa [hx'] using qx : s.trace <+: s₁.trace).trans qf⟩

theorem attempt {x x' : M α} (hx : Extends x x') : Extends (attempt x) (attempt x') := by
  intro s
  have ht : ∀ y : M α, (Bld.attempt y s).2 = (y s).2 := by
    intro y
    unfold Bld.attempt
    split <;> simp_all
  obtain ⟨ex, px, qx⟩ := hx s
  refine ⟨fun h => ?_, ht x ▸ ht x' ▸ px, ht x' ▸ qx⟩
  have hx0 : (x s).1 ≠ .error .outOfFuel := by
    intro h0
    apply h
    unfold Bld.attempt
    rcases hxs : x s with ⟨_, _⟩
    simp_all
  unfold Bld.attempt
  rw [ex hx0]

theorem forM {γ : Type} {f f' : γ → M PUnit} :
    ∀ {l : List γ}, (∀ c ∈ l, Extends (f c) (f' c)) → Extends (l.forM f) (l.forM f')
  | [], _ => refl (Emits.pure _)
  | c :: l, h => bind (h c (List.mem_cons_self c l))
      fun _ => forM fun c hc => h c (List.mem_cons_of_mem _ hc)

theorem logErr {d : Nat} {x x' k k' : M Unit} (hx : Extends x x') (hk : Extends k k') :
    Extends (Runner.logErr d x k) (Runner.logErr d x' k') :=
  bind (attempt hx) fun res => by
    rcases res with e | ⟨⟩
    exacts [refl (Emits.emit trivial), hk]

end Extends

/-- Every event is allowed. -/
theorem own_true (d : Nat) : Own (fun _ => True) d :=
  ⟨⟨fun _ => trivial, fun _ => trivial, fun _ => trivial⟩, trivial⟩

namespace Runner

section Methods

variable {d : Nat} (r : Runner) {runChild runChild' : Runner → M Unit}
  (hc : ∀ c, Extends (runChild c) (runChild' c))

include hc

theorem call_extends (step : BuildStep) :
    Extends (r.call W runChild d step) (r.call W runChild' d step) :=
  Extends.forM fun name _ => (Extends.refl (buildChild_emits W r (own_true d).toOwnOps name)).bind
    fun c => (hc c).bind fun _ => Extends.refl (Emits.checkStopSignal trivial)

theorem step_extends (step : BuildStep) :
    Extends (r.step D W runChild d step) (r.step D W runChild' d step) := by
  refine Extends.bind (Extends.refl ?_) fun _ => (call_extends W r hc step).bind fun _ =>
    Extends.refl (sh_emits D W r (own_true d) step)
  cases step.name
  exacts [Emits.pure _, Emits.emit trivial]

theorem steps_extends : Extends (r.steps D W runChild d) (r.steps D W runChild' d) :=
  Extends.forM fun step _ => (step_extends D W r hc step).bind fun _ =>
    (Extends.refl (artifacts_emits D W r (own_true d).toOwnOps _)).bind fun _ =>
      Extends.refl (Emits.checkStopSignal trivial)

/-- A runner whose called runs are extended is extended: the rest of its code is the same. -/
theorem runBody_extends : Extends (r.runBody D W runChild d) (r.runBody D W runChild' d) := by
  have ht := (own_true d).toOwnOps
  have hu : ∀ b, ∀ e ∈ r.updates b, True := fun _ _ _ => trivial
  exact (Extends.refl (by simpa using persist_emits r true hu)).bind fun _ =>
    (Extends.refl (info_emits r ht)).bind fun _ =>
      (Extends.logErr (Extends.refl (artifacts_emits D W r ht none))
        (Extends.logErr (steps_extends D W r hc) (Extends.refl (Emits.pure _)))).bind fun _ =>
        (Extends.refl (by simpa using persist_emits r false hu)).bind fun _ =>
          Extends.refl (dispose_emits W r ht)

end Methods

/-- One more unit of fuel extends a run. -/
theorem run_extends_succ : ∀ (n d : Nat) (r : Runner), Extends (r.run D W n d) (r.run D W (n + 1) d)
  | 0, _, _ => Extends.outOfFuel (run_emits D W 1 (fun d' _ => own_true d') fun _ _ _ => trivial)
  | n + 1, d, r => runBody_extends D W r fun c => run_extends_succ n (d + 1) c

/-- Any more fuel extends a run. -/
theorem run_extends_add (n k d : Nat) (r : Runner) :
    Extends (r.run D W n d) (r.run D W (n + k) d) := by
  induction k with
  | zero => exact Extends.refl (run_emits D W n (fun d' _ => own_true d') fun _ _ _ => trivial)
  | succ k ih => exact ih.trans (run_extends_succ D W (n + k) d r)

/-- With more fuel, a run that ended runs exactly as before, and a run that ran out of fuel writes
a trace that extends the one it wrote. -/
theorem run_fuel_mono (n m d : Nat) (r : Runner) (h : n ≤ m) (s : St) :
    ((r.run D W n d s).1 ≠ .error .outOfFuel → r.run D W m d s = r.run D W n d s) ∧
      (r.run D W n d s).2.trace <+: (r.run D W m d s).2.trace := by
  obtain ⟨k, rfl⟩ := Nat.exists_eq_add_of_le h
  exact ⟨(run_extends_add D W n k d r s).1, (run_extends_add D W n k d r s).2.1⟩

theorem run_fuel_mono_self_call :
    let p : Pipeline := ⟨none, .machine, false, [], [], [], [⟨none, none, ["p"], []⟩]⟩
    let r : Runner := ⟨"7", "0", {}, .pipelineExec, {}, [("p", p)], p, none, [], [], .machine "7"⟩
    let W : World := ⟨fun _ _ => .ok (), fun _ _ => .ok (), fun _ => 0, .insertion⟩
    1 ≤ 3 ∧ (((r.run Definitions.bld W 1 0 ⟨[], 0⟩).1 ≠ .error .outOfFuel →
        r.run Definitions.bld W 3 0 ⟨[], 0⟩ = r.run Definitions.bld W 1 0 ⟨[], 0⟩) ∧
      (r.run Definitions.bld W 1 0 ⟨[], 0⟩).2.trace <+: (r.run Definitions.bld W 3 0 ⟨[], 0⟩).2.trace) := by
  intro p r W
  exact ⟨by decide, run_fuel_mono Definitions.bld W 1 3 0 r (by decide) ⟨[], 0⟩⟩

/-- When no chain of calls from the root repeats a name, the fuel is not observable: every fuel
above the number of stored pipelines gives the same run. -/
theorem run_fuel_stable (r : Runner) (hA : ∀ l, CallChain r.prx r.pip l → l.Nodup) (n m d : Nat)
    (hn : r.prx.length < n) (hm : n ≤ m) : r.run D W m d = r.run D W n d := by
  obtain ⟨k, rfl⟩ := Nat.exists_eq_add_of_le hm
  funext s
  exact (run_extends_add D W n k d r s).1 <| run_avoids_outOfFuel D W n d r
    (fun l hl => Nat.lt_of_le_of_lt (hl.length_le (hA l hl)) hn) s

theorem run_fuel_stable_two_pipelines :
    let child : Pipeline := ⟨none, .machine, true, [], [], [], [⟨none, none, [], ["a"]⟩]⟩
    let root : Pipeline := ⟨none, .machine, false, [], [], [], [⟨none, none, ["child"], []⟩]⟩
    let r : Runner := ⟨"7", "0", {}, .pipelineExec, {}, [("child", child)], root, none, [], [],
      .machine "7"⟩
    let W : World := ⟨fun _ _ => .ok (), fun _ _ => .ok (), fun _ => 0, .insertion⟩
    (∀ l, CallChain r.prx r.pip l → l.Nodup) ∧ r.prx.length < 2 ∧ 2 ≤ 5 ∧
      r.run Definitions.bld W 5 0 = r.run Definitions.bld W 2 0 := by
  intro child root r W
  have hA : ∀ l, CallChain r.prx r.pip l → l.Nodup := by
    rintro (_ | ⟨a, _ | ⟨b, l⟩⟩) hl
    · exact List.nodup_nil
    · exact List.nodup_singleton a
    · obtain ⟨ha, q, hq, hb, -⟩ := hl
      obtain rfl : a = "child" := by simpa [root, Pipeline.calls] using ha
      obtain rfl : q = child := by simpa [r, Store.read] using hq.symm
      simp [child, Pipeline.calls] at hb
  exact ⟨hA, by decide, by decide, run_fuel_stable Definitions.bld W r hA 2 5 0 (by decide) (by decide)⟩

end Runner

end Bld
