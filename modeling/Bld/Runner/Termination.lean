import Bld.Runner.Spec
import Mathlib.Data.List.Perm.Subperm

/-!
# Termination of `Runner::run`

`Runner::call` builds a runner for every pipeline that a step calls, reading it by name through
the proxy, and awaits its run: the recursion through `Runner::call`, `RunnerBuilder::build` and
`Runner::run` has no visited set and no depth bound. The fuel of `Runner.run` bounds its depth,
and every other loop of a runner is over a finite list, so a run ends exactly when some fuel is
enough for it.

* `CallChain S p l`: `l` is a chain of calls from `p`, each name read from the store `S`.
* `run_avoids_outOfFuel`: fuel longer than every chain of calls from the pipeline is enough.
* `run_terminates`: when no chain of calls from the root repeats a name, the fuel one more than
  the number of stored pipelines is enough, whatever the outcomes of the operations and the stop
  tokens.
* `self_call_runs_out`: a pipeline whose step calls itself runs out of every fuel.
-/

namespace Bld

variable (D : Definitions) (W : World)

/-- `l` is a chain of calls from `p`: `p` calls its first name, the pipeline that the store `S`
reads for that name calls the next, and so on. -/
def CallChain (S : Store) : Pipeline → List String → Prop
  | _, [] => True
  | p, name :: l => name ∈ p.calls ∧ ∃ q, S.read name = .ok q ∧ CallChain S q l

theorem Store.mem_of_read {S : Store} {name : String} {p : Pipeline} (h : S.read name = .ok p) :
    name ∈ S.map Prod.fst := by
  unfold Store.read at h
  split at h
  · rename_i hl
    induction S with
    | nil => simp at hl
    | cons e S ih =>
      obtain ⟨k, q⟩ := e
      by_cases he : name = k
      · exact he ▸ List.mem_cons_self _ _
      · rw [List.lookup_cons, beq_false_of_ne he] at hl
        exact List.mem_cons_of_mem _ (ih hl)
  · cases h

theorem CallChain.subset {S : Store} : ∀ {p : Pipeline} {l : List String}, CallChain S p l →
    ∀ name ∈ l, name ∈ S.map Prod.fst
  | _, [], _ => nofun
  | _, _ :: _, ⟨_, _, hq, hl⟩ => by
    rintro name (_ | ⟨_, hn⟩)
    exacts [Store.mem_of_read hq, hl.subset name hn]

/-- A chain of calls that repeats no name is no longer than the store. -/
theorem CallChain.length_le {S : Store} {p : Pipeline} {l : List String} (hl : CallChain S p l)
    (hn : l.Nodup) : l.length ≤ S.length := by
  simpa using (hn.subperm hl.subset).length_le

namespace Runner

/-- Fuel longer than every chain of calls from the pipeline is enough for the run. -/
theorem run_avoids_outOfFuel : ∀ (n d : Nat) (r : Runner),
    (∀ l, CallChain r.prx r.pip l → l.length < n) → Avoids .outOfFuel (r.run D W n d)
  | 0, _, _, h => absurd (h [] trivial) (Nat.lt_irrefl 0)
  | n + 1, d, r, h => runBody_avoids D W (by simp) r fun name hn p hp =>
      run_avoids_outOfFuel n (d + 1) (r.child W.order p) fun l hl =>
        Nat.lt_of_succ_lt_succ (h (name :: l) ⟨hn, p, hp, hl⟩)

/-- When no chain of calls from the root repeats a name, the run ends: the fuel one more than the
number of stored pipelines is enough, whatever the outcomes of the operations and of the
platform creations, and whatever stop tokens are sent. -/
theorem run_terminates (r : Runner) (hA : ∀ l, CallChain r.prx r.pip l → l.Nodup) (n d : Nat)
    (hn : r.prx.length < n) (s : St) : (r.run D W n d s).1 ≠ .error .outOfFuel :=
  run_avoids_outOfFuel D W n d r (fun l hl => Nat.lt_of_le_of_lt (hl.length_le (hA l hl)) hn) s

theorem run_terminates_two_pipelines :
    let child : Pipeline := ⟨none, .machine, false, [], [], [], [⟨none, none, [], ["a"]⟩]⟩
    let root : Pipeline := ⟨none, .machine, false, [], [], [], [⟨none, none, ["child"], []⟩]⟩
    let r : Runner := ⟨"7", "0", {}, .pipelineExec, {}, [("child", child)], root, none, [], [],
      .machine "7"⟩
    let W : World := ⟨fun _ _ => .ok (), fun _ _ => .ok (), fun _ => 0, .insertion⟩
    (∀ l, CallChain r.prx r.pip l → l.Nodup) ∧ r.prx.length < 2 ∧
      (r.run Definitions.bld W 2 0 ⟨[], 0⟩).1 ≠ .error .outOfFuel := by
  intro child root r W
  have hA : ∀ l, CallChain r.prx r.pip l → l.Nodup := by
    rintro (_ | ⟨a, _ | ⟨b, l⟩⟩) hl
    · exact List.nodup_nil
    · exact List.nodup_singleton a
    · obtain ⟨ha, q, hq, hb, -⟩ := hl
      obtain rfl : a = "child" := by simpa [root, Pipeline.calls] using ha
      obtain rfl : q = child := by simpa [r, Store.read] using hq.symm
      simp [child, Pipeline.calls] at hb
  exact ⟨hA, by decide, run_terminates Definitions.bld W r hA 2 0 (by decide) ⟨[], 0⟩⟩

/-! ## A pipeline that calls itself -/

/-- Every run of `x` halts with `f`. -/
def Halts {α : Type} (f : Fault) (x : M α) : Prop := ∀ s, (x s).1 = .error f

namespace Halts

variable {f : Fault} {α β : Type}

theorem bind {x : M α} {g : α → M β} (hx : Halts f x) : Halts f (x >>= g) := fun s => by
  rcases hxs : x s with ⟨e | a, s'⟩ <;> have h := hx s <;> rw [hxs] at h
  · rw [M.bind_of_error hxs]
    simpa using h
  · cases h

theorem bind_ok {x : M α} {g : α → M β} {a : α} (hx : ∀ s, (x s).1 = .ok a) (hg : Halts f (g a)) :
    Halts f (x >>= g) := fun s => by
  rcases hxs : x s with ⟨e | b, s'⟩ <;> have h := hx s <;> rw [hxs] at h
  · cases h
  · cases h
    rw [M.bind_of_ok hxs]
    exact hg s'

theorem logErr {d : Nat} {x k : M Unit} (hx : Halts f x) (hf : ∀ e, f ≠ .err e) :
    Halts f (Runner.logErr d x k) := fun s => by
  rw [Runner.logErr_apply]
  rcases hxs : x s with ⟨(e | _ | _) | ⟨⟩, s'⟩ <;> have h := hx s <;> rw [hxs] at h <;> cases h
  exacts [absurd rfl (hf e), rfl, rfl]

theorem logErr_of_ok {d : Nat} {x k : M Unit} (hx : ∀ s, x s = (.ok (), s)) (hk : Halts f k) :
    Halts f (Runner.logErr d x k) := fun s => by
  rw [Runner.logErr_apply, hx]
  exact hk s

end Halts

/-- A pipeline `p` whose one step calls `p`: with every platform created, the run runs out of
every fuel, whatever the depth and the state it starts from. -/
theorem self_call_runs_out_at (p : Pipeline) (hp : p = ⟨none, .machine, false, [], [], [],
      [⟨none, none, ["p"], []⟩]⟩) (hW : ∀ t o, W.init t o = .ok ()) :
    ∀ (n d : Nat) (r : Runner), r.pip = p → r.prx = [("p", p)] → Halts .outOfFuel (r.run D W n d)
  | 0, _, _, _, _ => fun _ => rfl
  | n + 1, d, r, hr, hx => by
    have ih := self_call_runs_out_at p hp hW n (d + 1) (r.child W.order p) rfl hx
    have hb : ∀ s, (r.buildChild W d "p" s).1 = .ok (r.child W.order p) := fun s => by
      simp [buildChild_apply, childBuilder_build, hx, Store.read, hW, bind, Except.bind,
        Except.mapError, pure, Except.pure]
    have hcall : Halts .outOfFuel (r.call W (run D W n (d + 1)) d ⟨none, none, ["p"], []⟩) :=
      Halts.bind (Halts.bind_ok hb (Halts.bind ih))
    have hsteps : Halts .outOfFuel (r.steps D W (run D W n (d + 1)) d) := by
      simp only [steps, hr, hp, List.forM_cons]
      exact Halts.bind (Halts.bind (Halts.bind_ok (fun _ => rfl) (Halts.bind hcall)))
    have hart : ∀ s, r.artifacts D W d none s = (.ok (), s) := fun s => by
      simp only [artifacts, hr, hp, List.filter_nil, List.forM_nil]
      rfl
    have hrun : Halts .outOfFuel (r.runSteps D W (run D W n (d + 1)) d) :=
      Halts.logErr_of_ok hart (Halts.logErr hsteps (by simp))
    intro s
    have h := hrun { s with trace := s.trace ++ r.updates true ++ r.infoLines d }
    simp only [run]
    rw [runBody_eq]
    rcases hs : r.runSteps D W (run D W n (d + 1)) d _ with ⟨e | ⟨⟩, s'⟩ <;> rw [hs] at h <;>
      cases h
    rfl

theorem self_call_runs_out :
    let p : Pipeline := ⟨none, .machine, false, [], [], [], [⟨none, none, ["p"], []⟩]⟩
    let r : Runner := ⟨"7", "0", {}, .pipelineExec, {}, [("p", p)], p, none, [], [], .machine "7"⟩
    let W : World := ⟨fun _ _ => .ok (), fun _ _ => .ok (), fun _ => 0, .insertion⟩
    ∀ n, (r.run Definitions.bld W n 0 ⟨[], 0⟩).1 = .error .outOfFuel := by
  intro p r W n
  exact self_call_runs_out_at Definitions.bld W p rfl (fun _ _ => rfl) n 0 r rfl rfl _

end Runner

end Bld
