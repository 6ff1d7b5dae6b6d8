import Bld.Runner.Flatten

/-!
# The order of a run's operations

`run_acts_flatten` (`Bld/Runner/Flatten.lean`) says what a run performs when every runner it
calls builds, every operation of those runners succeeds and no stop token is sent: the operations
of the reference `flatten(P)`. Without these hypotheses a failed operation, a stop token or a
build that fails ends parts of the run early, and nothing else changes:

* `Within L x`: the operations that `x` performs are among `L`, in the order of `L` (a sublist).
  It is closed under `bind`, `forM` and the `match` of `Runner::run` (`Within.logErr`), and each
  method of the runner has it (`steps_within`, `runBody_within`).
* `run_acts_sublist_flatten`: for every outcome of every operation, every platform creation and
  every delivery of stop tokens, the operations of a run form a sublist of `flatten(P)`. The
  runner performs no operation that the reference does not list, repeats none, and never
  performs two of them out of the reference's order.
-/

namespace Bld

variable (D : Definitions) (W : World)

/-- The operations that `x` performs are among `L`, in the order of `L`. -/
def Within {α : Type} (L : List Act) (x : M α) : Prop :=
  ∀ s, ∃ N, (x s).2.trace = s.trace ++ N ∧ (acts N).Sublist L

namespace Within

variable {α β : Type} {L L₁ L₂ : List Act}

/-- A part that performs no operation. -/
theorem of_emits {x : M α} (hx : Emits (fun e => e.act? = none) x) : Within L x := fun s =>
  let ⟨N, hN, q⟩ := hx s
  ⟨N, hN, by rw [show acts N = [] from List.filterMap_eq_nil_iff.mpr q]; exact List.nil_sublist L⟩

theorem pure (a : α) : Within L (pure a : M α) := of_emits (Emits.pure a)

theorem emit {e : Event} (h : e.act? = none) : Within L (emit e) := of_emits (Emits.emit h)

theorem ofExcept (r : Except Error α) : Within L (ofExcept r) := of_emits (Emits.ofExcept r)

theorem checkStopSignal {d : Nat} {cm : Option Receiver} : Within L (checkStopSignal W d cm) :=
  of_emits (Emits.checkStopSignal rfl)

theorem perform {a : Act} : Within [a] (perform W a) := fun _ =>
  ⟨[.act a], rfl, List.Sublist.refl _⟩

/-- `bind`, where the continuation is needed only at the values `x` can return. -/
theorem bind_of {x : M α} {f : α → M β} {P : α → Prop} (hx : Within L₁ x)
    (hP : ∀ s a, (x s).1 = .ok a → P a) (hf : ∀ a, P a → Within L₂ (f a)) :
    Within (L₁ ++ L₂) (x >>= f) := by
  intro s
  obtain ⟨N₁, h₁, q₁⟩ := hx s
  rcases hxs : x s with ⟨_ | a, s₁⟩ <;> rw [hxs] at h₁
  · rw [M.bind_of_error hxs]
    exact ⟨N₁, h₁, q₁.trans (List.sublist_append_left L₁ L₂)⟩
  · rw [M.bind_of_ok hxs]
    obtain ⟨N₂, h₂, q₂⟩ := hf a (hP s a (by rw [hxs])) s₁
    exact ⟨N₁ ++ N₂, by rw [h₂, h₁, List.append_assoc], by rw [acts_append]; exact q₁.append q₂⟩

theorem bind {x : M α} {f : α → M β} (hx : Within L₁ x) (hf : ∀ a, Within L₂ (f a)) :
    Within (L₁ ++ L₂) (x >>= f) :=
  bind_of (P := fun _ => True) hx (fun _ _ _ => trivial) fun a _ => hf a

/-- A part that performs nothing, then `f` at the values it can return. -/
theorem quiet_bind_of {x : M α} {f : α → M β} {P : α → Prop} (hx : Within [] x)
    (hP : ∀ s a, (x s).1 = .ok a → P a) (hf : ∀ a, P a → Within L (f a)) :
    Within L (x >>= f) := by
  simpa using hx.bind_of hP hf

theorem quiet_bind {x : M α} {f : α → M β} (hx : Within [] x) (hf : ∀ a, Within L (f a)) :
    Within L (x >>= f) := by
  simpa using hx.bind hf

theorem bind_quiet {x : M α} {f : α → M β} (hx : Within L x) (hf : ∀ a, Within [] (f a)) :
    Within L (x >>= f) := by
  simpa using hx.bind hf

/-- Performing `a`, then a part that performs nothing. -/
theorem perform_bind {a : Act} {f : Except Error Unit → M β} (hf : ∀ res, Within [] (f res)) :
    Within [a] (Bld.perform W a >>= f) :=
  (perform W).bind_quiet hf

theorem forM {γ : Type} {f : γ → M PUnit} {g : γ → List Act} :
    ∀ {l : List γ}, (∀ c ∈ l, Within (g c) (f c)) → Within (l.flatMap g) (l.forM f)
  | [], _ => pure _
  | c :: l, h => by
    rw [List.flatMap_cons]
    exact bind (h c (List.mem_cons_self c l)) fun _ => forM fun c hc => h c (List.mem_cons_of_mem _ hc)

theorem attempt {x : M α} (hx : Within L x) : Within L (attempt x) := by
  intro s
  obtain ⟨N, h, q⟩ := hx s
  refine ⟨N, ?_, q⟩
  unfold Bld.attempt
  split <;> simp_all

/-- The `match` of `Runner::run`: the error line of `x` performs nothing. -/
theorem logErr {d : Nat} {x k : M Unit} (hx : Within L₁ x) (hk : Within L₂ k) :
    Within (L₁ ++ L₂) (Runner.logErr d x k) :=
  (attempt hx).bind fun res => by
    rcases res with e | ⟨⟩
    exacts [emit rfl, hk]

theorem logErr_pure {d : Nat} {x : M Unit} (hx : Within L x) :
    Within L (Runner.logErr d x (Pure.pure ())) := by
  simpa using hx.logErr (pure () : Within [] _) (d := d)

end Within

/-! ## Each method of the runner -/

namespace Runner

/-- The operations of the well-formed artifacts of `r` anchored at `name`. -/
theorem artifactItems_fst (d : Nat) (r : Runner) (name : Option String) :
    (r.artifactItems D d name).map Prod.fst =
      (r.pip.artifacts.filter (·.after == name)).flatMap fun a =>
        if a.canContinue D then [r.transferAct D d a] else [] := by
  rw [artifactItems, List.map_flatMap]
  congr 1
  funext a
  split <;> rfl

/-- The operations of the pipelines that the step `s` calls. -/
theorem callItems_fst (n d : Nat) (r : Runner) (s : BuildStep) :
    (s.call.flatMap fun name => match r.prx.read name with
        | .ok p => ((r.child W.order p).flatten D W n (d + 1)).map (·, false)
        | .error _ => []).map Prod.fst =
      s.call.flatMap fun name => match r.prx.read name with
        | .ok p => (r.child W.order p).flatten D W n (d + 1)
        | .error _ => [] := by
  rw [List.map_flatMap]
  congr 1
  funext name
  split <;> simp [Function.comp_def]

section Methods

variable {n d : Nat} (r : Runner)

theorem transferArtifact_within (a : Artifact) :
    Within (if a.canContinue D then [r.transferAct D d a] else []) (r.transferArtifact D W d a) := by
  unfold transferArtifact
  split
  · rename_i hc
    refine Within.quiet_bind (Within.emit rfl) fun _ => ?_
    rw [transfer_eq r hc]
    exact Within.perform_bind W fun _ => by split; exacts [Within.ofExcept _, Within.pure _]
  · exact Within.pure _

theorem artifacts_within (name : Option String) :
    Within ((r.artifactItems D d name).map Prod.fst) (r.artifacts D W d name) := by
  rw [artifactItems_fst]
  exact Within.forM fun a _ => transferArtifact_within D W r a

theorem sh_within (step : BuildStep) :
    Within (step.commands.map (r.shAct D d step)) (r.sh D W d step) := by
  rw [List.map_eq_flatMap]
  exact Within.forM fun _ _ => Within.perform_bind W fun _ =>
    Within.quiet_bind (Within.ofExcept _) fun _ => Within.checkStopSignal W

theorem buildChild_within (name : String) : Within [] (r.buildChild W d name) :=
  Within.quiet_bind (Within.emit rfl) fun _ =>
    Within.quiet_bind (Within.of_emits Emits.time) fun _ => Within.ofExcept _

variable {runChild : Runner → M Unit}
  (hc : ∀ p, Within ((r.child W.order p).flatten D W n (d + 1)) (runChild (r.child W.order p)))

include hc

/-- A pipeline that the proxy reads is run as `flatten` of it; one that it cannot read is not
built, and nothing runs. -/
theorem call_within (step : BuildStep) :
    Within (step.call.flatMap fun name => match r.prx.read name with
        | .ok p => (r.child W.order p).flatten D W n (d + 1)
        | .error _ => [])
      (r.call W runChild d step) := by
  refine Within.forM fun name _ => ?_
  rcases hr : r.prx.read name with e | p
  · refine (buildChild_within W r name).quiet_bind_of (P := fun _ => False) (fun _ c h => ?_) nofun
    obtain ⟨p, hp, -⟩ := buildChild_ok W h
    exact Except.noConfusion (hr.symm.trans hp)
  · refine (buildChild_within W r name).quiet_bind_of (P := (· = r.child W.order p)) (fun _ c h => ?_)
      fun c hcp => hcp ▸ (hc p).bind_quiet fun _ => Within.checkStopSignal W
    obtain ⟨p', hp', rfl⟩ := buildChild_ok W h
    rw [Except.ok.inj (hr.symm.trans hp')]

theorem steps_within :
    Within (r.pip.steps.flatMap fun s =>
        (s.call.flatMap fun name => match r.prx.read name with
          | .ok p => (r.child W.order p).flatten D W n (d + 1)
          | .error _ => []) ++
        s.commands.map (r.shAct D d s) ++ (r.artifactItems D d s.name).map Prod.fst)
      (r.steps D W runChild d) := by
  refine Within.forM fun step _ => Within.bind (Within.quiet_bind ?_ fun _ =>
    (call_within D W r hc step).bind fun _ => sh_within D W r step) fun _ =>
      (artifacts_within D W r _).bind_quiet fun _ => Within.checkStopSignal W
  cases step.name
  · exact Within.pure _
  · exact Within.emit rfl

/-- A run's body performs the operations of its artifacts and steps, then its dispose, in this
order. -/
theorem runBody_within :
    Within ((r.artifactItems D d none).map Prod.fst ++ (r.pip.steps.flatMap fun s =>
        (s.call.flatMap fun name => match r.prx.read name with
          | .ok p => (r.child W.order p).flatten D W n (d + 1)
          | .error _ => []) ++
        s.commands.map (r.shAct D d s) ++ (r.artifactItems D d s.name).map Prod.fst) ++
        r.disposeActs d)
      (r.runBody D W runChild d) := by
  have hq : ∀ (T : List Event), acts T = [] → ∀ x : M Unit,
      (∀ s, x s = (.ok (), { s with trace := s.trace ++ T })) → Within [] x :=
    fun T hT x hx s => ⟨T, by rw [hx], hT ▸ List.Sublist.refl _⟩
  have hd : Within (r.disposeActs d) (r.dispose W d) := by
    unfold dispose disposeActs
    split
    · exact Within.perform_bind W fun _ => Within.ofExcept _
    · exact Within.pure _
  exact Within.quiet_bind (hq _ (acts_updates r true) _ (persistStart_apply r)) fun _ =>
    Within.quiet_bind (hq _ (acts_infoLines d r) _ (info_apply d r)) fun _ =>
      (Within.logErr (artifacts_within D W r none)
        (Within.logErr_pure (steps_within D W r hc))).bind fun _ =>
      Within.quiet_bind (hq _ (acts_updates r false) _ (persistEnd_apply r)) fun _ => hd

end Methods

/-- The operations of a runner's items: those of its artifacts anchored at no step, then, step by
step, `flatten` of each pipeline it calls, its commands and its artifacts anchored at the step. -/
theorem items_succ_fst (n d : Nat) (r : Runner) :
    (r.items D W (n + 1) d).map Prod.fst =
      (r.artifactItems D d none).map Prod.fst ++ r.pip.steps.flatMap fun s =>
        (s.call.flatMap fun name => match r.prx.read name with
          | .ok p => (r.child W.order p).flatten D W n (d + 1)
          | .error _ => []) ++
        s.commands.map (r.shAct D d s) ++ (r.artifactItems D d s.name).map Prod.fst := by
  rw [items, List.map_append, List.map_flatMap]
  congr 2
  funext s
  rw [List.map_append, List.map_append, List.map_map]
  exact congrArg (· ++ _) (congrArg (· ++ _) (callItems_fst D W n d r s))

/-- For every outcome of every operation, every platform creation and every delivery of stop
tokens, the operations of a run form a sublist of `flatten(P)`: the runner performs no operation
that the reference does not list, repeats none, and never performs two of them out of order. -/
theorem run_acts_sublist_flatten :
    ∀ (n d : Nat) (r : Runner) (s : St),
      ∃ N, (r.run D W n d s).2.trace = s.trace ++ N ∧ (acts N).Sublist (r.flatten D W n d)
  | 0, _, _ => Within.of_emits (Emits.halt _)
  | n + 1, d, r => by
    have h := runBody_within D W r fun p => run_acts_sublist_flatten n (d + 1) (r.child W.order p)
    rwa [← items_succ_fst] at h

end Runner

end Bld
