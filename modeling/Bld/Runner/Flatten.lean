import Bld.Runner.Trace

/-!
# The operations of a run (`flatten`)

When every runner that a run calls builds, every operation of those runners succeeds and no stop
token is sent, the run performs the operations of the reference `flatten(P)` of its pipeline
`P`, in order: the well-formed artifacts anchored at no step; then, for each step, `flatten` of
each pipeline it calls, its commands, and the well-formed artifacts anchored at its name; then
the dispose of `P` when `P` asks for one. A failing command of the run's own, or a failing
transfer of its own that does not ignore errors, ends its steps there, and the dispose follows.

* `outcome W h items`: the operations of `items` performed after the operations `h`, up to and
  including the first fatal one that fails.
* `Does W items x`: `x` performs `items`. It is closed under `bind` and `forM` (`Does.append`,
  `Does.forM`), and each method of the runner has it (`steps_does`).
* `run_acts_flatten`: the operations of a run are the `outcome` of its items, then its dispose;
  when every operation succeeds, `flatten`.
-/

namespace Bld

variable (D : Definitions) (W : World)

/-! ## The reference -/

namespace Runner

/-- The operation of the well-formed artifact `a` of `r` at depth `d`: its interpolated paths,
copied into the platform for `PUSH` and out of it for `GET`. -/
def transferAct (d : Nat) (r : Runner) (a : Artifact) : Act :=
  let «from» := r.applyContext D (a.«from».getD "")
  let «to» := r.applyContext D (a.«to».getD "")
  ⟨d, if a.method.getD "" = D.push then .push r.platform «from» «to»
    else .get r.platform «from» «to»⟩

/-- The well-formed artifacts of `r` anchored at `name`, in order; the failure of one is fatal to
the steps of `r` unless it ignores errors. -/
def artifactItems (d : Nat) (r : Runner) (name : Option String) : List (Act × Bool) :=
  (r.pip.artifacts.filter (·.after == name)).flatMap fun a =>
    if a.canContinue D then [(r.transferAct D d a, !a.ignoreErrors)] else []

/-- The interpolated command `c` of the step `s` of `r` at depth `d`. -/
def shAct (d : Nat) (r : Runner) (s : BuildStep) (c : String) : Act :=
  ⟨d, .sh r.platform (s.workingDir.map (r.applyContext D)) (r.applyContext D c)⟩

/-- The operations of `flatten(P)` but the dispose of `P`, for the runner `r` of `P` at depth `d`,
each with whether its failure ends the steps of `r`; a failure in a runner that `r` calls never
does. -/
def items : Nat → Nat → Runner → List (Act × Bool)
  | 0, _, _ => []
  | n + 1, d, r => r.artifactItems D d none ++ r.pip.steps.flatMap fun s =>
      (s.call.flatMap fun name => match r.prx.read name with
        | .ok p =>
          (((r.child W.order p).items n (d + 1)).map Prod.fst ++ (r.child W.order p).disposeActs (d + 1)).map
            (·, false)
        | .error _ => []) ++
      s.commands.map (fun c => (r.shAct D d s c, true)) ++ r.artifactItems D d s.name

/-- `flatten(P)` for the runner `r` of `P` at depth `d`. -/
def flatten (n d : Nat) (r : Runner) : List Act :=
  (r.items D W n d).map Prod.fst ++ r.disposeActs d

end Runner

/-- Every pipeline that the run of `p` can call, down to the depth `n`, is read from the store
`S`. -/
def Builds (S : Store) : Nat → Pipeline → Prop
  | 0, _ => True
  | n + 1, p => ∀ name ∈ p.calls, ∃ q, S.read name = .ok q ∧ Builds S n q

/-- The outcome of performing `items` after the operations `h`: the operations performed, in
order, up to and including the first fatal one that fails, and whether one failed. -/
def outcome (h : List Act) : List (Act × Bool) → List Act × Bool
  | [] => ([], false)
  | (a, fatal) :: items =>
    if fatal && !(W.result h a).toBool then ([a], true)
    else (a :: (outcome (h ++ [a]) items).1, (outcome (h ++ [a]) items).2)

theorem outcome_append (i₁ i₂ : List (Act × Bool)) : ∀ h : List Act,
    outcome W h (i₁ ++ i₂) =
      if (outcome W h i₁).2 then outcome W h i₁
      else ((outcome W h i₁).1 ++ (outcome W (h ++ (outcome W h i₁).1) i₂).1,
        (outcome W (h ++ (outcome W h i₁).1) i₂).2) := by
  induction i₁ with
  | nil => intro h; simp [outcome]
  | cons x i₁ ih =>
    intro h
    obtain ⟨a, fatal⟩ := x
    by_cases hf : (fatal && !(W.result h a).toBool) = true
    · simp [outcome, hf]
    · rw [List.cons_append, outcome, outcome, if_neg hf, if_neg hf, ih (h ++ [a])]
      split <;> simp

/-- Operations that are fatal to nothing are all performed. -/
theorem outcome_nonfatal (L : List Act) : ∀ h : List Act,
    outcome W h (L.map (·, false)) = (L, false) := by
  induction L with
  | nil => intro h; rfl
  | cons a L ih => intro h; simp [outcome, ih]

/-- Operations that all succeed are all performed. -/
theorem outcome_of_ok {items : List (Act × Bool)} (hok : ∀ x ∈ items, ∀ h, W.result h x.1 = .ok ()) :
    ∀ h : List Act, outcome W h items = (items.map Prod.fst, false) := by
  induction items with
  | nil => intro h; rfl
  | cons x items ih =>
    intro h
    obtain ⟨a, fatal⟩ := x
    simp [outcome, hok (a, fatal) (List.mem_cons_self _ _) h, Except.toBool,
      ih fun x hx => hok x (List.mem_cons_of_mem _ hx)]

/-! ## Performing items -/

/-- `res` is the end of a part that failed (`true`) or did not (`false`). -/
def EndsAs (res : Except Fault Unit) : Bool → Prop
  | true => ∃ e, res = .error (.err e)
  | false => res = .ok ()

/-- `x` performs `items` after the operations of the trace, unless it runs out of fuel: it
appends the operations of their outcome, and it fails, with an `anyhow` error, exactly when a
fatal one fails. -/
def Does (items : List (Act × Bool)) (x : M Unit) : Prop :=
  ∀ s, (x s).1 = .error .outOfFuel ∨
    ∃ N, (x s).2.trace = s.trace ++ N ∧ acts N = (outcome W (acts s.trace) items).1 ∧
      EndsAs (x s).1 (outcome W (acts s.trace) items).2

namespace Does

variable {W}

/-- A part that performs no operation and ends normally. -/
theorem of_quiet {x : M Unit}
    (hx : ∀ s, (x s).1 = .ok () ∧ ∃ N, (x s).2.trace = s.trace ++ N ∧ acts N = []) :
    Does W [] x := fun s =>
  let ⟨hr, N, hN, ha⟩ := hx s
  .inr ⟨N, hN, ha, hr⟩

theorem pure : Does W [] (pure () : M Unit) :=
  of_quiet fun _ => ⟨rfl, [], by simp⟩

/-- With no stop token sent, a check passes. -/
theorem checkStopSignal (hT : ∀ t, W.sent t = 0) {d : Nat} {cm : Option Receiver} :
    Does W [] (checkStopSignal W d cm) :=
  of_quiet fun s => by
    rw [checkStopSignal_of_le W s d cm (by rw [hT]; exact Nat.zero_le _)]
    exact ⟨rfl, [], by simp⟩

theorem append {x y : M Unit} {i₁ i₂ : List (Act × Bool)} (hx : Does W i₁ x) (hy : Does W i₂ y) :
    Does W (i₁ ++ i₂) (x >>= fun _ => y) := by
  intro s
  rcases hx s with hh | ⟨N₁, h₁, a₁, e₁⟩
  · exact .inl (M.bind_fst_of_error hh)
  rw [outcome_append]
  rcases hxs : x s with ⟨f | ⟨⟩, s₁⟩ <;> rw [hxs] at h₁ e₁ <;> dsimp only at h₁ e₁ <;>
    cases hb : (outcome W (acts s.trace) i₁).2 <;> rw [hb] at e₁
  · cases e₁
  · rw [M.bind_of_error hxs]
    exact .inr ⟨N₁, h₁, by simpa [hb] using a₁, by simpa [hb] using e₁⟩
  · rw [M.bind_of_ok hxs]
    refine (hy s₁).imp id fun ⟨N₂, h₂, a₂, e₂⟩ => ?_
    rw [h₁, acts_append, a₁] at a₂ e₂
    exact ⟨N₁ ++ N₂, by rw [h₂, h₁, List.append_assoc], by simp [a₁, a₂, hb], by simpa [hb] using e₂⟩
  · obtain ⟨e, ⟨⟩⟩ := e₁

theorem forM {γ : Type} {f : γ → List (Act × Bool)} {g : γ → M PUnit} :
    ∀ {l : List γ}, (∀ c ∈ l, Does W (f c) (g c)) → Does W (l.flatMap f) (l.forM g)
  | [], _ => pure
  | c :: l, h => by
    rw [List.flatMap_cons]
    exact append (h c (List.mem_cons_self c l)) (forM fun c hc => h c (List.mem_cons_of_mem _ hc))

/-- A part that ends normally with `a` and performs no operation, then `k a`. -/
theorem bind_quiet {α : Type} {x : M α} {a : α} {k : α → M Unit} {items : List (Act × Bool)}
    (hx : ∀ s, ∃ N, x s = (.ok a, { s with trace := s.trace ++ N }) ∧ acts N = [])
    (hk : Does W items (k a)) : Does W items (x >>= k) := by
  intro s
  obtain ⟨N₁, hxs, a₁⟩ := hx s
  rw [M.bind_of_ok hxs]
  refine (hk _).imp id fun ⟨N₂, h₂, a₂, e₂⟩ => ?_
  simp only [acts_append, a₁, List.append_nil] at a₂ e₂
  exact ⟨N₁ ++ N₂, by rw [h₂, List.append_assoc], by simp [a₁, a₂], e₂⟩

/-- `k` runs after the operation `a` is performed. -/
theorem after_perform {a : Act} {k : M Unit} {s : St} {items : List (Act × Bool)}
    (hk : Does W items k) :
    (k { s with trace := s.trace ++ [.act a] }).1 = .error .outOfFuel ∨
      ∃ N, (k { s with trace := s.trace ++ [.act a] }).2.trace = s.trace ++ N ∧
        acts N = a :: (outcome W (acts s.trace ++ [a]) items).1 ∧
        EndsAs (k { s with trace := s.trace ++ [.act a] }).1
          (outcome W (acts s.trace ++ [a]) items).2 :=
  (hk _).imp id fun ⟨N, hN, aN, eN⟩ => by
    simp only [acts_append, acts_act] at aN eN
    exact ⟨.act a :: N, by simp [hN], by simp [aN], eN⟩

/-- Performing `a`, then `k` of its result, which fails at once when `a` is fatal and failed. -/
theorem perform_bind {a : Act} {fatal : Bool} {k : Except Error Unit → M Unit}
    {items : List (Act × Bool)} (hok : Does W items (k (.ok ())))
    (hf : fatal = true → ∀ e s, ∃ e', k (.error e) s = (.error (.err e'), s))
    (hn : fatal = false → ∀ e, Does W items (k (.error e))) :
    Does W ((a, fatal) :: items) (perform W a >>= k) := by
  intro s
  rw [M.bind_of_ok (perform_apply W s a)]
  cases hr : W.result (acts s.trace) a with
  | ok u =>
    simp only [outcome, hr, Except.toBool, Bool.not_true, Bool.and_false, if_false,
      Bool.false_eq_true]
    exact after_perform hok
  | error m =>
    cases fatal with
    | true =>
      obtain ⟨e', he'⟩ := hf rfl (.platform m) { s with trace := s.trace ++ [.act a] }
      simp only [outcome, hr, Except.toBool, Bool.not_false, Bool.and_self, if_true]
      exact .inr ⟨[.act a], by simp [Except.mapError, he'], rfl, ⟨e', by simp [Except.mapError, he']⟩⟩
    | false =>
      simp only [outcome, Bool.false_and, if_false, Bool.false_eq_true]
      exact after_perform (hn rfl (.platform m))

/-- A part that ends with a stop check performs what it performed before the check. -/
theorem bind_check (hT : ∀ t, W.sent t = 0) {x : M Unit} {items : List (Act × Bool)} {d : Nat}
    {cm : Option Receiver} (hx : Does W items x) :
    Does W items (x >>= fun _ => Bld.checkStopSignal W d cm) := by
  simpa using append hx (checkStopSignal hT)

end Does

/-- `x` performs `items` and catches their failure: it ends normally unless it runs out of
fuel. -/
def Catches (items : List (Act × Bool)) (x : M Unit) : Prop :=
  ∀ s, (x s).1 = .error .outOfFuel ∨
    ∃ N, (x s).2.trace = s.trace ++ N ∧ acts N = (outcome W (acts s.trace) items).1 ∧
      (x s).1 = .ok ()

namespace Runner

variable {W}

/-- The `match` of `Runner::run` catches the failure of `x`, and then `k` does not run. -/
theorem logErr_catches {d : Nat} {x k : M Unit} {i₁ i₂ : List (Act × Bool)} (hx : Does W i₁ x)
    (hk : Catches W i₂ k) : Catches W (i₁ ++ i₂) (logErr d x k) := by
  intro s
  rw [logErr_apply]
  rcases hx s with hh | ⟨N₁, h₁, a₁, e₁⟩
  · rcases hxs : x s with ⟨f | ⟨⟩, s₁⟩ <;> rw [hxs] at hh <;> cases hh
    exact .inl rfl
  rw [outcome_append]
  rcases hxs : x s with ⟨f | ⟨⟩, s₁⟩ <;> rw [hxs] at h₁ e₁ <;> dsimp only at h₁ e₁ ⊢ <;>
    cases hb : (outcome W (acts s.trace) i₁).2 <;> rw [hb] at e₁
  · cases e₁
  · obtain ⟨e, ⟨⟩⟩ := e₁
    exact .inr ⟨N₁ ++ [.log d (.error e)], by simp [h₁], by simp [a₁, hb], rfl⟩
  · refine (hk s₁).imp id fun ⟨N₂, h₂, a₂, e₂⟩ => ?_
    rw [h₁, acts_append, a₁] at a₂
    exact ⟨N₁ ++ N₂, by rw [h₂, h₁, List.append_assoc], by simp [a₁, a₂, hb], e₂⟩
  · obtain ⟨e, ⟨⟩⟩ := e₁

theorem logErr_pure_catches {d : Nat} {x : M Unit} {i : List (Act × Bool)} (hx : Does W i x) :
    Catches W i (logErr d x (pure ())) := by
  have hk : Catches W [] (pure () : M Unit) := fun s => .inr ⟨[], by simp, by simp [outcome], rfl⟩
  simpa using logErr_catches (d := d) hx hk

end Runner

/-! ## What each method performs -/

namespace Runner

variable {D W}

/-- The interpolated method of a well-formed artifact is `PUSH` or `GET`, and `transfer` performs
its operation. -/
theorem transfer_eq {d : Nat} (r : Runner) {a : Artifact} (h : a.canContinue D = true) :
    r.transfer D W d (r.applyContext D (a.method.getD "")) (r.applyContext D (a.«from».getD ""))
      (r.applyContext D (a.«to».getD "")) = perform W (r.transferAct D d a) := by
  have hm := canContinue_method D h
  rw [applyContext_method D r hm]
  unfold transfer transferAct
  by_cases hp : a.method.getD "" = D.push
  · simp [hp]
  · have hg : a.method.getD "" = D.get := by simpa [hp] using hm
    have hp' : D.get ≠ D.push := hg ▸ hp
    simp [hg, hp']

theorem transferArtifact_does {d : Nat} (r : Runner) (a : Artifact) :
    Does W (if a.canContinue D then [(r.transferAct D d a, !a.ignoreErrors)] else [])
      (r.transferArtifact D W d a) := by
  unfold transferArtifact
  split
  · rename_i h
    refine Does.bind_quiet (fun s => ⟨_, rfl, rfl⟩) ?_
    rw [transfer_eq r h]
    refine Does.perform_bind ?_ (fun hf e s => ⟨e, by simp [hf]⟩) fun hf e => by simp [hf, Does.pure]
    split <;> exact Does.pure
  · exact Does.pure

theorem artifacts_does {d : Nat} (r : Runner) (name : Option String) :
    Does W (r.artifactItems D d name) (r.artifacts D W d name) :=
  Does.forM fun a _ => transferArtifact_does r a

/-- `Runner::call` builds the runner of a pipeline that the proxy reads, performing nothing. -/
theorem buildChild_quiet (hI : ∀ t o, W.init t o = .ok ()) {d : Nat} (r : Runner) {name : String}
    {p : Pipeline} (hp : r.prx.read name = .ok p) (s : St) :
    ∃ N, r.buildChild W d name s = (.ok (r.child W.order p), { s with trace := s.trace ++ N }) ∧
      acts N = [] :=
  ⟨[.build (d + 1) name], by
    simp [buildChild_apply, childBuilder_build, hp, hI, bind, Except.bind, Except.mapError, pure,
      Except.pure], rfl⟩

section Steps

variable (hT : ∀ t, W.sent t = 0)

include hT

theorem sh_does {d : Nat} (r : Runner) (step : BuildStep) :
    Does W (step.commands.map fun c => (r.shAct D d step c, true)) (r.sh D W d step) := by
  rw [List.map_eq_flatMap]
  refine Does.forM fun c _ => Does.perform_bind ?_ (fun _ e s => ⟨e, M.bind_of_error rfl⟩) nofun
  exact Does.bind_check hT (Does.of_quiet fun _ => ⟨rfl, [], by simp⟩)

variable (hI : ∀ t o, W.init t o = .ok ())

include hI

variable {n d : Nat} (r : Runner) {runChild : Runner → M Unit}
  (hc : ∀ name ∈ r.pip.calls, ∃ p, r.prx.read name = .ok p ∧
    Does W (((r.child W.order p).flatten D W n (d + 1)).map (·, false)) (runChild (r.child W.order p)))

include hc

/-- The items of the calls of `step`: `flatten` of each pipeline it calls. -/
theorem call_does (step : BuildStep) (hs : step ∈ r.pip.steps) :
    Does W (step.call.flatMap fun name => match r.prx.read name with
        | .ok p => ((r.child W.order p).flatten D W n (d + 1)).map (·, false)
        | .error _ => [])
      (r.call W runChild d step) := by
  refine Does.forM fun name hn => ?_
  obtain ⟨p, hp, hd⟩ := hc name (List.mem_flatMap.mpr ⟨step, hs, hn⟩)
  rw [hp]
  exact Does.bind_quiet (buildChild_quiet hI r hp) (Does.bind_check hT hd)

theorem steps_does :
    Does W (r.pip.steps.flatMap fun s =>
        (s.call.flatMap fun name => match r.prx.read name with
          | .ok p => ((r.child W.order p).flatten D W n (d + 1)).map (·, false)
          | .error _ => []) ++
        s.commands.map (fun c => (r.shAct D d s c, true)) ++ r.artifactItems D d s.name)
      (r.steps D W runChild d) := by
  refine Does.forM fun step hs => Does.append (Does.bind_quiet (a := ⟨⟩) (fun s => ?_) (Does.append
    (call_does hT hI r hc step hs) (sh_does hT r step))) (Does.bind_check hT (artifacts_does r _))
  cases step.name
  · exact ⟨[], by simp [Option.forM]⟩
  · exact ⟨_, rfl, rfl⟩

theorem runSteps_catches :
    Catches W (r.artifactItems D d none ++ r.pip.steps.flatMap fun s =>
        (s.call.flatMap fun name => match r.prx.read name with
          | .ok p => ((r.child W.order p).flatten D W n (d + 1)).map (·, false)
          | .error _ => []) ++
        s.commands.map (fun c => (r.shAct D d s c, true)) ++ r.artifactItems D d s.name)
      (r.runSteps D W runChild d) :=
  logErr_catches (artifacts_does r none) (logErr_pure_catches (steps_does hT hI r hc))

end Steps

/-! ## A whole run -/

theorem artifactItems_depth {d : Nat} (r : Runner) (name : Option String) :
    ∀ x ∈ r.artifactItems D d name, x.1.depth = d := by
  intro x hx
  simp only [artifactItems, List.mem_flatMap] at hx
  obtain ⟨a, -, hx⟩ := hx
  split at hx
  · rw [List.mem_singleton.mp hx]
    rfl
  · cases hx

theorem disposeActs_depth {d : Nat} (r : Runner) : ∀ a ∈ r.disposeActs d, a.depth = d := by
  unfold disposeActs
  split <;> simp

/-- The operations of a runner's items are its own or deeper. -/
theorem items_depth : ∀ (n d : Nat) (r : Runner), ∀ x ∈ r.items D W n d, d ≤ x.1.depth
  | 0, _, _ => nofun
  | n + 1, d, r => by
    intro x hx
    simp only [items, List.mem_append, List.mem_flatMap, List.mem_map] at hx
    rcases hx with hx | ⟨s, -, (⟨name, -, hx⟩ | ⟨c, -, rfl⟩) | hx⟩
    · exact (artifactItems_depth r none x hx).ge
    · split at hx
      · simp only [List.mem_map, List.mem_append] at hx
        obtain ⟨a, ⟨y, hy, rfl⟩ | ha, rfl⟩ := hx
        · exact Nat.le_of_succ_le (items_depth n (d + 1) _ y hy)
        · exact (disposeActs_depth _ a ha).symm ▸ Nat.le_succ d
      · cases hx
    · exact Nat.le_refl d
    · exact (artifactItems_depth r _ x hx).ge

variable (D W)

/-- The run of a runner whose calls all build, in a world where every operation of the runners it
calls succeeds and no stop token is sent: unless it runs out of fuel, it performs the outcome of
its items, then its dispose. -/
theorem run_does (hT : ∀ t, W.sent t = 0) (hI : ∀ t o, W.init t o = .ok ()) :
    ∀ (n d : Nat) (r : Runner), Builds r.prx n r.pip →
      (∀ h a, d < a.depth → W.result h a = .ok ()) → ∀ s,
      (r.run D W n d s).1 = .error .outOfFuel ∨ ∃ N, (r.run D W n d s).2.trace = s.trace ++ N ∧
        acts N = (outcome W (acts s.trace) (r.items D W n d)).1 ++ r.disposeActs d
  | 0, _, _, _, _ => fun _ => .inl rfl
  | n + 1, d, r, hB, hW => fun s => by
    have hc : ∀ name ∈ r.pip.calls, ∃ p, r.prx.read name = .ok p ∧
        Does W (((r.child W.order p).flatten D W n (d + 1)).map (·, false)) (run D W n (d + 1) (r.child W.order p)) := by
      intro name hn
      obtain ⟨p, hp, hBp⟩ := hB name hn
      refine ⟨p, hp, fun s' => ?_⟩
      refine (run_does hT hI n (d + 1) (r.child W.order p) hBp (fun h a ha => hW h a (by omega)) s').elim
        .inl fun ⟨N, hN, aN⟩ => ?_
      by_cases hf : (run D W n (d + 1) (r.child W.order p) s').1 = .error .outOfFuel
      · exact .inl hf
      rw [outcome_of_ok W (fun x hx h => hW h x.1 (items_depth n (d + 1) _ x hx))] at aN
      rw [outcome_nonfatal]
      exact .inr ⟨N, hN, aN, run_eq_ok D W n (d + 1) _ s' hf fun h => hW h _ (Nat.lt_succ_self d)⟩
    obtain ⟨s', ⟨hs, hr⟩ | ⟨hs, hr⟩⟩ := run_succ_cases D W n d r s
    · exact .inl (by rw [hr])
    rcases runSteps_catches hT hI r hc { s with trace := s.trace ++ r.updates true ++ r.infoLines d }
      with hh | ⟨N, hN, aN, -⟩
    · rw [hs] at hh
      cases hh
    rw [hs] at hN
    dsimp only at hN aN
    simp only [acts_append, acts_updates, acts_infoLines, List.append_nil] at aN
    refine .inr ⟨r.updates true ++ r.infoLines d ++ N ++ r.updates false ++
      (r.disposeActs d).map .act, ?_, ?_⟩
    · rw [hr, dispose_trace]
      simp [hN]
    · simp only [acts_append, acts_updates, acts_infoLines, List.append_nil, List.nil_append,
        acts_map_act, aN]
      rfl

/-- When every runner that the run calls builds, every operation of those runners (their disposes
included) succeeds and no stop token is sent, a run that ends performs the reference's items up
to and including the first of its own fatal operations that fails, then its dispose; when every
operation succeeds, `flatten` of its pipeline. -/
theorem run_acts_flatten (n d : Nat) (r : Runner) (s : St) (hB : Builds r.prx n r.pip)
    (hW : ∀ h a, d < a.depth → W.result h a = .ok ()) (hI : ∀ t o, W.init t o = .ok ())
    (hT : ∀ t, W.sent t = 0) (hfin : (r.run D W n d s).1 ≠ .error .outOfFuel) :
    acts (r.run D W n d s).2.trace =
        acts s.trace ++ (outcome W (acts s.trace) (r.items D W n d)).1 ++ r.disposeActs d ∧
      ((∀ h a, W.result h a = .ok ()) →
        acts (r.run D W n d s).2.trace = acts s.trace ++ r.flatten D W n d) := by
  obtain ⟨N, hN, aN⟩ := (run_does D W hT hI n d r hB hW s).resolve_left hfin
  have ha : acts (r.run D W n d s).2.trace =
      acts s.trace ++ (outcome W (acts s.trace) (r.items D W n d)).1 ++ r.disposeActs d := by
    rw [hN, acts_append, aN, List.append_assoc]
  refine ⟨ha, fun hok => ?_⟩
  rw [ha, outcome_of_ok W (fun x _ h => hok h x.1), flatten, List.append_assoc]

theorem run_acts_flatten_call :
    let child : Pipeline := ⟨none, .machine, true, [], [], [], [⟨none, none, [], ["a"]⟩]⟩
    let root : Pipeline := ⟨none, .machine, false, [], [], [],
      [⟨some "s1", none, ["child"], ["b"]⟩, ⟨none, none, [], ["c"]⟩]⟩
    let r : Runner := ⟨"7", "0", {}, .pipelineExec, {}, [("child", child)], root, none, [], [],
      .machine "7"⟩
    let W : World := ⟨fun _ a => if a = ⟨0, .sh (.machine "7") none "b"⟩ then .error "exit 1"
      else .ok (), fun _ _ => .ok (), fun _ => 0, .insertion⟩
    Builds r.prx 2 r.pip ∧ (∀ h a, 0 < a.depth → W.result h a = .ok ()) ∧
      (∀ t o, W.init t o = .ok ()) ∧ (∀ t, W.sent t = 0) ∧
      (r.run Definitions.bld W 2 0 ⟨[], 0⟩).1 ≠ .error .outOfFuel ∧
      (acts (r.run Definitions.bld W 2 0 ⟨[], 0⟩).2.trace =
          acts [] ++ (outcome W (acts []) (r.items Definitions.bld W 2 0)).1 ++ r.disposeActs 0 ∧
        ((∀ h a, W.result h a = .ok ()) →
          acts (r.run Definitions.bld W 2 0 ⟨[], 0⟩).2.trace =
            acts [] ++ r.flatten Definitions.bld W 2 0)) := by
  intro child root r W
  have hB : Builds r.prx 2 r.pip := by
    intro name hn
    obtain rfl : name = "child" := by simpa [root, Pipeline.calls] using hn
    exact ⟨child, rfl, fun _ h => by simp [child, Pipeline.calls] at h⟩
  have hW : ∀ h a, 0 < a.depth → W.result h a = .ok () := fun _ a ha =>
    if_neg fun (h : a = ⟨0, _⟩) => by simp [h] at ha
  have hfin : (r.run Definitions.bld W 2 0 ⟨[], 0⟩).1 ≠ .error .outOfFuel :=
    fun h => Except.noConfusion (h : Except.ok () = _)
  exact ⟨hB, hW, fun _ _ => rfl, fun _ => rfl, hfin,
    run_acts_flatten Definitions.bld W 2 0 r ⟨[], 0⟩ hB hW (fun _ _ => rfl) (fun _ => rfl) hfin⟩

end Runner

end Bld
