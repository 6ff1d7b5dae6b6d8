import Bld.Runner.Builder
import Mathlib.Data.List.Perm.Basic

/-!
# Interpolation (`Runner::apply_context`)

`apply_context` runs three passes of `str::replace` over the text: the run properties, the
environment, the variables. The environment pass and the variable pass are one function,
`applyDeclared`, applied to the token, the resolved map and the declarations of each: first every
entry of the resolved `HashMap` in its iteration order, then every declaration's default.

The reference of spec §4.2 visits names instead of map entries (`interpolateAlong`, and
`interpolate` for the declaration order).

* `applyContext_of_noTokens`: a text holding none of the tokens is a fixed point.
* `applyContext_method`: `PUSH` and `GET` are fixed points.
* `applyContext_perm`: over any iteration order of the resolved maps, `apply_context` is the
  reference pass along that order of names; `applyContext_order_matters`: the order changes the
  result for the declared names `A` and `AB`.
-/

namespace Bld

open Text

variable (D : Definitions)

/-- The two sub-passes of `apply_environment` and `apply_variables` under the token `token`:
every entry of the resolved map, then every declaration's default. -/
def applyDeclared (token : String) (resolved : Map) (decls : List Variable) (txt : String) :
    String :=
  let txt := resolved.foldl (fun t e => replace t (token ++ e.1) e.2) txt
  decls.foldl (fun t e => replace t (token ++ e.name) e.defaultValue) txt

/-- `Runner::apply_run_properties`. -/
def Runner.applyRunProperties (r : Runner) (txt : String) : String :=
  replace (replace txt D.runPropsId r.runId) D.runPropsStartTime r.runStartTime

/-- `Runner::apply_environment`. -/
def Runner.applyEnvironment (r : Runner) : String → String :=
  applyDeclared D.envToken r.env r.pip.environment

/-- `Runner::apply_variables`. -/
def Runner.applyVariables (r : Runner) : String → String :=
  applyDeclared D.varToken r.vars r.pip.«variables»

/-- `Runner::apply_context`. -/
def Runner.applyContext (r : Runner) (txt : String) : String :=
  r.applyVariables D (r.applyEnvironment D (r.applyRunProperties D txt))

/-! ## Texts without tokens -/

/-- `txt` holds none of the texts that `replace` looks for under `token`. -/
def NoTokens (token : String) (resolved : Map) (decls : List Variable) (txt : String) : Prop :=
  ∀ n ∈ resolved.map (·.1) ++ decls.map (·.name), ¬ Occurs (token ++ n) txt

/-- `txt` holds none of the tokens that `r.applyContext` replaces. -/
def Runner.NoTokens (r : Runner) (txt : String) : Prop :=
  ¬ Occurs D.runPropsId txt ∧ ¬ Occurs D.runPropsStartTime txt ∧
    Bld.NoTokens D.envToken r.env r.pip.environment txt ∧
    Bld.NoTokens D.varToken r.vars r.pip.«variables» txt

instance (token : String) (resolved : Map) (decls : List Variable) (txt : String) :
    Decidable (NoTokens token resolved decls txt) :=
  inferInstanceAs (Decidable (∀ n ∈ resolved.map (·.1) ++ decls.map (·.name),
    ¬ Occurs (token ++ n) txt))

instance (r : Runner) (txt : String) : Decidable (r.NoTokens D txt) :=
  inferInstanceAs (Decidable (¬ Occurs D.runPropsId txt ∧ ¬ Occurs D.runPropsStartTime txt ∧
    Bld.NoTokens D.envToken r.env r.pip.environment txt ∧
    Bld.NoTokens D.varToken r.vars r.pip.«variables» txt))

theorem foldl_replace_of_not_occurs {β : Type} (l : List β) (pat val : β → String) (txt : String)
    (h : ∀ b ∈ l, ¬ Occurs (pat b) txt) :
    l.foldl (fun t b => replace t (pat b) (val b)) txt = txt := by
  induction l with
  | nil => rfl
  | cons b l ih =>
    rw [List.foldl_cons, replace_of_not_occurs _ (h b (List.mem_cons_self b l))]
    exact ih fun b hb => h b (List.mem_cons_of_mem _ hb)

theorem applyDeclared_of_noTokens {token : String} {resolved : Map} {decls : List Variable}
    {txt : String} (h : NoTokens token resolved decls txt) :
    applyDeclared token resolved decls txt = txt := by
  unfold applyDeclared
  rw [foldl_replace_of_not_occurs _ (fun e => token ++ e.1) _ _
      fun e he => h _ (List.mem_append_left _ (List.mem_map_of_mem _ he)),
    foldl_replace_of_not_occurs _ (fun e => token ++ e.name) _ _
      fun e he => h _ (List.mem_append_right _ (List.mem_map_of_mem _ he))]

/-- A text holding none of the tokens is a fixed point of `apply_context`. -/
theorem applyContext_of_noTokens {r : Runner} {txt : String} (h : r.NoTokens D txt) :
    r.applyContext D txt = txt := by
  obtain ⟨hid, hst, henv, hvars⟩ := h
  simp only [Runner.applyContext, Runner.applyRunProperties, replace_of_not_occurs _ hid,
    replace_of_not_occurs _ hst, Runner.applyEnvironment, applyDeclared_of_noTokens henv,
    Runner.applyVariables, applyDeclared_of_noTokens hvars]

/-- A method name holds no token, whatever the names and maps. -/
theorem noTokens_method (r : Runner) {m : String} (hm : m ∈ [D.push, D.get]) :
    r.NoTokens D m := by
  have h := fun t ht => D.tokens_not_in_methods t ht m hm
  simp only [List.mem_cons, List.mem_singleton, forall_eq_or_imp, forall_eq,
    List.not_mem_nil, or_false] at h
  exact ⟨h.2.2.1, h.2.2.2, fun n _ => not_occurs_append n h.1,
    fun n _ => not_occurs_append n h.2.1⟩

theorem applyContext_method (r : Runner) {m : String} (hm : m ∈ [D.push, D.get]) :
    r.applyContext D m = m :=
  applyContext_of_noTokens D (noTokens_method D r hm)

/-! ## Iteration order -/

/-- One pass of spec §4.2 under `token`, visiting the names of `order`: each name's resolved
value, then every declaration's default. -/
def passAlong (token : String) (resolved : Map) (order : List String) (decls : List Variable)
    (txt : String) : String :=
  let txt := order.foldl (fun t k => replace t (token ++ k) ((resolved.get? k).getD "")) txt
  decls.foldl (fun t e => replace t (token ++ e.name) e.defaultValue) txt

/-- The reference interpolation of spec §4.2, visiting the environment names in `envOrder` and
the variable names in `varOrder`. -/
def Runner.interpolateAlong (r : Runner) (envOrder varOrder : List String) (txt : String) :
    String :=
  passAlong D.varToken r.vars varOrder r.pip.«variables»
    (passAlong D.envToken r.env envOrder r.pip.environment (r.applyRunProperties D txt))

/-- The reference of spec §4.2: the names in the order of their declarations. -/
def Runner.interpolate (r : Runner) : String → String :=
  r.interpolateAlong D (r.pip.environment.map (·.name)) (r.pip.«variables».map (·.name))

theorem foldl_entries (σ : Map) (token : String) :
    ∀ {l : Map}, (∀ e ∈ l, σ.get? e.1 = some e.2) → ∀ txt : String,
      l.foldl (fun t e => replace t (token ++ e.1) e.2) txt =
        l.keys.foldl (fun t k => replace t (token ++ k) ((σ.get? k).getD "")) txt
  | [], _, _ => rfl
  | e :: l, h, txt => by
    simp only [List.foldl_cons, Map.keys, List.map_cons, h e (List.mem_cons_self e l),
      Option.getD_some]
    exact foldl_entries σ token (fun e he => h e (List.mem_cons_of_mem _ he)) _

/-- The map pass of the code is the name pass along the map's own order. -/
theorem applyDeclared_eq_passAlong {σ : Map} (hσ : σ.keys.Nodup) (token : String)
    (decls : List Variable) (txt : String) :
    applyDeclared token σ decls txt = passAlong token σ σ.keys decls txt := by
  unfold applyDeclared passAlong
  rw [foldl_entries σ token (fun e he => (Map.get?_eq_some_iff hσ).mpr he)]

theorem passAlong_congr {σ m : Map} (h : ∀ k, σ.get? k = m.get? k) (token : String)
    (order : List String) (decls : List Variable) :
    passAlong token σ order decls = passAlong token m order decls := by
  funext txt
  simp only [passAlong, h]

/-- Over every iteration order of the maps that `build` resolves, `apply_context` is the
reference pass along that order of the names; along the declaration order it is the reference of
spec §4.2 (`interpolate`). -/
theorem applyContext_perm {init : RunsOn → Except String Unit} {o : MapOrder} {b : RunnerBuilder}
    {r : Runner} (hb : b.build init o = .ok r) {σe σv : Map} (he : σe.Perm r.env) (hv : σv.Perm r.vars)
    (txt : String) :
    { r with env := σe, vars := σv }.applyContext D txt =
        r.interpolateAlong D σe.keys σv.keys txt ∧
      (σe.keys = r.pip.environment.map (·.name) → σv.keys = r.pip.«variables».map (·.name) →
        { r with env := σe, vars := σv }.applyContext D txt = r.interpolate D txt) := by
  obtain ⟨E, V, hE, hV⟩ := build_eq_ok_resolved hb
  have hke : r.env.keys.Nodup := ((hE.map Prod.fst).nodup_iff).mpr (Map.keys_collect_nodup _)
  have hkv : r.vars.keys.Nodup := ((hV.map Prod.fst).nodup_iff).mpr (Map.keys_collect_nodup _)
  have hσe : σe.keys.Nodup := ((he.map Prod.fst).nodup_iff).mpr hke
  have hσv : σv.keys.Nodup := ((hv.map Prod.fst).nodup_iff).mpr hkv
  have h : { r with env := σe, vars := σv }.applyContext D txt =
      r.interpolateAlong D σe.keys σv.keys txt := by
    simp only [Runner.applyContext, Runner.applyEnvironment, Runner.applyVariables,
      applyDeclared_eq_passAlong hσe, applyDeclared_eq_passAlong hσv,
      passAlong_congr (Map.get?_perm he hke), passAlong_congr (Map.get?_perm hv hkv)]
    rfl
  refine ⟨h, fun hoe hov => ?_⟩
  rw [h, hoe, hov]
  rfl

theorem applyContext_perm_swapped :
    let p : Pipeline := ⟨none, .machine, false, [⟨"A", "a"⟩, ⟨"AB", "ab"⟩], [], [], []⟩
    let b : RunnerBuilder := ⟨some "7", some "0", some ⟨⟩, some .pipelineExec, some ⟨⟩,
      some [("p", p)], some "p", none, some [], some []⟩
    let r : Runner := ⟨"7", "0", {}, .pipelineExec, {}, [("p", p)], p, none,
      [("A", "a"), ("AB", "ab")], [], .machine "7"⟩
    b.build (fun _ => .ok ()) .insertion = .ok r ∧
      { r with env := [("AB", "ab"), ("A", "a")], vars := [] }.applyContext Definitions.bld
          "bld:env:AB" = r.interpolateAlong Definitions.bld ["AB", "A"] [] "bld:env:AB" := by
  intro p b r
  have hb : b.build (fun _ => .ok ()) .insertion = .ok r := rfl
  exact ⟨hb, (applyContext_perm Definitions.bld hb (List.Perm.swap _ _ _) (List.Perm.refl _)
    "bld:env:AB").1⟩

/-- With the declared environment names `A` and `AB`, the iteration order `AB, A` of the resolved
map interpolates `bld:env:AB` to `ab`, the reference (`A` first) to `aB`. -/
theorem applyContext_order_matters :
    let p : Pipeline := ⟨none, .machine, false, [⟨"A", "a"⟩, ⟨"AB", "ab"⟩], [], [], []⟩
    let b : RunnerBuilder := ⟨some "7", some "0", some ⟨⟩, some .pipelineExec, some ⟨⟩,
      some [("p", p)], some "p", none, some [], some []⟩
    let r : Runner := ⟨"7", "0", {}, .pipelineExec, {}, [("p", p)], p, none,
      [("A", "a"), ("AB", "ab")], [], .machine "7"⟩
    b.build (fun _ => .ok ()) .insertion = .ok r ∧ List.Perm [("AB", "ab"), ("A", "a")] r.env ∧
      { r with env := [("AB", "ab"), ("A", "a")] }.applyContext Definitions.bld "bld:env:AB" =
        "ab" ∧
      r.interpolate Definitions.bld "bld:env:AB" = "aB" :=
  ⟨rfl, List.Perm.swap _ _ _, by decide, by decide⟩

end Bld
