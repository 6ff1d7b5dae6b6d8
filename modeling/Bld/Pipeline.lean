import Bld.Text
import Mathlib.Data.List.Perm.Basic
import Mathlib.Data.List.Nodup

/-!
# Pipelines and the runner's constants

The parsed pipeline as the runner reads it (`Pipeline`, `BuildStep`, the artifacts and the
declared environment and variables), the `HashMap<String, String>` of resolved values, and the
constants of `bld_config::definitions` that the runner uses.

The parser is not part of the model: a `Pipeline` is what `Pipeline::parse` returns. A
`HashMap` is the list of its entries in iteration order. `Map.collect` builds one by inserting in
order, which gives one possible iteration order; the results that depend on the order
(`Bld/Runner/Context.lean`) quantify over every permutation of the entries.
-/

namespace Bld

/-- `runs_on`: the host machine, or a container of an image. -/
inductive RunsOn where
  | machine
  | docker (image : String)
  deriving DecidableEq, Repr

/-- A declared environment entry or variable: a name and its `default_value`. -/
structure Variable where
  name : String
  defaultValue : String
  deriving DecidableEq, Repr

/-- An artifact transfer. `after` anchors it: `none` runs it before the steps, `some s` after
the step named `s`; unnamed steps match `none` too. -/
structure Artifact where
  method : Option String
  «from» : Option String
  «to» : Option String
  ignoreErrors : Bool
  after : Option String
  deriving DecidableEq, Repr

/-- A step: the pipelines it calls, then its shell commands. -/
structure BuildStep where
  name : Option String
  workingDir : Option String
  call : List String
  commands : List String
  deriving DecidableEq, Repr

structure Pipeline where
  name : Option String
  runsOn : RunsOn
  dispose : Bool
  environment : List Variable
  «variables» : List Variable
  artifacts : List Artifact
  steps : List BuildStep
  deriving DecidableEq, Repr

/-- The names of the pipelines that the steps of `p` call, in order. -/
def Pipeline.calls (p : Pipeline) : List String := p.steps.flatMap (·.call)

/-- The constants of `bld_config::definitions` that the runner uses: the token prefixes
`ENV_TOKEN` and `VAR_TOKEN`, the tokens `RUN_PROPS_ID` and `RUN_PROPS_START_TIME`, and the
artifact methods `PUSH` and `GET`. The module is not in the source, so they are parameters; the
field `tokens_not_in_methods` is what the runner needs of them: no token text occurs in a
method name. -/
structure Definitions where
  envToken : String
  varToken : String
  runPropsId : String
  runPropsStartTime : String
  push : String
  get : String
  tokens_not_in_methods :
    ∀ t ∈ [envToken, varToken, runPropsId, runPropsStartTime], ∀ m ∈ [push, get],
      ¬ Text.Occurs t m

/-- One choice of the constants, in the prefix form that `format!("{ENV_TOKEN}{key}")` in
`Runner::apply_environment` implies. -/
def Definitions.bld : Definitions where
  envToken := "bld:env:"
  varToken := "bld:var:"
  runPropsId := "bld:run:id"
  runPropsStartTime := "bld:run:start_time"
  push := "push"
  get := "get"
  tokens_not_in_methods := by decide

/-- A `HashMap<String, String>`: its entries in iteration order. -/
abbrev Map := List (String × String)

namespace Map

/-- `HashMap::get`: the value of the first entry with the key. -/
def get? : Map → String → Option String
  | [], _ => none
  | (a, b) :: m, k => if a = k then some b else get? m k

/-- `HashMap::insert`: a present key takes the new value in place, a new key goes last. -/
def insert : Map → String → String → Map
  | [], k, v => [(k, v)]
  | e :: m, k, v => if e.1 = k then (k, v) :: m else e :: insert m k v

/-- `collect::<HashMap<_, _>>()`: the pairs inserted in order. -/
def collect (es : List (String × String)) : Map := es.foldl (fun m e => m.insert e.1 e.2) []

@[simp] theorem get?_nil (k : String) : get? [] k = none := rfl

theorem get?_cons (a b k : String) (m : Map) :
    get? ((a, b) :: m) k = if a = k then some b else get? m k := rfl

theorem get?_append (m m' : Map) (k : String) : get? (m ++ m') k = (get? m k).or (get? m' k) := by
  induction m with
  | nil => rfl
  | cons e m ih => by_cases h : e.1 = k <;> simp [get?, h, ih]

theorem get?_insert (m : Map) (k v n : String) :
    (m.insert k v).get? n = if k = n then some v else m.get? n := by
  induction m with
  | nil => rfl
  | cons e m ih =>
    by_cases ha : e.1 = k <;> by_cases hn : k = n <;> simp_all [insert, get?]

/-- A collected map holds, for each key, the value of its last pair. -/
theorem get?_collect (es : List (String × String)) (n : String) :
    (collect es).get? n = get? es.reverse n := by
  suffices ∀ m : Map, (es.foldl (fun m e => m.insert e.1 e.2) m).get? n =
      (get? es.reverse n).or (m.get? n) from by simpa using this []
  induction es with
  | nil => simp
  | cons e es ih =>
    intro m
    by_cases h : e.1 = n <;> simp [ih, get?_insert, get?_append, get?, h, Option.or_assoc]

/-- The keys of `m`, in iteration order. -/
def keys (m : Map) : List String := m.map (·.1)

theorem keys_insert (m : Map) (k v : String) :
    (m.insert k v).keys = if k ∈ m.keys then m.keys else m.keys ++ [k] := by
  induction m with
  | nil => rfl
  | cons e m ih =>
    by_cases h : e.1 = k
    · simp [insert, keys, h]
    · by_cases hk : k ∈ keys m <;> simp_all [insert, keys, Ne.symm h]

/-- A collected map has each key once. -/
theorem keys_collect_nodup (es : List (String × String)) : (collect es).keys.Nodup := by
  suffices ∀ m : Map, m.keys.Nodup → (es.foldl (fun m e => m.insert e.1 e.2) m).keys.Nodup from
    this [] List.nodup_nil
  induction es with
  | nil => exact fun _ h => h
  | cons e es ih =>
    intro m hm
    apply ih
    rw [keys_insert]
    split
    · exact hm
    · simpa [List.nodup_append, hm]

theorem get?_eq_some_iff {m : Map} (hm : m.keys.Nodup) {k v : String} :
    m.get? k = some v ↔ (k, v) ∈ m := by
  induction m with
  | nil => simp
  | cons e m ih =>
    obtain ⟨a, b⟩ := e
    simp only [keys, List.map_cons, List.nodup_cons] at hm
    by_cases h : a = k
    · subst h
      have : (a, v) ∉ m := fun hv => hm.1 (List.mem_map_of_mem (·.1) hv)
      simp [get?, this, eq_comm]
    · simp [get?, h, ih hm.2, Ne.symm h]

/-- Two iteration orders of one map with distinct keys give the same lookups. -/
theorem get?_perm {σ m : Map} (hp : σ.Perm m) (hm : m.keys.Nodup) (k : String) :
    σ.get? k = m.get? k := by
  have hσ : σ.keys.Nodup := ((hp.map Prod.fst).nodup_iff).mpr hm
  refine Option.ext fun v => ?_
  rw [Option.mem_def, Option.mem_def, get?_eq_some_iff hσ, get?_eq_some_iff hm, hp.mem_iff]

end Map

end Bld
