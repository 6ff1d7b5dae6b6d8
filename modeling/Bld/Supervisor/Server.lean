import Mathlib.Data.List.Basic

/-!
# The enqueue handler of the supervisor (`bld_supervisor/src/client/server.rs`)

`UnixSocketServerReader::handle` goes through the messages of one read of the supervisor's socket.
For each `ServerEnqueue` it logs the pipeline and asks for the path of its own executable
(`current_exe`). When that fails it logs the error and goes on with the next message
(`continue`); otherwise it builds the command
`<exe> worker --pipeline <pipeline> --run-id <run_id> [--variables <v>] [--environment <e>]`,
wraps it in a `PipelineWorker` and enqueues it. This handler does nothing with any other message.

The queue is the list of the workers enqueued into it, in order: `Queue::enqueue` appends. The
results of `current_exe` are an oracle, indexed by the number of calls made before.

* `workerCommand_args`: the arguments of a worker's command, flag by flag.
* `readWorkerArgs_workerCommand`: the request can be read back from the arguments of its worker,
  so two requests never give one command line.
* `handle_spec`: over every list of messages, the queue gains, in order, one worker for each
  `ServerEnqueue` whose call of `current_exe` succeeded, and nothing else; the log gains one line
  per `ServerEnqueue`, and one more when its call failed.
-/

namespace Bld

namespace Supervisor

/-- The fields of `UnixSocketMessage::ServerEnqueue`. -/
structure ServerEnqueue where
  pipeline : String
  runId : String
  «variables» : Option String
  environment : Option String
deriving DecidableEq, Repr

/-- `UnixSocketMessage`: a `ServerEnqueue`, or a message of another kind, which this handler does
not read. -/
inductive UnixSocketMessage where
  | serverEnqueue (m : ServerEnqueue)
  | other
deriving DecidableEq, Repr

/-- `std::process::Command`: the program and its arguments. -/
structure Command where
  program : String
  args : List String
deriving DecidableEq, Repr

/-- `Command::new`. -/
def Command.new (program : String) : Command := ⟨program, []⟩

/-- `Command::arg`. -/
def Command.arg (c : Command) (a : String) : Command := { c with args := c.args ++ [a] }

/-- `PipelineWorker::new(command)`. -/
structure PipelineWorker where
  command : Command
deriving DecidableEq, Repr

/-- A line of the handler's log: `debug!` or `error!`. -/
inductive Log where
  | debug (text : String)
  | error (text : String)
deriving DecidableEq, Repr

/-- The command that `handle` builds for `m`, once `current_exe` gave `exe`. -/
def workerCommand (exe : String) (m : ServerEnqueue) : Command := Id.run do
  let mut command := Command.new exe
  command := command.arg "worker"
  command := command.arg "--pipeline"
  command := command.arg m.pipeline
  command := command.arg "--run-id"
  command := command.arg m.runId
  if let some «variables» := m.«variables» then
    command := command.arg "--variables"
    command := command.arg «variables»
  if let some environment := m.environment then
    command := command.arg "--environment"
    command := command.arg environment
  return command

/-- What the handler changes: the queue, its log, and the number of calls of `current_exe` made
so far, which indexes the oracle. -/
structure State where
  queue : List PipelineWorker
  log : List Log
  calls : Nat
deriving DecidableEq, Repr

/-- The body of the loop of `UnixSocketServerReader::handle`, for one message. -/
def handleMessage (currentExe : Nat → Except String String) (s : State) :
    UnixSocketMessage → State
  | .serverEnqueue m =>
    let log := s.log ++ [.debug ("received new server enqueue message for pipeline: " ++ m.pipeline)]
    match currentExe s.calls with
    | .error e => ⟨s.queue, log ++ [.error ("could not get the current executable. " ++ e)], s.calls + 1⟩
    | .ok exe => ⟨s.queue ++ [⟨workerCommand exe m⟩], log, s.calls + 1⟩
  | .other => s

/-- `UnixSocketServerReader::handle`. -/
def handle (currentExe : Nat → Except String String) (s : State)
    (messages : List UnixSocketMessage) : State :=
  messages.foldl (handleMessage currentExe) s

/-! ## The worker command line -/

/-- A flag with its value, when there is a value. -/
def optArg (flag : String) : Option String → List String
  | some v => [flag, v]
  | none => []

@[simp] theorem workerCommand_program (exe : String) (m : ServerEnqueue) :
    (workerCommand exe m).program = exe := by
  rcases m with ⟨_, _, _ | _, _ | _⟩ <;> rfl

@[simp] theorem workerCommand_args (exe : String) (m : ServerEnqueue) :
    (workerCommand exe m).args = ["worker", "--pipeline", m.pipeline, "--run-id", m.runId] ++
      optArg "--variables" m.«variables» ++ optArg "--environment" m.environment := by
  rcases m with ⟨_, _, _ | _, _ | _⟩ <;> rfl

/-- The worker command line of the contract, read back:
`worker --pipeline <name> --run-id <id> [--variables <v>] [--environment <e>]`. -/
def readWorkerArgs : List String → Option ServerEnqueue
  | "worker" :: "--pipeline" :: pipeline :: "--run-id" :: runId :: rest =>
    match rest with
    | [] => some ⟨pipeline, runId, none, none⟩
    | ["--variables", v] => some ⟨pipeline, runId, some v, none⟩
    | ["--environment", e] => some ⟨pipeline, runId, none, some e⟩
    | ["--variables", v, "--environment", e] => some ⟨pipeline, runId, some v, some e⟩
    | _ => none
  | _ => none

/-- The request can be read back from the arguments of the worker that `handle` builds. -/
theorem readWorkerArgs_workerCommand (exe : String) (m : ServerEnqueue) :
    readWorkerArgs (workerCommand exe m).args = some m := by
  rcases m with ⟨_, _, _ | _, _ | _⟩ <;> rfl

/-! ## A whole read of the socket -/

/-- The request of a `ServerEnqueue`. -/
def UnixSocketMessage.enqueue? : UnixSocketMessage → Option ServerEnqueue
  | .serverEnqueue m => some m
  | .other => none

/-- The `ServerEnqueue` requests among `messages`, in order, each with the index of its call of
`current_exe` (the first one being `n`). -/
def enqueues (n : Nat) (messages : List UnixSocketMessage) : List (Nat × ServerEnqueue) :=
  (messages.filterMap UnixSocketMessage.enqueue?).enumFrom n

/-- The worker that the request `m` gives when the call of `current_exe` returns `r`. -/
def worker? (r : Except String String) (m : ServerEnqueue) : Option PipelineWorker :=
  r.toOption.map fun exe => ⟨workerCommand exe m⟩

/-- The lines that the request `m` logs when the call of `current_exe` returns `r`. -/
def logLines (r : Except String String) (m : ServerEnqueue) : List Log :=
  .debug ("received new server enqueue message for pipeline: " ++ m.pipeline) ::
    match r with
    | .error e => [.error ("could not get the current executable. " ++ e)]
    | .ok _ => []

section

variable (currentExe : Nat → Except String String)

theorem handleMessage_serverEnqueue (s : State) (m : ServerEnqueue) :
    handleMessage currentExe s (.serverEnqueue m) =
      ⟨s.queue ++ (worker? (currentExe s.calls) m).toList,
        s.log ++ logLines (currentExe s.calls) m, s.calls + 1⟩ := by
  unfold handleMessage worker? logLines
  cases currentExe s.calls <;> simp [Except.toOption]

@[simp] theorem handle_nil (s : State) : handle currentExe s [] = s := rfl

@[simp] theorem handle_cons (s : State) (msg : UnixSocketMessage) (ms : List UnixSocketMessage) :
    handle currentExe s (msg :: ms) = handle currentExe (handleMessage currentExe s msg) ms := rfl

/-- Over every list of messages: the queue gains, in order, the worker of each `ServerEnqueue`
whose call of `current_exe` succeeded; the log gains the lines of each `ServerEnqueue`; and
`current_exe` is called once per `ServerEnqueue`. A failed call drops its own message only, and
no other kind of message changes anything. -/
theorem handle_spec (s : State) (ms : List UnixSocketMessage) :
    (handle currentExe s ms).queue =
        s.queue ++ (enqueues s.calls ms).filterMap (fun p => worker? (currentExe p.1) p.2) ∧
      (handle currentExe s ms).log =
        s.log ++ (enqueues s.calls ms).flatMap (fun p => logLines (currentExe p.1) p.2) ∧
      (handle currentExe s ms).calls = s.calls + (ms.filterMap UnixSocketMessage.enqueue?).length := by
  induction ms generalizing s with
  | nil => simp [enqueues]
  | cons msg ms ih =>
    cases msg with
    | other => simpa [enqueues, UnixSocketMessage.enqueue?, handleMessage] using ih s
    | serverEnqueue m =>
      have step := ih (handleMessage currentExe s (.serverEnqueue m))
      rw [handleMessage_serverEnqueue] at step
      obtain ⟨hq, hl, hc⟩ := step
      simp only [handle_cons, handleMessage_serverEnqueue, hq, hl, hc, enqueues,
        List.filterMap_cons, UnixSocketMessage.enqueue?, List.enumFrom_cons, List.append_assoc]
      refine ⟨?_, by simp, by simp; omega⟩
      cases worker? (currentExe s.calls) m <;> simp

/-- The first call of `current_exe` fails: its message is dropped, the next one is enqueued. -/
example : handle (fun i => if i = 0 then .error "gone" else .ok "bld") ⟨[], [], 0⟩
    [.serverEnqueue ⟨"a", "1", none, none⟩, .other, .serverEnqueue ⟨"b", "2", some "v", none⟩] =
      ⟨[⟨⟨"bld", ["worker", "--pipeline", "b", "--run-id", "2", "--variables", "v"]⟩⟩],
        [.debug "received new server enqueue message for pipeline: a",
          .error "could not get the current executable. gone",
          .debug "received new server enqueue message for pipeline: b"], 2⟩ := by
  decide

end

end Supervisor

end Bld
