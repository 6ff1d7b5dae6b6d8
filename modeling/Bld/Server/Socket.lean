import Bld.Server.Exec

/-!
# The exec socket actor (`ExecutePipelineSocket`, `bld_server/src/sockets/exec.rs`)

One actor per WebSocket connection. `StreamHandler::handle` answers each message: a text frame
runs `get_info` (and `spawn` on `Ok`; on `Err` the socket sends `Unable to run pipeline` and
stops), a ping refreshes the heartbeat instant `hb` and is answered by a pong, a pong refreshes
`hb`, a close is answered by a close and stops the socket, and anything else stops it. Two timers
started in `Actor::started` run every 500 ms (`heartbeat`, then `scan`) and every 10 s (`scan`,
then `exec`): `heartbeat` stops the socket when more than 10 s have passed since `hb`, and sends a
ping otherwise; `scan` forwards the lines the scanner fetched; `exec` stops the socket when the
executor state reports that the run is not running.

A run of the actor is a list of timed events; an actor that has stopped handles none of them.
The lines the scanner fetches and the running flag of a run's executor state are read from
outside, at the instant of the event. The pool of run ids that `get_info` also changes is the
subject of `Bld.Server.exec`; `getInfo_result` says the two models of `get_info` agree on its
result.

* `run_hb`: while the socket runs, `hb` is the instant of the client's last ping or pong.
* `run_follows_lastText`: while the socket runs, its executor state and its scanner are those of
  the run that its last text frame started, so a second text frame makes it drop the first run.
* `heartbeat_stops_iff`: a 500 ms tick stops a running socket exactly when more than 10 s have
  passed since the client's last ping or pong, or since the socket was created.
* `exec_tick_stops_iff`: a 10 s tick stops a running socket exactly when it has started a run
  (through its last text frame) whose executor state reports it not running.
-/

namespace Bld

namespace Server

/-- A frame that the socket's context sends: `ctx.text`, `ctx.ping`, `ctx.pong`, `ctx.close`. -/
inductive Frame where
  | text (line : String)
  | ping
  | pong (msg : String)
  | close (reason : Option String)
deriving DecidableEq, Repr

/-- What `StreamHandler::handle` receives: a text frame (with the calls its `get_info` makes and
the fresh run id `Uuid::new_v4` gives), a ping, a pong, a close, or any other message or protocol
error. -/
inductive Message where
  | text (c : FrameCalls) (id : String)
  | ping (msg : String)
  | pong
  | close (reason : Option String)
  | other

/-- An event of the actor at the instant `now`: a message, or a tick of one of the two timers.
Instants and durations are counted in nanoseconds, the resolution of `Instant` and `Duration`. -/
inductive SocketEvent where
  | message (now : Nat) (m : Message)
  | every500 (now : Nat)
  | every10s (now : Nat)

/-- What the socket reads from outside: the lines `FileScanner::fetch` returns for the log of a
run, and `pipeline_run.running` of the executor state of a run, at an instant. -/
structure Outside where
  fetch : String → Nat → List String
  running : String → Nat → Bool

/-- The fields of `ExecutePipelineSocket` that its handlers change (`exec` and `sc` by the run
id whose executor state and log file they are), the frames its context sent, and whether it
called `ctx.stop()`. -/
structure Socket where
  hb : Nat
  exec : Option String
  sc : Option String
  sent : List Frame
  stopped : Bool
deriving DecidableEq, Repr

namespace Socket

/-- `ExecutePipelineSocket::new` at the instant `now`. -/
def new (now : Nat) : Socket := ⟨now, none, none, [], false⟩

/-- `get_info` on the socket's fields, for the fresh run id `id`: its result, with `self.exec`
set once the log file is created and `self.sc` once its scanner is. -/
def getInfo (c : FrameCalls) (id : String) (s : Socket) : Except String Unit × Socket :=
  match c.beforeInsert with
  | .error e => (.error e, s)
  | .ok () =>
    match c.logger with
    | .error e => (.error e, s)
    | .ok () =>
      let s := { s with exec := some id }
      match c.scanner with
      | .error e => (.error e, s)
      | .ok () => (.ok (), { s with sc := some id })

/-- `Duration::from_secs(n)`, in nanoseconds. -/
def fromSecs (n : Nat) : Nat := n * 1000000000

/-- `ExecutePipelineSocket::heartbeat`. `Instant::duration_since` saturates at zero, as `-` on
`Nat` does. -/
def heartbeat (now : Nat) (s : Socket) : Socket :=
  if now - s.hb > fromSecs 10 then { s with stopped := true } else { s with sent := s.sent ++ [.ping] }

/-- `ExecutePipelineSocket::scan`. -/
def scan (o : Outside) (now : Nat) (s : Socket) : Socket :=
  match s.sc with
  | some run => { s with sent := s.sent ++ (o.fetch run now).map .text }
  | none => s

/-- `ExecutePipelineSocket::exec` (the field of that name is `Socket.exec`). -/
def exec' (o : Outside) (now : Nat) (s : Socket) : Socket :=
  match s.exec with
  | some run => if !o.running run now then { s with stopped := true } else s
  | none => s

/-- `StreamHandler::handle` at the instant `now`. -/
def handle (now : Nat) (s : Socket) : Message → Socket
  | .text c id =>
    match s.getInfo c id with
    | (.ok (), s) => s
    | (.error _, s) => { s with sent := s.sent ++ [.text "Unable to run pipeline"], stopped := true }
  | .ping msg => { s with hb := now, sent := s.sent ++ [.pong msg] }
  | .pong => { s with hb := now }
  | .close reason => { s with sent := s.sent ++ [.close reason], stopped := true }
  | .other => { s with stopped := true }

/-- One event: a message for `handle`, or a tick of a timer of `Actor::started`. A stopped
socket handles nothing. -/
def step (o : Outside) (s : Socket) (e : SocketEvent) : Socket :=
  if s.stopped then s
  else
    match e with
    | .message now m => s.handle now m
    | .every500 now => (s.heartbeat now).scan o now
    | .every10s now => (s.scan o now).exec' o now

/-- The socket after the events `es`, in order. -/
def run (o : Outside) (s : Socket) (es : List SocketEvent) : Socket := es.foldl (step o) s

end Socket

/-- The instant of the client's ping or pong `e`, or `t` for any other event. -/
def SocketEvent.heard (t : Nat) : SocketEvent → Nat
  | .message now (.ping _) | .message now .pong => now
  | _ => t

/-- The instant of the client's last ping or pong among `es`, or `t` when there is none. -/
def lastHeard (t : Nat) (es : List SocketEvent) : Nat := es.foldl SocketEvent.heard t

/-- The run id of the text frame `e`, or `x` for any other event. -/
def SocketEvent.started (x : Option String) : SocketEvent → Option String
  | .message _ (.text _ id) => some id
  | _ => x

/-- The run id of the last text frame among `es`, or `x` when there is none. -/
def lastText (x : Option String) (es : List SocketEvent) : Option String :=
  es.foldl SocketEvent.started x

namespace Socket

variable (o : Outside) (now : Nat) (s : Socket)

/-! ## One handler at a time -/

/-- The two models of `get_info` agree on its result. -/
theorem getInfo_result (c : FrameCalls) (id : String) (pool : Pool) :
    (s.getInfo c id).1 = (Server.getInfo c id pool).1 := by
  unfold getInfo Server.getInfo FrameCalls.afterInsert
  cases c.beforeInsert <;> cases c.logger <;> cases c.scanner <;> rfl

/-- `get_info` changes no field of the socket but `exec` and `sc`. -/
theorem getInfo_keeps (c : FrameCalls) (id : String) :
    (s.getInfo c id).2.hb = s.hb ∧ (s.getInfo c id).2.sent = s.sent ∧
      (s.getInfo c id).2.stopped = s.stopped := by
  unfold getInfo
  cases c.beforeInsert <;> cases c.logger <;> cases c.scanner <;> exact ⟨rfl, rfl, rfl⟩

/-- When `get_info` succeeds, `exec` and `sc` both name the fresh run id. -/
theorem getInfo_ok {c : FrameCalls} {id : String} (h : (s.getInfo c id).1 = .ok ()) :
    (s.getInfo c id).2.exec = some id ∧ (s.getInfo c id).2.sc = some id := by
  unfold getInfo at h ⊢
  cases hb : c.beforeInsert <;> cases hl : c.logger <;> cases hs : c.scanner <;> simp_all

/-- A text frame: the socket after `get_info`, which stops it with a last text frame when it
failed. -/
theorem handle_text (c : FrameCalls) (id : String) :
    s.handle now (.text c id) =
      match (s.getInfo c id).1 with
      | .ok () => (s.getInfo c id).2
      | .error _ => { (s.getInfo c id).2 with
          sent := (s.getInfo c id).2.sent ++ [.text "Unable to run pipeline"], stopped := true } := by
  rcases h : s.getInfo c id with ⟨_ | ⟨⟩, _⟩ <;> simp [handle, h]

@[simp] theorem heartbeat_keeps :
    (s.heartbeat now).hb = s.hb ∧ (s.heartbeat now).exec = s.exec ∧ (s.heartbeat now).sc = s.sc := by
  unfold heartbeat; split <;> exact ⟨rfl, rfl, rfl⟩

@[simp] theorem heartbeat_stopped :
    (s.heartbeat now).stopped = (s.stopped || decide (now - s.hb > fromSecs 10)) := by
  unfold heartbeat; split <;> simp_all

@[simp] theorem scan_keeps :
    (s.scan o now).hb = s.hb ∧ (s.scan o now).exec = s.exec ∧ (s.scan o now).sc = s.sc ∧
      (s.scan o now).stopped = s.stopped := by
  unfold scan; split <;> exact ⟨rfl, rfl, rfl, rfl⟩

@[simp] theorem exec'_keeps :
    (s.exec' o now).hb = s.hb ∧ (s.exec' o now).exec = s.exec ∧ (s.exec' o now).sc = s.sc := by
  unfold exec'; split <;> [split; skip] <;> exact ⟨rfl, rfl, rfl⟩

@[simp] theorem exec'_stopped :
    (s.exec' o now).stopped = (s.stopped || s.exec.any fun run => !o.running run now) := by
  unfold exec'; split <;> [split; skip] <;> simp_all

@[simp] theorem step_of_stopped (e : SocketEvent) (h : s.stopped) : s.step o e = s := by
  simp [step, h]

section Running

variable (h : ¬ s.stopped)
include h

theorem step_message (m : Message) : s.step o (.message now m) = s.handle now m := by
  simp [step, h]

theorem step_every500 : s.step o (.every500 now) = (s.heartbeat now).scan o now := by
  simp [step, h]

theorem step_every10s : s.step o (.every10s now) = (s.scan o now).exec' o now := by
  simp [step, h]

end Running

theorem run_of_stopped (es : List SocketEvent) (h : s.stopped) : s.run o es = s := by
  induction es with
  | nil => rfl
  | cons e es ih => simpa [run, step_of_stopped o s e h] using ih

theorem run_append (es es' : List SocketEvent) : s.run o (es ++ es') = (s.run o es).run o es' :=
  List.foldl_append _ _ _ _

/-- A socket that runs after some events ran before each of them. -/
theorem not_stopped_of_run_cons {e : SocketEvent} {es : List SocketEvent}
    (h : ¬ (s.run o (e :: es)).stopped) : ¬ s.stopped ∧ ¬ (s.step o e).stopped := by
  refine ⟨fun hs => h ?_, fun hs => h ?_⟩
  · rwa [run, List.foldl_cons, step_of_stopped o s e hs, ← run, run_of_stopped o s es hs]
  · rwa [run, List.foldl_cons, ← run, run_of_stopped o _ es hs]

/-- One event of a running socket moves `hb` to the instant of a ping or pong. -/
theorem step_hb (e : SocketEvent) (h : ¬ s.stopped) : (s.step o e).hb = e.heard s.hb := by
  cases e with
  | message now m =>
    rw [step_message o now s h]
    cases m with
    | text c id =>
      rw [handle_text]
      split <;> simp [getInfo_keeps, SocketEvent.heard]
    | _ => simp [SocketEvent.heard, handle]
  | every500 now => simp [step_every500 o now s h, SocketEvent.heard]
  | every10s now => simp [step_every10s o now s h, SocketEvent.heard]

/-- One event that leaves the socket running moves its executor state and its scanner to the run
that a text frame started. -/
theorem step_follows (e : SocketEvent) (h : ¬ s.stopped) (h' : ¬ (s.step o e).stopped) :
    (s.step o e).exec = e.started s.exec ∧ (s.step o e).sc = e.started s.sc := by
  cases e with
  | message now m =>
    rw [step_message o now s h] at h' ⊢
    cases m with
    | text c id =>
      rw [handle_text] at h' ⊢
      rcases hr : (s.getInfo c id).1 with _ | ⟨⟩
      · simp [hr] at h'
      · simpa [hr, SocketEvent.started] using getInfo_ok s hr
    | _ => simp [SocketEvent.started, handle]
  | every500 now => simp [step_every500 o now s h, SocketEvent.started]
  | every10s now => simp [step_every10s o now s h, SocketEvent.started]

/-! ## Whole runs -/

/-- While the socket runs, `hb` is the instant of the client's last ping or pong. -/
theorem run_hb (es : List SocketEvent) (h : ¬ (s.run o es).stopped) :
    (s.run o es).hb = lastHeard s.hb es := by
  induction es generalizing s with
  | nil => rfl
  | cons e es ih =>
    obtain ⟨hs, -⟩ := not_stopped_of_run_cons o s h
    rw [lastHeard, List.foldl_cons, ← step_hb o s e hs]
    exact ih (s.step o e) h

/-- While the socket runs, its executor state and its scanner are those of the run that its
last text frame started. -/
theorem run_follows_lastText (es : List SocketEvent) (h : ¬ (s.run o es).stopped) :
    (s.run o es).exec = lastText s.exec es ∧ (s.run o es).sc = lastText s.sc es := by
  induction es generalizing s with
  | nil => exact ⟨rfl, rfl⟩
  | cons e es ih =>
    obtain ⟨hs, hs'⟩ := not_stopped_of_run_cons o s h
    obtain ⟨he, hc⟩ := step_follows o s e hs hs'
    rw [lastText, lastText, List.foldl_cons, List.foldl_cons, ← he, ← hc]
    exact ih (s.step o e) h

end Socket

open Socket

/-- A 500 ms tick stops a running socket exactly when more than 10 s have passed since the
client's last ping or pong, or since the socket was created. -/
theorem heartbeat_stops_iff (o : Outside) (t₀ : Nat) (es : List SocketEvent) (now : Nat)
    (h : ¬ ((Socket.new t₀).run o es).stopped) :
    ((Socket.new t₀).run o (es ++ [.every500 now])).stopped ↔
      now - lastHeard t₀ es > fromSecs 10 := by
  rw [run_append, run, List.foldl_cons, List.foldl_nil, step_every500 o now _ h]
  simp [h, run_hb o _ es h]
  rfl

theorem heartbeat_stops_iff_silent :
    let o : Outside := ⟨fun _ _ => [], fun _ _ => true⟩
    let es : List SocketEvent := [.message 3000000000 (.ping "p"), .every500 3500000000]
    ¬ ((Socket.new 0).run o es).stopped ∧
      (((Socket.new 0).run o (es ++ [.every500 13000000001])).stopped ↔
        13000000001 - lastHeard 0 es > fromSecs 10) :=
  ⟨by decide, heartbeat_stops_iff _ 0 _ 13000000001 (by decide)⟩

/-- A 10 s tick stops a running socket exactly when its last text frame started a run whose
executor state reports it not running. -/
theorem exec_tick_stops_iff (o : Outside) (t₀ : Nat) (es : List SocketEvent) (now : Nat)
    (h : ¬ ((Socket.new t₀).run o es).stopped) :
    ((Socket.new t₀).run o (es ++ [.every10s now])).stopped ↔
      ∃ id, lastText none es = some id ∧ o.running id now = false := by
  rw [run_append, run, List.foldl_cons, List.foldl_nil, step_every10s o now _ h]
  simp only [exec'_stopped, scan_keeps, h, Bool.false_or, (run_follows_lastText o _ es h).1]
  show Option.any _ (lastText none es) = true ↔ _
  cases lastText none es <;> simp

theorem exec_tick_stops_iff_finished :
    let c : FrameCalls := ⟨.ok (), .ok (), true, .ok (), .ok (), .ok (), .ok (), .ok (), .ok (),
      .ok ()⟩
    let o : Outside := ⟨fun _ _ => ["hi"], fun _ now => decide (now < 5000000000)⟩
    let es : List SocketEvent := [.message 0 (.text c "r"), .every500 500000000]
    ¬ ((Socket.new 0).run o es).stopped ∧
      (((Socket.new 0).run o (es ++ [.every10s 10000000000])).stopped ↔
        ∃ id, lastText none es = some id ∧ o.running id 10000000000 = false) :=
  ⟨by decide, exec_tick_stops_iff _ 0 _ 10000000000 (by decide)⟩

end Server

end Bld
