import ContextVM.Transport.Startup

/-!
# Starting and stopping while events arrive

Sequences of `start` and `stop` of a gateway, or of `start` and `close` of a server transport,
step by step beside the event loops that they leave behind and the relay pool.

Nothing ends an event loop, and every start that gets so far spawns one.  An event is forwarded
once for each loop that has its receiver when the event is emitted, and a loop that is late
writes into the maps after `close` has cleared them.

* An event is known by its place in the order of emission.
* A loop receives an event, tracks it under the lock on `sessions`, and then forwards it.
-/

namespace ContextVM.Restart

open Lib NostrServerTransport

variable {S : Sdk}

/-! ## Calls -/

/-- What is started and stopped. -/
inductive Object where
  | gateway
  | transport

/-- The steps of the calls. -/
inductive Instr where
  | connect
  | subscribe
  | spawn (task : Background)
  | setRunning
  | takeReceiver
  | disconnect
  | clearSessions
  | clearRoutes
  | unsetRunning
deriving DecidableEq

namespace Instr

def body (answers : Answers S) (relayUrls : List String) :
    Instr → Call (Endpoint ServerTables) Unit
  | .connect => Endpoint.onTransport (BaseTransport.connect answers relayUrls)
  | .subscribe => Endpoint.onTransport do
    let pubkey ← ofExcept (BaseTransport.getPublicKey answers)
    ofExcept (BaseTransport.subscribeForPubkey answers pubkey)
  | .spawn task => Endpoint.onTransport (Transport.spawn task)
  | .setRunning => modify fun s ↦ { s with isRunning := true }
  | .takeReceiver => do
    match ← Endpoint.onTransport Transport.takeMessageReceiver with
    | some _ => return
    | none => throw (.other "Message receiver already taken")
  | .disconnect => Endpoint.onTransport BaseTransport.disconnect
  | .clearSessions => modify fun s ↦ { s with transport.tables.sessions := ∅ }
  | .clearRoutes => modify fun s ↦ { s with transport.tables.eventToClient := ∅ }
  | .unsetRunning => modify fun s ↦ { s with isRunning := false }

end Instr

inductive Kind where
  | start
  | stop

/-- The steps of a call that is not answered at once. -/
def program : Object → Kind → List Instr
  | .transport, .start => [.connect, .subscribe, .spawn .eventLoop, .spawn .cleanup]
  | .gateway, .start =>
    [.connect, .subscribe, .spawn .eventLoop, .spawn .cleanup, .setRunning, .takeReceiver]
  | .transport, .stop => [.disconnect, .clearSessions, .clearRoutes]
  | .gateway, .stop => [.disconnect, .clearSessions, .clearRoutes, .unsetRunning]

/-- The steps of a call on the transport can be taken on the endpoint. -/
theorem exec_inOrder_onTransport {T : Type} (calls : List (Call (Transport T) Unit))
    (s : Endpoint T) :
    exec (inOrder (calls.map Endpoint.onTransport)) s =
      exec (Endpoint.onTransport (inOrder calls)) s := by
  have hzoom : (Endpoint.onTransport : Call (Transport T) Unit → Call (Endpoint T) Unit) =
      zoom Endpoint.transport (fun transport s ↦ { s with transport }) := rfl
  rw [hzoom]
  apply exec_zoom_inOrder <;> intros <;> rfl

section

variable (answers : Answers S) (relayUrls : List String)

/-- The steps are those of `start` of the transport. -/
theorem exec_program_transport_start (s : Endpoint ServerTables) :
    exec (inOrder ((program .transport .start).map (Instr.body answers relayUrls))) s =
      exec (Endpoint.onTransport (NostrServerTransport.start answers relayUrls)) s := by
  have hsteps : (program .transport .start).map (Instr.body answers relayUrls) =
      (Host.gateway.transportSteps answers relayUrls).map Endpoint.onTransport := rfl
  rw [hsteps, ← inOrder_transportSteps_gateway]
  exact exec_inOrder_onTransport _ s

/-- The steps are those of `start` of the gateway. -/
theorem exec_program_gateway_start {s : Endpoint ServerTables} (hr : s.isRunning = false) :
    exec (inOrder ((program .gateway .start).map (Instr.body answers relayUrls))) s =
      ((exec (NostrMCPGateway.start answers relayUrls) s).1.map fun _ ↦ (),
        (exec (NostrMCPGateway.start answers relayUrls) s).2) := by
  have hprogram : program .gateway .start =
      program .transport .start ++ [.setRunning, .takeReceiver] := rfl
  rw [hprogram, List.map_append, inOrder_append, exec_bind, exec_program_transport_start]
  unfold NostrMCPGateway.start Endpoint.start
  have htake : ∀ s : Endpoint ServerTables,
      exec (Endpoint.onTransport Transport.takeMessageReceiver) s =
        (.ok s.transport.messageRx, { s with transport.messageRx := none }) := fun _ ↦ rfl
  rcases hexec : exec (Endpoint.onTransport (NostrServerTransport.start answers relayUrls)) s
    with ⟨result, s'⟩
  cases result with
  | error e => simp [exec_bind, hr, hexec, Except.map]
  | ok u =>
      cases hrx : s'.transport.messageRx <;>
        simp [exec_bind, hr, hexec, inOrder, Instr.body, htake, hrx, Except.map]

/-- The steps are those of `close` of the transport. -/
theorem exec_program_transport_stop (s : Endpoint ServerTables) :
    exec (inOrder ((program .transport .stop).map (Instr.body answers relayUrls))) s =
      exec (Endpoint.onTransport NostrServerTransport.close) s := by
  simp [program, inOrder, Instr.body, NostrServerTransport.close, exec_bind, exec_disconnect,
    Endpoint.onTransport]

/-- The steps are those of `stop` of the gateway. -/
theorem exec_program_gateway_stop {s : Endpoint ServerTables} (hr : s.isRunning = true) :
    exec (inOrder ((program .gateway .stop).map (Instr.body answers relayUrls))) s =
      exec NostrMCPGateway.stop s := by
  have hprogram : program .gateway .stop = program .transport .stop ++ [.unsetRunning] := rfl
  rw [hprogram, List.map_append, inOrder_append, exec_bind, exec_program_transport_stop]
  simp [NostrMCPGateway.stop, Endpoint.stop, exec_bind, hr, inOrder, Instr.body,
    Endpoint.onTransport, NostrServerTransport.exec_close]

end

/-! ## The system -/

/-- What a loop does with the event it is at. -/
inductive Stage where
  | idle
  | accepted (r : IncomingRequest)
  /-- The maps know the request. -/
  | tracked (r : IncomingRequest)

/-- A loop that has its receiver. -/
structure Loop where
  /-- The place of the event that it is at. -/
  next : Nat
  stage : Stage

/-- A call under way. -/
structure Running where
  kind : Kind
  rest : List Instr

structure State (S : Sdk) where
  endpoint : Endpoint ServerTables
  call : Option Running
  loops : List Loop
  emitted : List S.Event
  /-- What was forwarded, with the place of its event. -/
  forwarded : List (Nat × IncomingRequest)
  /-- An event loop was spawned since the sessions were last cleared. -/
  opened : Bool
  /-- A stop has returned `Ok` when so much had been forwarded, and no start was called since. -/
  stopped : Option Nat

def State.init : State S where
  endpoint := .new ⟨∅, ∅⟩
  call := none
  loops := []
  emitted := []
  forwarded := []
  opened := false
  stopped := none

inductive Action (S : Sdk) where
  | start
  | stop
  /-- The call under way makes its next step. -/
  | advance (answers : Answers S)
  | emit (event : S.Event)
  /-- A loop that was spawned makes its first step. -/
  | listen
  /-- The loop `i` receives an event and checks it. -/
  | receive (i : Nat)
  | track (i now : Nat)
  | forward (i : Nat)
  | cleanup (now : Nat)

/-- Whether a loop was spawned since the sessions were last cleared, after a step. -/
def Instr.opens (opened : Bool) : Instr → Bool
  | .spawn .eventLoop => true
  | .clearSessions => false
  | _ => opened

namespace State

def begin (s : State S) (object : Object) (kind : Kind) : State S :=
  { s with call := some ⟨kind, program object kind⟩ }

/-- A start has been called. -/
def reopen (s : State S) : State S := { s with stopped := none }

/-- A call returns `Ok`. -/
def finish (s : State S) : Kind → State S
  | .start => { s with call := none }
  | .stop => { s with call := none, stopped := some s.forwarded.length }

def setLoop (s : State S) (i : Nat) (l : Loop) : State S := { s with loops := s.loops.set i l }

end State

variable (server : NostrServerTransport S) (object : Object) (relayUrls : List String)

def step (s : State S) : Action S → Option (State S)
  | .start =>
    match s.call with
    | some _ => none
    | none =>
      match object, s.endpoint.isRunning with
      -- the gateway is running already
      | .gateway, true => some s.reopen
      | _, _ => some (s.reopen.begin object .start)
  | .stop =>
    match s.call with
    | some _ => none
    | none =>
      match object, s.endpoint.isRunning with
      -- there is nothing to stop
      | .gateway, false => some (s.finish .stop)
      | _, _ => some (s.begin object .stop)
  | .advance answers =>
    match s.call with
    | none => none
    | some ⟨kind, []⟩ => some (s.finish kind)
    | some ⟨kind, i :: rest⟩ =>
      match exec (i.body answers relayUrls) s.endpoint with
      | (.ok (), endpoint) =>
        some { s with endpoint, call := some ⟨kind, rest⟩, opened := i.opens s.opened }
      | (.error _, endpoint) => some { s with endpoint, call := none }
  | .emit event => some { s with emitted := s.emitted ++ [event] }
  | .listen =>
    if s.loops.length < s.endpoint.transport.tasks.count .eventLoop then
      some { s with loops := s.loops ++ [⟨s.emitted.length, .idle⟩] }
    else none
  | .receive i =>
    match s.loops[i]? with
    | some ⟨next, .idle⟩ =>
      (s.emitted[next]?).map fun event ↦
        match server.accept event with
        | .ok r => s.setLoop i ⟨next, .accepted r⟩
        | .error _ => s.setLoop i ⟨next + 1, .idle⟩
    | _ => none
  | .track i now =>
    match s.loops[i]? with
    | some ⟨next, .accepted r⟩ =>
      let tables := s.endpoint.transport.tables
      some
        { s.setLoop i ⟨next, .tracked r⟩ with
          endpoint.transport.tables :=
            { sessions := trackSessions now r tables.sessions
              eventToClient := trackRoutes r tables.eventToClient } }
    | _ => none
  | .forward i =>
    match s.loops[i]? with
    | some ⟨next, .tracked r⟩ =>
      some { s.setLoop i ⟨next + 1, .idle⟩ with forwarded := (next, r) :: s.forwarded }
    | _ => none
  | .cleanup now =>
    let tables := s.endpoint.transport.tables
    let (sessions, eventToClient, _) :=
      cleanupSessions now server.config.sessionTimeout tables.sessions tables.eventToClient
    if .cleanup ∈ s.endpoint.transport.tasks then
      some { s with endpoint.transport.tables := { sessions, eventToClient } }
    else none

/-! ## What a step does -/

variable {server object relayUrls}

/-- The steps of the system. -/
inductive Transition (server : NostrServerTransport S) (object : Object)
    (relayUrls : List String) (s : State S) : Action S → State S → Prop
  | startRefused (hc : s.call = none) : Transition server object relayUrls s .start s.reopen
  | startBegun (hc : s.call = none) :
      Transition server object relayUrls s .start (s.reopen.begin object .start)
  | nothingToStop (hc : s.call = none) (hobject : object = .gateway)
      (hr : s.endpoint.isRunning = false) :
      Transition server object relayUrls s .stop (s.finish .stop)
  | stopBegun (hc : s.call = none) :
      Transition server object relayUrls s .stop (s.begin object .stop)
  | finished (answers : Answers S) (kind : Kind) (hc : s.call = some ⟨kind, []⟩) :
      Transition server object relayUrls s (.advance answers) (s.finish kind)
  | advanced (answers : Answers S) (kind : Kind) (i : Instr) (rest : List Instr)
      (endpoint : Endpoint ServerTables) (hc : s.call = some ⟨kind, i :: rest⟩)
      (hexec : exec (i.body answers relayUrls) s.endpoint = (.ok (), endpoint)) :
      Transition server object relayUrls s (.advance answers)
        { s with endpoint, call := some ⟨kind, rest⟩, opened := i.opens s.opened }
  | failed (answers : Answers S) (kind : Kind) (i : Instr) (rest : List Instr) (e : Error)
      (endpoint : Endpoint ServerTables) (hc : s.call = some ⟨kind, i :: rest⟩)
      (hexec : exec (i.body answers relayUrls) s.endpoint = (.error e, endpoint)) :
      Transition server object relayUrls s (.advance answers) { s with endpoint, call := none }
  | emitted (event : S.Event) :
      Transition server object relayUrls s (.emit event)
        { s with emitted := s.emitted ++ [event] }
  | listened :
      Transition server object relayUrls s .listen
        { s with loops := s.loops ++ [⟨s.emitted.length, .idle⟩] }
  | accepted (i next : Nat) (event : S.Event) (r : IncomingRequest)
      (hl : s.loops[i]? = some ⟨next, .idle⟩) (he : s.emitted[next]? = some event)
      (hacc : server.accept event = .ok r) :
      Transition server object relayUrls s (.receive i) (s.setLoop i ⟨next, .accepted r⟩)
  | refused (i next : Nat) (event : S.Event) (why : Refusal)
      (hl : s.loops[i]? = some ⟨next, .idle⟩) (he : s.emitted[next]? = some event)
      (hacc : server.accept event = .error why) :
      Transition server object relayUrls s (.receive i) (s.setLoop i ⟨next + 1, .idle⟩)
  | tracked (i now next : Nat) (r : IncomingRequest)
      (hl : s.loops[i]? = some ⟨next, .accepted r⟩) (tables : ServerTables) :
      Transition server object relayUrls s (.track i now)
        { s.setLoop i ⟨next, .tracked r⟩ with endpoint.transport.tables := tables }
  | forwarded (i next : Nat) (r : IncomingRequest)
      (hl : s.loops[i]? = some ⟨next, .tracked r⟩) :
      Transition server object relayUrls s (.forward i)
        { s.setLoop i ⟨next + 1, .idle⟩ with forwarded := (next, r) :: s.forwarded }
  | cleaned (now : Nat) :
      Transition server object relayUrls s (.cleanup now)
        { s with
          endpoint.transport.tables.sessions :=
            keptSessions now server.config.sessionTimeout s.endpoint.transport.tables.sessions
          endpoint.transport.tables.eventToClient :=
            Table.eraseAll (expiredKeys now server.config.sessionTimeout
              s.endpoint.transport.tables.sessions) s.endpoint.transport.tables.eventToClient }

theorem step_transition {s s' : State S} {a : Action S}
    (h : step server object relayUrls s a = some s') :
    Transition server object relayUrls s a s' := by
  cases a with
  | start =>
      simp only [step] at h
      split at h
      · cases h
      · next hc =>
          split at h
          · cases h
            exact .startRefused hc
          · cases h
            exact .startBegun hc
  | stop =>
      simp only [step] at h
      split at h
      · cases h
      · next hc =>
          split at h
          · next hr =>
              cases h
              exact .nothingToStop hc rfl hr
          · cases h
            exact .stopBegun hc
  | advance answers =>
      simp only [step] at h
      split at h
      · cases h
      · next kind hc =>
          cases h
          exact .finished answers kind hc
      · next kind i rest hc =>
          split at h
          · next endpoint hexec =>
              cases h
              exact .advanced answers kind i rest endpoint hc hexec
          · next e endpoint hexec =>
              cases h
              exact .failed answers kind i rest e endpoint hc hexec
  | emit event =>
      cases h
      exact .emitted event
  | listen =>
      simp only [step] at h
      split at h
      · cases h
        exact .listened
      · cases h
  | receive i =>
      simp only [step] at h
      split at h
      · next next hl =>
          obtain ⟨event, he, hs'⟩ := Option.map_eq_some_iff.1 h
          split at hs'
          · next r hacc =>
              subst hs'
              exact .accepted i next event r hl he hacc
          · next why hacc =>
              subst hs'
              exact .refused i next event why hl he hacc
      · cases h
  | track i now =>
      simp only [step] at h
      split at h
      · next next r hl =>
          cases h
          exact .tracked i now next r hl _
      · cases h
  | forward i =>
      simp only [step] at h
      split at h
      · next next r hl =>
          cases h
          exact .forwarded i next r hl
      · cases h
  | cleanup now =>
      simp only [step, cleanupSessions] at h
      split at h
      · cases h
        exact .cleaned now
      · cases h

end ContextVM.Restart
