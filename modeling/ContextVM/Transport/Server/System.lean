import ContextVM.Lib.History
import ContextVM.Lib.Run
import ContextVM.Transport.Server.Send

/-!
# The server as a transition system

The event loop, the cleanup task and any number of calls of the interface share the two
maps.  A step of the system is what one of them does between two points where it can be
interrupted:

* the event loop handles one event.  It writes the maps under the lock on `sessions`; the
  event is `forwarded` in the same step, as soon as that lock is given up;
* a call of `send_response` has five steps (route, session, publish, session, route);
* `send_notification` has two, `broadcast_notification` two for each client of its
  snapshot, `close` one for each map;
* a cleanup tick holds both locks, so it is one step.

`close` borrows the transport mutably: it is called when no other call is under way, and no
call is made before it has returned.

The `log` records with the newest first what a step read or made known.  It is not part of
the program; the laws of the transport are stated about it.
-/

namespace ContextVM.Server

open Lib NostrServerTransport

variable {S : Sdk}

/-! ## Calls -/

/-- A call of the interface. -/
inductive Operation where
  | sendResponse (eventId : String) (response : JsonRpcMessage)
  | sendNotification (clientPubkeyHex : String) (notification : JsonRpcMessage)
      (correlatedEventId : Option String)
  | broadcastNotification (notification : JsonRpcMessage)
  | close

/-- What a call of `send_response` does next. -/
inductive ResponseStep where
  | findClient (response : JsonRpcMessage)
  | findSession (response : JsonRpcMessage) (client : String)
  /-- The original id is restored; the lock on the sessions is given up. -/
  | publish (response : JsonRpcMessage) (client : String) (isEncrypted : Bool)
  | cleanSession (client : String)
  | cleanRoute

/-- What a call of `send_notification` does next. -/
inductive NotificationStep where
  | findSession
  | publish (isEncrypted : Bool)

/-- A call under way. -/
inductive Task where
  | response (eventId : String) (next : ResponseStep)
  | notification (client : String) (notification : JsonRpcMessage)
      (correlatedEventId : Option String) (next : NotificationStep)
  | snapshot (notification : JsonRpcMessage)
  /-- A broadcast to the rest of its snapshot.  The step is about the first client. -/
  | broadcast (notification : JsonRpcMessage) (clients : List String) (next : NotificationStep)
  | clearSessions
  | clearRoutes

namespace Task

/-- How a call begins.  The `disconnect` of `close` cannot fail and touches neither map. -/
def start : Operation → Task
  | .sendResponse e resp => .response e (.findClient resp)
  | .sendNotification c n correlated => .notification c n correlated .findSession
  | .broadcastNotification n => .snapshot n
  | .close => .clearSessions

def isClose : Task → Bool
  | .clearSessions | .clearRoutes => true
  | _ => false

def isResponse : Task → Bool
  | .response .. => true
  | _ => false

end Task

/-! ## States -/

/-- What a step read or made known. -/
inductive Obs (S : Sdk) where
  | forwarded (event : S.Event) (r : IncomingRequest)
  | called (i : Nat) (op : Operation)
  | foundClient (i : Nat) (eventId client : String)
  | foundSession (i : Nat) (client : String) (session : ClientSession)
  | snapshot (i : Nat) (clients : List String)
  | responded (i : Nat) (eventId : String) (p : Publication S)
  | notified (i : Nat) (p : Publication S)
  | returned (i : Nat) (result : Except Error Unit)

structure State (S : Sdk) where
  sessions : Table String ClientSession
  /-- From event id to client public key (hex). -/
  eventToClient : Table String String
  now : Nat
  /-- How many calls have been made: the name of the next one. -/
  calls : Nat
  tasks : Table Nat Task
  log : List (Obs S)

namespace State

/-- The state in which `start` returns. -/
def init : State S where
  sessions := ∅
  eventToClient := ∅
  now := 0
  calls := 0
  tasks := ∅
  log := []

/-- Record an accepted request in both maps, and forward it. -/
def track (s : State S) (event : S.Event) (r : IncomingRequest) : State S :=
  { s with
    sessions := trackSessions s.now r s.sessions
    eventToClient := trackRoutes r s.eventToClient
    log := .forwarded event r :: s.log }

/-- A cleanup tick. -/
def cleanup (server : NostrServerTransport S) (s : State S) : State S :=
  let (sessions, eventToClient, _) :=
    cleanupSessions s.now server.config.sessionTimeout s.sessions s.eventToClient
  { s with sessions, eventToClient }

def observe (s : State S) (o : Obs S) : State S := { s with log := o :: s.log }

/-- The call `i` goes on to another step. -/
def goto (s : State S) (i : Nat) (task : Task) : State S :=
  { s with tasks := s.tasks.insert i task }

/-- The call `i` returns. -/
def finish (s : State S) (i : Nat) (result : Except Error Unit) : State S :=
  { s with tasks := s.tasks.erase i, log := .returned i result :: s.log }

/-- Whether the borrows of the calls under way permit a call. -/
def Admits (s : State S) : Operation → Prop
  | .close => s.tasks.keys = []
  | _ => ∀ e ∈ s.tasks.entries, e.2.isClose = false

instance (s : State S) (op : Operation) : Decidable (s.Admits op) := by
  cases op <;> unfold Admits <;> infer_instance

def call (s : State S) (op : Operation) : State S :=
  { s with
    calls := s.calls + 1
    tasks := s.tasks.insert s.calls (.start op)
    log := .called s.calls op :: s.log }

end State

/-! ## Steps -/

inductive Action (S : Sdk) where
  /-- The event loop handles an event of the relay pool. -/
  | receive (event : S.Event)
  | call (op : Operation)
  /-- The call `i` makes its next step. -/
  | resume (i : Nat) (amb : Ambient S)
  /-- The broadcast `i` takes its snapshot, in the order of the hash map. -/
  | snapshot (i : Nat) (clients : List String)
  | cleanup
  /-- Time passes. -/
  | elapse (d : Nat)

/-- The next step of the call `i`. -/
def resume (server : NostrServerTransport S) (amb : Ambient S) (s : State S) (i : Nat) :
    Task → Option (State S)
  | .response e (.findClient response) =>
    match findClient s.eventToClient e with
    | .ok c =>
      some ((s.observe (.foundClient i e c)).goto i (.response e (.findSession response c)))
    | .error err => some (s.finish i (.error err))
  | .response e (.findSession response c) =>
    match responseSession s.sessions c with
    | .ok session =>
      some ((s.observe (.foundSession i c session)).goto i
        (.response e (.publish (session.restore e response) c session.isEncrypted)))
    | .error err => some (s.finish i (.error err))
  | .response e (.publish response c isEncrypted) =>
    match server.publishResponse amb e c response isEncrypted with
    | .ok p => some ((s.observe (.responded i e p)).goto i (.response e (.cleanSession c)))
    | .error err => some (s.finish i (.error err))
  | .response e (.cleanSession c) =>
    some ({ s with sessions := cleanSession e c s.sessions }.goto i (.response e .cleanRoute))
  | .response e .cleanRoute =>
    some ({ s with eventToClient := s.eventToClient.erase e }.finish i (.ok ()))
  | .notification c n correlated .findSession =>
    match notificationSession s.sessions c with
    | .ok session =>
      some ((s.observe (.foundSession i c session)).goto i
        (.notification c n correlated (.publish session.isEncrypted)))
    | .error err => some (s.finish i (.error err))
  | .notification c n correlated (.publish isEncrypted) =>
    match server.publishNotification amb c n correlated isEncrypted with
    | .ok p => some ((s.observe (.notified i p)).finish i (.ok ()))
    | .error err => some (s.finish i (.error err))
  | .snapshot _ => none
  -- the failure of one send is logged and the broadcast goes on
  | .broadcast _ [] _ => some (s.finish i (.ok ()))
  | .broadcast n (c :: cs) .findSession =>
    match notificationSession s.sessions c with
    | .ok session =>
      some ((s.observe (.foundSession i c session)).goto i
        (.broadcast n (c :: cs) (.publish session.isEncrypted)))
    | .error _ => some (s.goto i (.broadcast n cs .findSession))
  | .broadcast n (c :: cs) (.publish isEncrypted) =>
    match server.publishNotification amb c n none isEncrypted with
    | .ok p => some ((s.observe (.notified i p)).goto i (.broadcast n cs .findSession))
    | .error _ => some (s.goto i (.broadcast n cs .findSession))
  | .clearSessions => some ({ s with sessions := ∅ }.goto i .clearRoutes)
  | .clearRoutes => some ({ s with eventToClient := ∅ }.finish i (.ok ()))

def step (server : NostrServerTransport S) (s : State S) : Action S → Option (State S)
  | .receive event =>
    match server.accept event with
    | .ok r => some (s.track event r)
    | .error _ => some s
  | .call op => if s.Admits op then some (s.call op) else none
  | .resume i amb => (s.tasks.lookup i).bind (resume server amb s i)
  | .snapshot i clients =>
    match s.tasks.lookup i with
    | some (.snapshot n) =>
      if clients.Perm (initializedClients s.sessions) then
        some ((s.observe (.snapshot i clients)).goto i (.broadcast n clients .findSession))
      else none
    | _ => none
  | .cleanup => some (s.cleanup server)
  | .elapse d => some { s with now := s.now + d }

end ContextVM.Server
