import ContextVM.Lib.Fallible
import ContextVM.Lib.History
import ContextVM.Lib.Run
import ContextVM.Nostr.Symbolic
import ContextVM.Transport.Server.Receive
import Mathlib.Data.Finset.Basic

/-!
# Starting and stopping

`start` and `stop` of the gateway and of the proxy, through the transports down to the relay
pool.  A call borrows its object mutably, so calls follow one another; a call is a program
over the state of the object that may return an error and keeps what it did before.

A `start` that returns an error is to leave no trace.  It leaves none as long as the error
comes first; the steps that come before an error are not undone.
-/

namespace ContextVM

open Lib

variable {S : Sdk} {T α : Type}

/-! ## The relay pool -/

/-- What a subscription asks for: a kind, a `p` tag and the earliest time. -/
structure Filter where
  kind : UInt16
  pTag : String
  since : Nat

/-- What the signer and the relays answer while a call is under way. -/
structure Answers (S : Sdk) where
  addRelay : String → Except String Unit
  signer : Except String Unit
  getPublicKey : Except String S.PublicKey
  subscribe : Filter → Except String Unit
  /-- The time at which the filter for messages is built. -/
  now : Nat
  /-- The time at which the filter for gift wraps is built. -/
  nowWraps : Nat

namespace RelayPool

def connect (answers : Answers S) (relayUrls : List String) : Except Error Unit :=
  relayUrls.forM fun url ↦ (answers.addRelay url).mapError .transport

/-- Disconnecting from the relays cannot fail. -/
def disconnect : Except Error Unit := .ok ()

def publicKey (answers : Answers S) : Except Error S.PublicKey := do
  answers.signer.mapError .other
  answers.getPublicKey.mapError .other

def subscribe (answers : Answers S) (filters : List Filter) : Except Error Unit :=
  filters.forM fun filter ↦ (answers.subscribe filter).mapError .transport

end RelayPool

/-! ## The transports -/

/-- A task that a transport spawns. -/
inductive Background where
  | eventLoop
  /-- The loop that removes idle sessions. -/
  | cleanup
deriving DecidableEq

/-- The receiving end of the channel to the consumer. -/
inductive MessageReceiver where
  | receiver
deriving DecidableEq

/-- What the calls on a transport change.  The tables are those that it shares with the tasks
it has spawned. -/
structure Transport (T : Type) where
  isConnected : Bool
  messageRx : Option MessageReceiver
  tables : T
  /-- The tasks that run. -/
  tasks : List Background

/-- A call of the interface. -/
abbrev Call (σ α : Type) := Fallible Error σ α

namespace Transport

/-- The transport that `new` returns. -/
def new (tables : T) : Transport T where
  isConnected := false
  messageRx := some .receiver
  tables := tables
  tasks := []

def spawn (task : Background) : Call (Transport T) Unit :=
  modify fun t ↦ { t with tasks := t.tasks ++ [task] }

/-- `take_message_receiver` of both transports: the receiver can be taken once. -/
def takeMessageReceiver : Call (Transport T) (Option MessageReceiver) :=
  modifyGet fun t ↦ (t.messageRx, { t with messageRx := none })

end Transport

namespace BaseTransport

def connect (answers : Answers S) (relayUrls : List String) : Call (Transport T) Unit := do
  if (← get).isConnected then return
  ofExcept (RelayPool.connect answers relayUrls)
  modify fun t ↦ { t with isConnected := true }

def disconnect : Call (Transport T) Unit := do
  if !(← get).isConnected then return
  ofExcept RelayPool.disconnect
  modify fun t ↦ { t with isConnected := false }

def getPublicKey (answers : Answers S) : Except Error S.PublicKey := RelayPool.publicKey answers

/-- The filters of `subscribe_for_pubkey`: messages from now on, and the gift wraps of the
last two days, whose timestamps are randomized. -/
def filters (answers : Answers S) (pubkey : S.PublicKey) : List Filter :=
  [{ kind := ctxvmMessagesKind, pTag := S.toHex pubkey, since := answers.now },
    { kind := giftWrapKind, pTag := S.toHex pubkey
      since := answers.nowWraps - 2 * 24 * 3600 }]

def subscribeForPubkey (answers : Answers S) (pubkey : S.PublicKey) : Except Error Unit :=
  RelayPool.subscribe answers (filters answers pubkey)

end BaseTransport

/-- `start` of both transports, up to the tasks that it spawns. -/
def startTransport (answers : Answers S) (relayUrls : List String) (spawned : List Background) :
    Call (Transport T) Unit := do
  BaseTransport.connect answers relayUrls
  let pubkey ← ofExcept (BaseTransport.getPublicKey answers)
  ofExcept (BaseTransport.subscribeForPubkey answers pubkey)
  forM spawned Transport.spawn

/-- The two maps of the server. -/
structure ServerTables where
  sessions : Table String ClientSession
  /-- From event id to client public key (hex). -/
  eventToClient : Table String String

namespace NostrServerTransport

def start (answers : Answers S) (relayUrls : List String) : Call (Transport ServerTables) Unit :=
  startTransport answers relayUrls [.eventLoop, .cleanup]

def close : Call (Transport ServerTables) Unit := do
  BaseTransport.disconnect
  modify fun t ↦ { t with tables := { t.tables with sessions := ∅ } }
  modify fun t ↦ { t with tables := { t.tables with eventToClient := ∅ } }

end NostrServerTransport

namespace NostrClientTransport

def start (answers : Answers S) (relayUrls : List String) :
    Call (Transport (Finset String)) Unit :=
  startTransport answers relayUrls [.eventLoop]

/-- The pending set is kept. -/
def close : Call (Transport (Finset String)) Unit := BaseTransport.disconnect

end NostrClientTransport

/-! ## The gateway and the proxy -/

/-- A gateway or a proxy: its transport, and its flag. -/
structure Endpoint (T : Type) where
  transport : Transport T
  isRunning : Bool

namespace Endpoint

/-- The endpoint that `new` returns. -/
def new (tables : T) : Endpoint T where
  transport := .new tables
  isRunning := false

def isActive (s : Endpoint T) : Bool := s.isRunning

/-- A call on the transport of an endpoint. -/
def onTransport (call : Call (Transport T) α) : Call (Endpoint T) α :=
  zoom Endpoint.transport (fun transport s ↦ { s with transport }) call

/-- `start` of both endpoints. -/
def start (running : String) (startTransport : Call (Transport T) Unit) :
    Call (Endpoint T) MessageReceiver := do
  if (← get).isRunning then throw (.other running)
  onTransport startTransport
  modify fun s ↦ { s with isRunning := true }
  match ← onTransport Transport.takeMessageReceiver with
  | some rx => return rx
  | none => throw (.other "Message receiver already taken")

/-- `stop` of both endpoints. -/
def stop (closeTransport : Call (Transport T) Unit) : Call (Endpoint T) Unit := do
  if !(← get).isRunning then return
  onTransport closeTransport
  modify fun s ↦ { s with isRunning := false }

end Endpoint

namespace NostrMCPGateway

def start (answers : Answers S) (relayUrls : List String) :
    Call (Endpoint ServerTables) MessageReceiver :=
  Endpoint.start "Gateway already running" (NostrServerTransport.start answers relayUrls)

def stop : Call (Endpoint ServerTables) Unit := Endpoint.stop NostrServerTransport.close

end NostrMCPGateway

namespace NostrMCPProxy

def start (answers : Answers S) (relayUrls : List String) :
    Call (Endpoint (Finset String)) MessageReceiver :=
  Endpoint.start "Proxy already running" (NostrClientTransport.start answers relayUrls)

def stop : Call (Endpoint (Finset String)) Unit := Endpoint.stop NostrClientTransport.close

end NostrMCPProxy

/-! ## What a start does -/

/-- The transport is connected, or the relays let it connect. -/
def Transport.Connects (t : Transport T) (answers : Answers S) (relayUrls : List String) : Prop :=
  t.isConnected = true ∨ RelayPool.connect answers relayUrls = .ok ()

/-- The signer tells its key, and the relays take the subscription. -/
def Answers.Subscribes (answers : Answers S) : Prop :=
  ∃ pubkey, BaseTransport.getPublicKey answers = .ok pubkey ∧
    BaseTransport.subscribeForPubkey answers pubkey = .ok ()

section

variable (answers : Answers S) (relayUrls : List String) (spawned : List Background)

theorem exec_forM_spawn (t : Transport T) :
    exec (forM spawned Transport.spawn) t = (.ok (), { t with tasks := t.tasks ++ spawned }) := by
  induction spawned generalizing t with
  | nil => simp
  | cons task spawned ih => simp [Transport.spawn, exec_bind, ih]

/-- Connecting: either way the transport is then connected, or the relays refuse. -/
theorem exec_connect_cases (t : Transport T) :
    (t.Connects answers relayUrls ∧ exec (BaseTransport.connect answers relayUrls) t =
      (.ok (), { t with isConnected := true })) ∨
    (¬ t.Connects answers relayUrls ∧ ∃ e, exec (BaseTransport.connect answers relayUrls) t =
      (.error e, t)) := by
  unfold BaseTransport.connect
  cases hc : t.isConnected with
  | true =>
      obtain ⟨_, _, _, _⟩ := t
      obtain rfl : _ = true := hc
      exact .inl ⟨.inl rfl, by simp [exec_bind]⟩
  | false =>
      cases h : RelayPool.connect answers relayUrls with
      | ok u => exact .inl ⟨.inr h, by simp [exec_bind, hc]⟩
      | error e => exact .inr ⟨by simp [Transport.Connects, hc, h], e, by simp [exec_bind, hc]⟩

/-- The result and the state of `start` of a transport. -/
inductive TransportStarted (t : Transport T) : Except Error Unit × Transport T → Prop
  | refused (e : Error) (hc : ¬ t.Connects answers relayUrls) : TransportStarted t (.error e, t)
  | unsubscribed (e : Error) (hc : t.Connects answers relayUrls) (hs : ¬ answers.Subscribes) :
      TransportStarted t (.error e, { t with isConnected := true })
  | started (hc : t.Connects answers relayUrls) (hs : answers.Subscribes) :
      TransportStarted t
        (.ok (), { t with isConnected := true, tasks := t.tasks ++ spawned })

theorem startTransport_started (t : Transport T) :
    TransportStarted answers relayUrls spawned t
      (exec (startTransport answers relayUrls spawned) t) := by
  unfold startTransport
  rw [exec_bind]
  obtain ⟨hc, hconn⟩ | ⟨hc, e, hconn⟩ := exec_connect_cases answers relayUrls t
  · rw [hconn]
    cases hk : BaseTransport.getPublicKey answers with
    | error e =>
        have hs : ¬ answers.Subscribes := by simp [Answers.Subscribes, hk]
        simpa [exec_bind, hk] using TransportStarted.unsubscribed e hc hs
    | ok pubkey =>
        cases hf : BaseTransport.subscribeForPubkey answers pubkey with
        | error e =>
            have hs : ¬ answers.Subscribes := by simp [Answers.Subscribes, hk, hf]
            simpa [exec_bind, hk, hf] using TransportStarted.unsubscribed e hc hs
        | ok u =>
            have hs : answers.Subscribes := ⟨pubkey, hk, hf⟩
            simpa [exec_bind, hk, hf, exec_forM_spawn] using TransportStarted.started hc hs
  · rw [hconn]
    exact .refused e hc

variable {answers relayUrls spawned} in
/-- A start that returns `Ok` has spawned the tasks. -/
theorem tasks_of_startTransport {t t' : Transport T}
    (h : exec (startTransport answers relayUrls spawned) t = (.ok (), t')) :
    t'.tasks = t.tasks ++ spawned := by
  have hstarted := startTransport_started answers relayUrls spawned t
  generalize exec (startTransport answers relayUrls spawned) t = r at h hstarted
  cases hstarted with
  | refused | unsubscribed => cases h
  | started =>
      cases h
      rfl

/-- The result and the state of `start` of an endpoint. -/
inductive Endpoint.Started (s : Endpoint T) : Except Error MessageReceiver × Endpoint T → Prop
  | alreadyRunning (e : Error) (hr : s.isRunning = true) : Started s (.error e, s)
  | refused (e : Error) (hr : s.isRunning = false)
      (hc : ¬ s.transport.Connects answers relayUrls) : Started s (.error e, s)
  | unsubscribed (e : Error) (hr : s.isRunning = false)
      (hc : s.transport.Connects answers relayUrls) (hs : ¬ answers.Subscribes) :
      Started s (.error e, { s with transport := { s.transport with isConnected := true } })
  | receiverTaken (e : Error) (hr : s.isRunning = false)
      (hc : s.transport.Connects answers relayUrls) (hs : answers.Subscribes)
      (hrx : s.transport.messageRx = none) :
      Started s (.error e,
        { transport :=
            { s.transport with
              isConnected := true
              tasks := s.transport.tasks ++ spawned
              messageRx := none }
          isRunning := true })
  | started (rx : MessageReceiver) (hr : s.isRunning = false)
      (hc : s.transport.Connects answers relayUrls) (hs : answers.Subscribes)
      (hrx : s.transport.messageRx = some rx) :
      Started s (.ok rx,
        { transport :=
            { s.transport with
              isConnected := true
              tasks := s.transport.tasks ++ spawned
              messageRx := none }
          isRunning := true })

theorem Endpoint.start_started (running : String) (s : Endpoint T) :
    s.Started answers relayUrls spawned
      (exec (Endpoint.start running (startTransport answers relayUrls spawned)) s) := by
  obtain ⟨t, isRunning⟩ := s
  unfold Endpoint.start onTransport
  rw [exec_bind, exec_get]
  cases isRunning with
  | true => simpa [exec_bind] using Started.alreadyRunning (.other running) rfl
  | false =>
      have ht := startTransport_started answers relayUrls spawned t
      generalize hx : exec (startTransport answers relayUrls spawned) t = r at ht
      cases ht with
      | refused e hc => simpa [exec_bind, hx] using Started.refused e rfl hc
      | unsubscribed e hc hs => simpa [exec_bind, hx] using Started.unsubscribed e rfl hc hs
      | started hc hs =>
          cases hrx : t.messageRx with
          | none =>
              simpa [exec_bind, hx, Transport.takeMessageReceiver, hrx] using
                Started.receiverTaken (.other "Message receiver already taken") rfl hc hs hrx
          | some rx =>
              simpa [exec_bind, hx, Transport.takeMessageReceiver, hrx] using
                Started.started rx rfl hc hs hrx

end

/-! ## What a stop does -/

theorem exec_disconnect (t : Transport T) :
    exec BaseTransport.disconnect t = (.ok (), { t with isConnected := false }) := by
  unfold BaseTransport.disconnect
  obtain ⟨_ | _, _, _, _⟩ := t <;> simp [exec_bind, RelayPool.disconnect]

theorem NostrServerTransport.exec_close (t : Transport ServerTables) :
    exec close t = (.ok (), { t with isConnected := false, tables := ⟨∅, ∅⟩ }) := by
  simp [close, exec_bind, exec_disconnect]

/-- If closing the transport cannot fail, stopping cannot either. -/
theorem Endpoint.exec_stop {closeTransport : Call (Transport T) Unit} {t : Transport T}
    {s : Endpoint T} (h : exec closeTransport s.transport = (.ok (), t)) :
    ∃ s', exec (stop closeTransport) s = (.ok (), s') ∧ s'.isRunning = false := by
  unfold stop onTransport
  cases hr : s.isRunning with
  | true => exact ⟨⟨t, false⟩, by simp [exec_bind, hr, h], rfl⟩
  | false => exact ⟨s, by simp [exec_bind, hr], hr⟩

/-! ## Histories of calls -/

/-- The two endpoints. -/
inductive Host where
  | gateway
  | proxy

namespace Host

/-- What the transport of an endpoint shares with its tasks. -/
def Tables : Host → Type
  | .gateway => ServerTables
  | .proxy => Finset String

/-- The tasks that the transport of an endpoint spawns. -/
def spawned : Host → List Background
  | .gateway => [.eventLoop, .cleanup]
  | .proxy => [.eventLoop]

def start (host : Host) (answers : Answers S) (relayUrls : List String) :
    Call (Endpoint host.Tables) MessageReceiver :=
  match host with
  | .gateway => NostrMCPGateway.start answers relayUrls
  | .proxy => NostrMCPProxy.start answers relayUrls

def stop (host : Host) : Call (Endpoint host.Tables) Unit :=
  match host with
  | .gateway => NostrMCPGateway.stop
  | .proxy => NostrMCPProxy.stop

theorem start_started (host : Host) (answers : Answers S) (relayUrls : List String)
    (s : Endpoint host.Tables) :
    s.Started answers relayUrls host.spawned (exec (host.start answers relayUrls) s) := by
  cases host with
  | gateway => exact Endpoint.start_started answers relayUrls _ _ s
  | proxy => exact Endpoint.start_started answers relayUrls _ _ s

/-- `stop` returns `Ok`, and the endpoint is then not active. -/
theorem exec_stop (host : Host) (s : Endpoint host.Tables) :
    ∃ s', exec host.stop s = (.ok (), s') ∧ s'.isRunning = false := by
  cases host with
  | gateway => exact Endpoint.exec_stop (NostrServerTransport.exec_close s.transport)
  | proxy => exact Endpoint.exec_stop (exec_disconnect s.transport)

end Host

namespace Lifecycle

/-- What a call returned. -/
inductive Obs where
  | started (result : Except Error MessageReceiver)
  | stopped (result : Except Error Unit)

structure State (T : Type) where
  endpoint : Endpoint T
  /-- The results of the calls, the newest first. -/
  log : List Obs

def State.init (tables : T) : State T := ⟨.new tables, []⟩

inductive Action (S : Sdk) (T : Type) where
  | start (answers : Answers S)
  | stop
  /-- A task ends. -/
  | ended (i : Nat)
  /-- The tasks and the other calls work on the tables. -/
  | work (tables : T)

def step (host : Host) (relayUrls : List String) (s : State host.Tables) :
    Action S host.Tables → Option (State host.Tables)
  | .start answers =>
    let (result, endpoint) := exec (host.start answers relayUrls) s.endpoint
    some ⟨endpoint, .started result :: s.log⟩
  | .stop =>
    let (result, endpoint) := exec host.stop s.endpoint
    some ⟨endpoint, .stopped result :: s.log⟩
  | .ended i =>
    let transport := s.endpoint.transport
    some { s with endpoint.transport.tasks := transport.tasks.eraseIdx i }
  | .work tables => some { s with endpoint.transport.tables := tables }

/-- What a result says about the activity of the endpoint. -/
def Obs.activity : Obs → Option Bool
  | .started (.ok _) => some true
  | .stopped (.ok _) => some false
  | _ => none

/-- The last start that returned `Ok` has not been followed by a stop that returned `Ok`. -/
def State.StartedLast (s : State T) : Prop := latest Obs.activity s.log = some true

/-- A start that returns an error leaves the flags and the tasks as they were. -/
def AtomicOnError (host : Host) (relayUrls : List String) (s : Endpoint host.Tables)
    (answers : Answers S) : Prop :=
  ∀ e s', exec (host.start answers relayUrls) s = (.error e, s') →
    s'.isRunning = s.isRunning ∧ s'.transport.isConnected = s.transport.isConnected ∧
      s'.transport.tasks = s.transport.tasks

/-- The start has nothing to undo: the endpoint is running, or the relays refuse the
connection, or the transport was connected before and cannot subscribe, or the receiver is still
there for a start that comes so far. -/
def NothingToUndo (relayUrls : List String) (s : Endpoint T) (answers : Answers S) : Prop :=
  s.isRunning = true ∨ ¬ s.transport.Connects answers relayUrls ∨
    (s.transport.isConnected = true ∧ ¬ answers.Subscribes) ∨
    (answers.Subscribes ∧ s.transport.messageRx.isSome = true)

section

variable {host : Host} {relayUrls : List String}

theorem atomicOnError_iff {s : Endpoint host.Tables} {answers : Answers S} :
    AtomicOnError host relayUrls s answers ↔ NothingToUndo relayUrls s answers := by
  have h := host.start_started answers relayUrls s
  unfold AtomicOnError
  generalize exec (host.start answers relayUrls) s = r at h ⊢
  cases h with
  | alreadyRunning e hr =>
      refine iff_of_true ?_ (.inl hr)
      rintro _ _ ⟨⟩
      exact ⟨rfl, rfl, rfl⟩
  | refused e hr hc =>
      refine iff_of_true ?_ (.inr (.inl hc))
      rintro _ _ ⟨⟩
      exact ⟨rfl, rfl, rfl⟩
  | unsubscribed e hr hc hs =>
      -- the connection is kept
      constructor
      · intro h
        obtain ⟨-, hconn, -⟩ := h _ _ rfl
        exact .inr (.inr (.inl ⟨hconn.symm, hs⟩))
      · rintro (hr' | hc' | ⟨hconn, -⟩ | ⟨hs', -⟩)
        · rw [hr] at hr'
          cases hr'
        · exact absurd hc hc'
        · rintro _ _ ⟨⟩
          exact ⟨rfl, hconn.symm, rfl⟩
        · exact absurd hs' hs
  | receiverTaken e hr hc hs hrx =>
      -- the endpoint is running, and its tasks too
      refine iff_of_false ?_ ?_
      · intro h
        obtain ⟨hrun, -⟩ := h _ _ rfl
        rw [hr] at hrun
        cases hrun
      · rintro (hr' | hc' | ⟨-, hs'⟩ | ⟨-, hrx'⟩)
        · rw [hr] at hr'
          cases hr'
        · exact hc' hc
        · exact hs' hs
        · rw [hrx] at hrx'
          cases hrx'
  | started rx hr hc hs hrx =>
      refine iff_of_true ?_ (.inr (.inr (.inr ⟨hs, by rw [hrx]; rfl⟩)))
      rintro _ _ ⟨⟩

/-- The condition on the starts of a run. -/
def StartsClean (relayUrls : List String) (s : State T) (a : Action S T) : Prop :=
  ∀ answers, a = .start answers → NothingToUndo relayUrls s.endpoint answers

/-- A clean start or any other step keeps the flag true to the results. -/
theorem step_startedLast {s s' : State host.Tables} {a : Action S host.Tables}
    (hI : s.endpoint.isActive = true ↔ s.StartedLast) (hclean : StartsClean relayUrls s a)
    (hstep : step host relayUrls s a = some s') :
    s'.endpoint.isActive = true ↔ s'.StartedLast := by
  cases a with
  | start answers =>
      have h := host.start_started answers relayUrls s.endpoint
      have hatomic := atomicOnError_iff.2 (hclean answers rfl)
      unfold AtomicOnError at hatomic
      simp only [step, Option.some.injEq] at hstep
      subst hstep
      generalize exec (host.start answers relayUrls) s.endpoint = r at h hatomic ⊢
      obtain ⟨result, endpoint⟩ := r
      cases result with
      | error e =>
          -- neither the flag nor the last result that counts has changed
          obtain ⟨hrun, -⟩ := hatomic e endpoint rfl
          simp only [Endpoint.isActive, hrun, State.StartedLast]
          rw [latest_cons_of_none rfl]
          exact hI
      | ok rx =>
          cases h
          exact iff_of_true rfl (latest_cons_of_some (f := Obs.activity) rfl s.log)
  | stop =>
      obtain ⟨endpoint, hexec, hrun⟩ := host.exec_stop s.endpoint
      simp only [step, hexec, Option.some.injEq] at hstep
      subst hstep
      have hlog : latest Obs.activity (.stopped (.ok ()) :: s.log) = some false :=
        latest_cons_of_some (f := Obs.activity) rfl s.log
      refine iff_of_false ?_ ?_
      · simp [Endpoint.isActive, hrun]
      · simp [State.StartedLast, hlog]
  | ended i =>
      cases hstep
      exact hI
  | work tables =>
      cases hstep
      exact hI

variable (host relayUrls) in
theorem exists_run (s : State host.Tables) (actions : List (Action S host.Tables)) :
    ∃ s', run (step host relayUrls) s actions = some s' := by
  induction actions generalizing s with
  | nil => exact ⟨s, rfl⟩
  | cons a actions ih =>
      have hstep : ∃ m, step host relayUrls s a = some m := by
        cases a <;> exact ⟨_, rfl⟩
      obtain ⟨m, hm⟩ := hstep
      obtain ⟨s', hs'⟩ := ih m
      exact ⟨s', (run_cons_eq_some _).2 ⟨m, hm, hs'⟩⟩

/-- After every history, a start leaves no trace of an error exactly if it has nothing to undo.
If no start of the history had, the endpoint is active exactly if the last start that returned
`Ok` has not been followed by a stop. -/
theorem start_atomic_iff (host : Host) (relayUrls : List String) (tables : host.Tables)
    (actions : List (Action S host.Tables)) :
    ∃ s, run (step host relayUrls) (.init tables) actions = some s ∧
      (∀ answers : Answers S, AtomicOnError host relayUrls s.endpoint answers ↔
        NothingToUndo relayUrls s.endpoint answers) ∧
      (Always (step host relayUrls) (StartsClean relayUrls) (.init tables) actions →
        (s.endpoint.isActive = true ↔ s.StartedLast)) := by
  obtain ⟨s, hrun⟩ := exists_run host relayUrls (.init tables) actions
  refine ⟨s, hrun, fun answers ↦ atomicOnError_iff, fun hclean ↦ ?_⟩
  have hinit : (State.init tables).endpoint.isActive = true ↔ (State.init tables).StartedLast :=
    iff_of_false (by simp [Endpoint.isActive, State.init, Endpoint.new])
      (by simp [State.StartedLast, State.init])
  exact run_invariant_of_always (fun s ↦ s.endpoint.isActive = true ↔ s.StartedLast)
    (fun _ _ _ hI hclean hstep ↦ step_startedLast hI hclean hstep) hinit hclean hrun

end

/-- The signer and the relays comply. -/
def compliant : Answers Symbolic.sdk where
  addRelay _ := .ok ()
  signer := .ok ()
  getPublicKey := .ok "server"
  subscribe _ := .ok ()
  now := 0
  nowWraps := 0

/-- A gateway that was started and stopped once. -/
def stoppedOnce : State ServerTables :=
  (run (step .gateway []) (.init ⟨∅, ∅⟩) [.start compliant, .stop]).get rfl

/-- Starting it again returns an error, and leaves it active with every task running twice. -/
def restarted : State ServerTables :=
  (step .gateway [] stoppedOnce (.start compliant)).get rfl

theorem restart_leaves_trace :
    ¬ ∀ (S : Sdk) (host : Host) (relayUrls : List String) (tables : host.Tables)
      (actions : List (Action S host.Tables)) (s : State host.Tables),
      run (step host relayUrls) (.init tables) actions = some s →
        (∀ answers : Answers S, AtomicOnError host relayUrls s.endpoint answers) ∧
          (s.endpoint.isActive = true ↔ s.StartedLast) := by
  intro hall
  obtain ⟨hatomic, -⟩ := hall Symbolic.sdk .gateway [] ⟨∅, ∅⟩ [.start compliant, .stop]
    stoppedOnce rfl
  obtain ⟨hrun, -⟩ := hatomic compliant (.other "Message receiver already taken")
    restarted.endpoint rfl
  exact absurd hrun (by decide)

end Lifecycle

end ContextVM
