import ContextVM.Lib.History
import ContextVM.Lib.Run
import ContextVM.Transport.Base
import Mathlib.Data.Finset.Basic

/-!
# The client as a transition system

`transport/client.rs`.  The event loop and any number of calls of `send` share the set of
pending event ids.

* A call of `send` publishes the event and then, in a second step, inserts its id.
* The event loop checks an event against the pending set, and in a second step removes the
  id and forwards the message.  It handles one event after the other.

As for the server, the `log` records with the newest first what the steps made known.
-/

namespace ContextVM

open Lib

variable {S : Sdk}

/-- The parts of the client transport that do not change while it runs. -/
structure NostrClientTransport (S : Sdk) where
  keys : S.Keys
  serverPubkey : S.PublicKey
  encryptionMode : EncryptionMode
  /-- Emulate the initialize response locally. -/
  isStateless : Bool

namespace NostrClientTransport

def base (client : NostrClientTransport S) : BaseTransport S :=
  ⟨client.keys, client.encryptionMode⟩

/-! ## Receiving -/

/-- The event whose content, author and tags the loop goes by.  The encryption mode is not
looked at. -/
def layer (client : NostrClientTransport S) (event : S.Event) : Except Refusal S.Event :=
  if event.kind = giftWrapKind then innerEvent client.keys event else .ok event

/-- The loop up to the check of the pending set: the content to parse, and the id of the
request it is correlated with. -/
def take (client : NostrClientTransport S) (pending : Finset String) (event : S.Event) :
    Except Refusal (S.Text × Option String) := do
  let read ← client.layer event
  let eTag := getTagValue read.tags "e"
  if read.pubkey ≠ client.serverPubkey then .error .unexpectedPubkey
  else
    match eTag with
    | some correlatedId =>
      if correlatedId ∈ pending then .ok (read.content, eTag) else .error .unknownRequest
    | none => .ok (read.content, eTag)

/-- The pending set after a message that is correlated with `eTag` was parsed. -/
def cleanUp (eTag : Option String) (pending : Finset String) : Finset String :=
  match eTag with
  | some correlatedId => pending.erase correlatedId
  | none => pending

/-! ## Sending -/

def emulateInitializeResponse (requestId : Value) : JsonRpcMessage :=
  .response
    { jsonrpc := "2.0"
      id := requestId
      result := .ofJson <| .obj
        [("protocolVersion", .str "2025-03-26"),
          ("serverInfo", .obj
            [("name", .str "Emulated-Stateless-Server"), ("version", .str "1.0.0")]),
          ("capabilities", .obj
            [("tools", .obj [("listChanged", .bool true)]),
              ("prompts", .obj [("listChanged", .bool true)]),
              ("resources", .obj
                [("subscribe", .bool true), ("listChanged", .bool true)])])] }

/-- In stateless mode two messages are not sent.  One of them is answered here. -/
def emulate (client : NostrClientTransport S) (message : JsonRpcMessage) :
    Option (Option JsonRpcMessage) :=
  if client.isStateless then
    match message with
    | .request req =>
      if req.method = "initialize" then some (some (emulateInitializeResponse req.id))
      else none
    | .notification n => if n.method = "notifications/initialized" then some none else none
    | _ => none
  else none

/-- Publish a message to the server: the id that `send` goes on to register, and the event. -/
def publish (client : NostrClientTransport S) (amb : Ambient S) (message : JsonRpcMessage) :
    Except Error (S.EventId × S.Event) :=
  client.base.sendMcpMessage amb message client.serverPubkey ctxvmMessagesKind
    (createRecipientTags S client.serverPubkey) none

end NostrClientTransport

namespace Client

open NostrClientTransport

/-! ## States -/

/-- What a call of `send` does next. -/
inductive Task where
  | publish (message : JsonRpcMessage)
  | register (eventId : String)

/-- What a step made known. -/
inductive Obs (S : Sdk) where
  | called (i : Nat) (message : JsonRpcMessage)
  | emulated (i : Nat) (message : JsonRpcMessage)
  | published (i : Nat) (message : JsonRpcMessage) (event : S.Event)
  | registered (i : Nat) (eventId : String)
  | forwarded (event : S.Event) (eTag : Option String) (message : JsonRpcMessage)
  | returned (i : Nat) (result : Except Error Unit)

/-- An event that has passed the check of the pending set. -/
structure Taken (S : Sdk) where
  event : S.Event
  content : S.Text
  eTag : Option String

structure State (S : Sdk) where
  /-- Pending request event ids awaiting responses. -/
  pendingRequests : Finset String
  calls : Nat
  tasks : Table Nat Task
  /-- The event the loop is at. -/
  loop : Option (Taken S)
  log : List (Obs S)

namespace State

def init : State S where
  pendingRequests := ∅
  calls := 0
  tasks := ∅
  loop := none
  log := []

def observe (s : State S) (o : Obs S) : State S := { s with log := o :: s.log }

def finish (s : State S) (i : Nat) (result : Except Error Unit) : State S :=
  { s with tasks := s.tasks.erase i, log := .returned i result :: s.log }

def call (s : State S) (message : JsonRpcMessage) : State S :=
  { s with
    calls := s.calls + 1
    tasks := s.tasks.insert s.calls (.publish message)
    log := .called s.calls message :: s.log }

/-- The call `i` has published and goes on to register the id. -/
def publish (s : State S) (i : Nat) (message : JsonRpcMessage) (eventId : String)
    (event : S.Event) : State S :=
  { s with
    tasks := s.tasks.insert i (.register eventId)
    log := .published i message event :: s.log }

/-- The call `i` inserts the id. -/
def register (s : State S) (i : Nat) (eventId : String) : State S :=
  { s with
    pendingRequests := insert eventId s.pendingRequests
    log := .registered i eventId :: s.log }

/-- The loop forwards the message it is at. -/
def forward (s : State S) (t : Taken S) (message : JsonRpcMessage) : State S :=
  { s with
    pendingRequests := cleanUp t.eTag s.pendingRequests
    loop := none
    log := .forwarded t.event t.eTag message :: s.log }

section

variable (s : State S) (i j : Nat)

theorem lookup_finish (result : Except Error Unit) : (s.finish i result).tasks.lookup j =
    if j = i then none else s.tasks.lookup j := Table.lookup_erase_eq ..

theorem lookup_call (message : JsonRpcMessage) : (s.call message).tasks.lookup j =
    if j = s.calls then some (.publish message) else s.tasks.lookup j :=
  Table.lookup_insert_eq ..

theorem lookup_publish (message : JsonRpcMessage) (eventId : String) (event : S.Event) :
    (s.publish i message eventId event).tasks.lookup j =
      if j = i then some (.register eventId) else s.tasks.lookup j :=
  Table.lookup_insert_eq ..

end

end State

/-! ## Steps -/

inductive Action (S : Sdk) where
  | call (message : JsonRpcMessage)
  /-- The call `i` makes its next step. -/
  | resume (i : Nat) (amb : Ambient S)
  /-- The loop takes an event of the relay pool and checks it. -/
  | receive (event : S.Event)
  /-- The loop parses the event it is at. -/
  | deliver

/-- The next step of the call `i`. -/
def resume (client : NostrClientTransport S) (amb : Ambient S) (s : State S) (i : Nat) :
    Task → State S
  | .publish message =>
    match client.emulate message with
    | some (some response) => (s.observe (.emulated i response)).finish i (.ok ())
    | some none => s.finish i (.ok ())
    | none =>
      match client.publish amb message with
      | .ok (eventId, event) => s.publish i message (S.idToHex eventId) event
      | .error err => s.finish i (.error err)
  | .register eventId => (s.register i eventId).finish i (.ok ())

def step (client : NostrClientTransport S) (s : State S) : Action S → Option (State S)
  | .call message => some (s.call message)
  | .resume i amb => (s.tasks.lookup i).map (resume client amb s i)
  | .receive event =>
    match s.loop with
    | some _ => none
    | none =>
      match client.take s.pendingRequests event with
      | .ok (content, eTag) => some { s with loop := some ⟨event, content, eTag⟩ }
      | .error _ => some s
  | .deliver =>
    match s.loop with
    | none => none
    | some t =>
      match nostrEventToMcpMessage S t.content with
      | some message => some (s.forward t message)
      | none => some { s with loop := none }

/-! ## What a step does -/

/-- The steps of the client. -/
inductive Transition (client : NostrClientTransport S) (s : State S) :
    Action S → State S → Prop
  | called (message : JsonRpcMessage) :
      Transition client s (.call message) (s.call message)
  | emulated (i : Nat) (amb : Ambient S) (message response : JsonRpcMessage)
      (ht : s.tasks.lookup i = some (.publish message)) :
      Transition client s (.resume i amb) ((s.observe (.emulated i response)).finish i (.ok ()))
  | returned (i : Nat) (amb : Ambient S) (message : JsonRpcMessage)
      (result : Except Error Unit) (ht : s.tasks.lookup i = some (.publish message)) :
      Transition client s (.resume i amb) (s.finish i result)
  | published (i : Nat) (amb : Ambient S) (message : JsonRpcMessage) (eventId : S.EventId)
      (event : S.Event) (ht : s.tasks.lookup i = some (.publish message))
      (hp : client.publish amb message = .ok (eventId, event)) :
      Transition client s (.resume i amb) (s.publish i message (S.idToHex eventId) event)
  | registered (i : Nat) (amb : Ambient S) (eventId : String)
      (ht : s.tasks.lookup i = some (.register eventId)) :
      Transition client s (.resume i amb) ((s.register i eventId).finish i (.ok ()))
  | refused (event : S.Event) (why : Refusal) (hl : s.loop = none)
      (h : client.take s.pendingRequests event = .error why) :
      Transition client s (.receive event) s
  | taken (event : S.Event) (content : S.Text) (eTag : Option String) (hl : s.loop = none)
      (h : client.take s.pendingRequests event = .ok (content, eTag)) :
      Transition client s (.receive event) { s with loop := some ⟨event, content, eTag⟩ }
  | forwarded (t : Taken S) (message : JsonRpcMessage) (hl : s.loop = some t)
      (hm : nostrEventToMcpMessage S t.content = some message) :
      Transition client s .deliver (s.forward t message)
  | unparsed (t : Taken S) (hl : s.loop = some t)
      (hm : nostrEventToMcpMessage S t.content = none) :
      Transition client s .deliver { s with loop := none }

variable {client : NostrClientTransport S}

theorem step_transition {s s' : State S} {a : Action S} (h : step client s a = some s') :
    Transition client s a s' := by
  cases a with
  | call message =>
      cases h
      exact .called message
  | resume i amb =>
      obtain ⟨task, ht, rfl⟩ := Option.map_eq_some_iff.1 h
      cases task with
      | publish message =>
          simp only [resume]
          split
          · exact .emulated i amb message _ ht
          · exact .returned i amb message _ ht
          · split
            · next hp => exact .published i amb message _ _ ht hp
            · exact .returned i amb message _ ht
      | register eventId => exact .registered i amb eventId ht
  | receive event =>
      simp only [step] at h
      cases hl : s.loop with
      | some t => simp [hl] at h
      | none =>
          simp only [hl] at h
          split at h
          · next content eTag htake =>
              cases h
              exact .taken event content eTag hl htake
          · next why htake =>
              cases h
              exact .refused event why hl htake
  | deliver =>
      simp only [step] at h
      cases hl : s.loop with
      | none => simp [hl] at h
      | some t =>
          simp only [hl] at h
          split at h
          · next message hm =>
              cases h
              exact .forwarded t message hl hm
          · next hm =>
              cases h
              exact .unparsed t hl hm

/-! ## Reachable states -/

def Reachable (client : NostrClientTransport S) (s : State S) : Prop :=
  Reaches (step client) .init s

theorem Reachable.init : Reachable client (.init : State S) := .refl _ _

theorem Reachable.step {s s' : State S} {a : Action S} (h : Reachable client s)
    (hstep : Client.step client s a = some s') : Reachable client s' :=
  Reaches.tail _ h hstep

/-- What holds at the start and is kept by every step holds in every reachable state. -/
theorem Reachable.induct (I : State S → Prop) (hinit : I .init)
    (hstep : ∀ s a s', I s → Transition client s a s' → I s') {s : State S}
    (h : Reachable client s) : I s :=
  Reaches.induct _ h I hinit fun m a m' _ hI hm' ↦ hstep m a m' hI (step_transition hm')

/-! ## What the check of an event means -/

/-- What the loop reads of an event: the event `read` that is its own or that it carries, by
the server, with this content and this tag. -/
structure Read (client : NostrClientTransport S) (event : S.Event) (content : S.Text)
    (eTag : Option String) (read : S.Event) : Prop where
  layer : client.layer event = .ok read
  author : read.pubkey = client.serverPubkey
  content : read.content = content
  eTag : getTagValue read.tags "e" = eTag

/-- An event passes the check if it is by the server, and if the request it is correlated
with is pending. -/
theorem take_ok {pending : Finset String} {event : S.Event} {content : S.Text}
    {eTag : Option String} :
    client.take pending event = .ok (content, eTag) ↔
      (∃ read, Read client event content eTag read) ∧ ∀ id, eTag = some id → id ∈ pending := by
  unfold take
  cases hl : client.layer event with
  | error why =>
      apply iff_of_false (by simp [bind, Except.bind])
      rintro ⟨⟨read, hread⟩, -⟩
      exact absurd hread.layer (by simp [hl])
  | ok read =>
      simp only [bind, Except.bind]
      have hread : (∃ read', Read client event content eTag read') ↔
          read.pubkey = client.serverPubkey ∧ read.content = content ∧
            getTagValue read.tags "e" = eTag := by
        constructor
        · rintro ⟨read', hlayer, hauthor, hcontent, htag⟩
          cases hl.symm.trans hlayer
          exact ⟨hauthor, hcontent, htag⟩
        · rintro ⟨hauthor, hcontent, htag⟩
          exact ⟨read, hl, hauthor, hcontent, htag⟩
      rw [hread]
      by_cases hpubkey : read.pubkey = client.serverPubkey
      · cases htag : getTagValue read.tags "e" with
        | none => grind
        | some correlatedId => grind
      · simp [hpubkey]

theorem Read.unique {event : S.Event} {content content' : S.Text} {eTag eTag' : Option String}
    {read read' : S.Event} (h : Read client event content eTag read)
    (h' : Read client event content' eTag' read') : content = content' ∧ eTag = eTag' := by
  cases h.layer.symm.trans h'.layer
  exact ⟨h.content.symm.trans h'.content, h.eTag.symm.trans h'.eTag⟩

/-! ## What a step keeps -/

theorem Transition.log_suffix {s s' : State S} {a : Action S} (h : Transition client s a s') :
    s.log <:+ s'.log := by
  cases h with
  | emulated => exact (List.suffix_cons ..).trans (List.suffix_cons ..)
  | registered => exact (List.suffix_cons ..).trans (List.suffix_cons ..)
  | refused | taken | unparsed => exact List.suffix_rfl
  | _ => exact List.suffix_cons ..

theorem log_suffix {s s' : State S} {as : List (Action S)}
    (hrun : run (step client) s as = some s') : s.log <:+ s'.log :=
  run_invariant (step client) (I := fun m ↦ s.log <:+ m.log)
    (fun _ _ _ hm hstep ↦ hm.trans (step_transition hstep).log_suffix) List.suffix_rfl hrun

/-- Only the loop itself moves on from a message. -/
theorem Transition.loop_stays {s s' : State S} {a : Action S} (h : Transition client s a s')
    {t : Taken S} (hloop : s.loop = some t) (ha : a ≠ .deliver) : s'.loop = some t := by
  cases h with
  | refused event why hl | taken event content eTag hl => cases hl.symm.trans hloop
  | forwarded | unparsed => exact absurd rfl ha
  | _ => exact hloop

/-- The loop is at a message that it was at before, or that has just passed the check. -/
theorem Transition.loop_from {s s' : State S} {a : Action S} (h : Transition client s a s')
    {t : Taken S} (hloop : s'.loop = some t) :
    s.loop = some t ∨ a = .receive t.event ∧
      client.take s.pendingRequests t.event = .ok (t.content, t.eTag) := by
  cases h with
  | taken event content eTag hl htake =>
      cases hloop
      exact .inr ⟨rfl, htake⟩
  | forwarded | unparsed => cases hloop
  | _ => exact .inl hloop

/-- The loop forwards the message it was at. -/
theorem Transition.log_forwarded {s s' : State S} {a : Action S} (h : Transition client s a s')
    {event : S.Event} {eTag : Option String} {message : JsonRpcMessage}
    (hmem : .forwarded event eTag message ∈ s'.log) :
    .forwarded event eTag message ∈ s.log ∨ ∃ content, s.loop = some ⟨event, content, eTag⟩ ∧
      nostrEventToMcpMessage S content = some message := by
  cases h with
  | forwarded t message' hl hm =>
      rcases List.mem_cons.1 hmem with heq | hmem
      · cases heq
        exact .inr ⟨t.content, hl, hm⟩
      · exact .inl hmem
  | refused | taken | unparsed => exact .inl hmem
  | _ =>
      left
      simpa [State.call, State.finish, State.publish, State.register, State.observe] using hmem

/-- An id becomes pending when it is registered. -/
theorem Transition.pending_from {s s' : State S} {a : Action S} (h : Transition client s a s')
    {e : String} (he : e ∈ s'.pendingRequests) :
    e ∈ s.pendingRequests ∨ ∃ i, .registered i e ∈ s'.log := by
  cases h with
  | registered i amb eventId ht =>
      rcases Finset.mem_insert.1 he with rfl | he
      · exact .inr ⟨i, by simp [State.finish, State.register]⟩
      · exact .inl he
  | forwarded t message hl hm =>
      left
      simp only [State.forward, cleanUp] at he
      split at he
      · exact Finset.mem_of_mem_erase he
      · exact he
  | _ => exact .inl he

/-- An id is no longer pending when a message correlated with it has been forwarded. -/
theorem Transition.pending_kept {s s' : State S} {a : Action S} (h : Transition client s a s')
    {e : String} (he : e ∈ s.pendingRequests) :
    e ∈ s'.pendingRequests ∨ ∃ event message, .forwarded event (some e) message ∈ s'.log := by
  cases h with
  | registered => exact .inl (Finset.mem_insert_of_mem he)
  | forwarded t message hl hm =>
      by_cases htag : t.eTag = some e
      · exact .inr ⟨t.event, message, by simp [State.forward, htag]⟩
      · left
        simp only [State.forward, cleanUp]
        split
        · next id hid =>
            have hne : e ≠ id := fun h ↦ htag (by rw [hid, h])
            exact Finset.mem_erase.2 ⟨hne, he⟩
        · exact he
  | _ => exact .inl he

theorem Transition.log_registered {s s' : State S} {a : Action S}
    (h : Transition client s a s') {i : Nat} {e : String} (hmem : .registered i e ∈ s'.log) :
    .registered i e ∈ s.log ∨ e ∈ s'.pendingRequests := by
  cases h with
  | registered j amb eventId ht =>
      simp only [State.finish, State.register, List.mem_cons, reduceCtorEq,
        Obs.registered.injEq, false_or] at hmem
      rcases hmem with ⟨-, rfl⟩ | hmem
      · exact .inr (Finset.mem_insert_self ..)
      · exact .inl hmem
  | refused | taken | unparsed => exact .inl hmem
  | _ =>
      left
      simpa [State.call, State.finish, State.publish, State.forward, State.observe] using hmem

/-! ## The pending set -/

/-- Only ids that were registered matter to the loop. -/
structure Registered (s : State S) : Prop where
  pending : ∀ e ∈ s.pendingRequests, ∃ i, .registered i e ∈ s.log
  loop : ∀ t e, s.loop = some t → t.eTag = some e → ∃ i, .registered i e ∈ s.log
  forwarded : ∀ event e message, .forwarded event (some e) message ∈ s.log →
    ∃ i, .registered i e ∈ s.log

theorem Reachable.registered {s : State S} (hs : Reachable client s) : Registered s := by
  refine hs.induct Registered ⟨by simp [State.init], nofun, nofun⟩ ?_
  rintro s a s' ⟨hpending, hloop, hforwarded⟩ htrans
  have hkept : ∀ {e}, (∃ i, .registered i e ∈ s.log) → ∃ i, .registered i e ∈ s'.log :=
    fun ⟨i, hi⟩ ↦ ⟨i, htrans.log_suffix.subset hi⟩
  refine ⟨fun e he ↦ ?_, fun t e hl htag ↦ ?_, fun event e message hmem ↦ ?_⟩
  · rcases htrans.pending_from he with he | hnew
    · exact hkept (hpending e he)
    · exact hnew
  · rcases htrans.loop_from hl with hl | ⟨-, htake⟩
    · exact hkept (hloop t e hl htag)
    · exact hkept (hpending e ((take_ok.1 htake).2 e htag))
  · rcases htrans.log_forwarded hmem with hmem | ⟨content, hl, -⟩
    · exact hkept (hforwarded event e message hmem)
    · exact hkept (hloop _ e hl rfl)

/-- A registered id is pending until a message that is correlated with it is forwarded. -/
theorem Reachable.pending_or_forwarded {s : State S} (hs : Reachable client s) {i : Nat}
    {e : String} (h : .registered i e ∈ s.log) :
    e ∈ s.pendingRequests ∨ ∃ event message, .forwarded event (some e) message ∈ s.log := by
  refine hs.induct (fun s ↦ .registered i e ∈ s.log → e ∈ s.pendingRequests ∨
    ∃ event message, .forwarded event (some e) message ∈ s.log) nofun ?_ h
  intro s a s' ih htrans hmem
  rcases htrans.log_registered hmem with hmem | hpending
  · rcases ih hmem with hpending | ⟨event, message, hforwarded⟩
    · exact htrans.pending_kept hpending
    · exact .inr ⟨event, message, htrans.log_suffix.subset hforwarded⟩
  · exact .inl hpending

/-! ## The loop -/

/-- The loop takes the event, and the next message that it forwards is this one. -/
def Forwards (client : NostrClientTransport S) (s : State S) (event : S.Event)
    (eTag : Option String) (message : JsonRpcMessage) : Prop :=
  ∃ s', step client s (.receive event) = some s' ∧ s'.loop ≠ none ∧
    ∀ as s'', run (step client) s' as = some s'' → .deliver ∈ as →
      ∃ newer, s''.log = newer ++ s'.log ∧ .forwarded event eTag message ∈ newer

/-- What the loop has taken it forwards, whatever else happens meanwhile. -/
theorem forwarded_of_taken {s s' : State S} {t : Taken S} {message : JsonRpcMessage}
    {as : List (Action S)} (hloop : s.loop = some t)
    (hm : nostrEventToMcpMessage S t.content = some message)
    (hrun : run (step client) s as = some s') (hdeliver : .deliver ∈ as) :
    ∃ newer, s'.log = newer ++ s.log ∧ .forwarded t.event t.eTag message ∈ newer := by
  induction as generalizing s with
  | nil => cases hdeliver
  | cons a as ih =>
      obtain ⟨m, hstep, hrest⟩ := (run_cons_eq_some _).1 hrun
      by_cases ha : a = .deliver
      · subst ha
        have hforward : m = s.forward t message := by
          simpa [step, hloop, hm, eq_comm] using hstep
        subst hforward
        obtain ⟨newer, hlog⟩ := log_suffix hrest
        refine ⟨newer ++ [.forwarded t.event t.eTag message], ?_, by simp⟩
        rw [← hlog, List.append_assoc]
        rfl
      · have htrans := step_transition hstep
        have hdeliver' : .deliver ∈ as := by
          simpa [Ne.symm ha] using hdeliver
        obtain ⟨newer, hlog, hmem⟩ := ih (htrans.loop_stays hloop ha) hrest hdeliver'
        obtain ⟨older, hold⟩ := htrans.log_suffix
        refine ⟨newer ++ older, by rw [hlog, ← hold, List.append_assoc], ?_⟩
        exact List.mem_append_left _ hmem

theorem forwards_of_take {s : State S} {event : S.Event} {content : S.Text}
    {eTag : Option String} {message : JsonRpcMessage} (hidle : s.loop = none)
    (htake : client.take s.pendingRequests event = .ok (content, eTag))
    (hm : nostrEventToMcpMessage S content = some message) :
    Forwards client s event eTag message := by
  refine ⟨{ s with loop := some ⟨event, content, eTag⟩ }, ?_, nofun, ?_⟩
  · simp [step, hidle, htake]
  · intro as s'' hrun hdeliver
    exact forwarded_of_taken rfl hm hrun hdeliver

theorem Forwards.take {s : State S} {event : S.Event} {eTag : Option String}
    {message : JsonRpcMessage} (h : Forwards client s event eTag message) :
    ∃ content eTag', client.take s.pendingRequests event = .ok (content, eTag') := by
  obtain ⟨s', hstep, hloop, -⟩ := h
  generalize ha : Action.receive event = a at hstep
  cases step_transition hstep with
  | refused event' why hl htake => exact absurd hl hloop
  | taken event' content eTag' hl htake =>
      cases ha
      exact ⟨content, eTag', htake⟩
  | _ => cases ha

end Client

end ContextVM
