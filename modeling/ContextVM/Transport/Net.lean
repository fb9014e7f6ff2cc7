import ContextVM.Transport.Client.Calls
import ContextVM.Transport.Client.Correlation
import ContextVM.Transport.Server.Routing

/-!
# Client and server together

A client and a server, and the relays between them.  What either party publishes is on the
wire from then on, and so is what other parties publish.  The relays hand any event of the
wire to either party, in any order, any number of times or never.
-/

namespace ContextVM

open Lib

variable {S : Sdk}

/-- A client, and the server that it is configured for. -/
structure Net (S : Sdk) where
  client : NostrClientTransport S
  server : NostrServerTransport S
  serverPubkey : client.serverPubkey = S.publicKey server.keys

/-- The event that a step of the client published. -/
def Client.Obs.event? : Client.Obs S → Option S.Event
  | .published _ _ event => some event
  | _ => none

/-- Whether a step of the client handed a message to the consumer. -/
def Client.Obs.isForwarded : Client.Obs S → Bool
  | .forwarded .. => true
  | _ => false

/-- The event that a step of the server published. -/
def Server.Obs.event? : Server.Obs S → Option S.Event
  | .responded _ _ p => some p.event
  | .notified _ p => some p.event
  | _ => none

def Client.Action.isReceive : Client.Action S → Bool
  | .receive _ => true
  | _ => false

def Server.Action.isReceive : Server.Action S → Bool
  | .receive _ => true
  | _ => false

namespace Net

structure State (S : Sdk) where
  client : Client.State S
  server : Server.State S
  /-- The events of other parties. -/
  others : List S.Event

namespace State

def init : State S := ⟨.init, .init, []⟩

/-- The events that have been published. -/
def wire (s : State S) : List S.Event :=
  s.others ++ s.client.log.filterMap Client.Obs.event? ++
    s.server.log.filterMap Server.Obs.event?

end State

inductive Action (S : Sdk) where
  | client (a : Client.Action S)
  | server (a : Server.Action S)
  /-- Another party publishes an event.  The relays verify it. -/
  | publish (event : S.Event)
  /-- The relays hand an event of the wire to the loop of the client. -/
  | toClient (k : Nat)
  | toServer (k : Nat)

def step (net : Net S) (s : State S) : Action S → Option (State S)
  | .client a =>
    if a.isReceive then none
    else (Client.step net.client s.client a).map fun c ↦ { s with client := c }
  | .server a =>
    if a.isReceive then none
    else (Server.step net.server s.server a).map fun c ↦ { s with server := c }
  | .publish event =>
    if S.verify event then some { s with others := event :: s.others } else none
  | .toClient k =>
    s.wire[k]?.bind fun event ↦
      (Client.step net.client s.client (.receive event)).map fun c ↦ { s with client := c }
  | .toServer k =>
    s.wire[k]?.bind fun event ↦
      (Server.step net.server s.server (.receive event)).map fun c ↦ { s with server := c }

variable {net : Net S}

/-! ## What a step does -/

/-- One of the parties takes a step.  What it receives is on the wire. -/
inductive Transition (net : Net S) (s : State S) : State S → Prop
  | client (a : Client.Action S) (c : Client.State S)
      (hstep : Client.step net.client s.client a = some c)
      (hwire : ∀ event, a = .receive event → event ∈ s.wire) :
      Transition net s { s with client := c }
  | server (a : Server.Action S) (c : Server.State S)
      (hstep : Server.step net.server s.server a = some c)
      (hwire : ∀ event, a = .receive event → event ∈ s.wire) :
      Transition net s { s with server := c }
  | published (event : S.Event) (h : S.verify event = true) :
      Transition net s { s with others := event :: s.others }

theorem step_transition {s s' : State S} {a : Action S} (h : step net s a = some s') :
    Transition net s s' := by
  cases a with
  | client a =>
      simp only [step, Option.ite_none_left_eq_some, Option.map_eq_some_iff] at h
      obtain ⟨ha, c, hstep, rfl⟩ := h
      refine .client a c hstep ?_
      rintro event rfl
      exact absurd rfl ha
  | server a =>
      simp only [step, Option.ite_none_left_eq_some, Option.map_eq_some_iff] at h
      obtain ⟨ha, c, hstep, rfl⟩ := h
      refine .server a c hstep ?_
      rintro event rfl
      exact absurd rfl ha
  | publish event =>
      simp only [step, Option.ite_none_right_eq_some, Option.some.injEq] at h
      obtain ⟨hverify, rfl⟩ := h
      exact .published event hverify
  | toClient k =>
      simp only [step, Option.bind_eq_some_iff, Option.map_eq_some_iff] at h
      obtain ⟨event, hk, c, hstep, rfl⟩ := h
      refine .client _ c hstep ?_
      rintro event' ⟨⟩
      exact List.mem_of_getElem? hk
  | toServer k =>
      simp only [step, Option.bind_eq_some_iff, Option.map_eq_some_iff] at h
      obtain ⟨event, hk, c, hstep, rfl⟩ := h
      refine .server _ c hstep ?_
      rintro event' ⟨⟩
      exact List.mem_of_getElem? hk

theorem Transition.wire_subset {s s' : State S} (h : Transition net s s') :
    s.wire ⊆ s'.wire := by
  intro event hevent
  simp only [State.wire, List.mem_append] at hevent ⊢
  cases h with
  | client a c hstep hwire =>
      have hsub := ((Client.step_transition hstep).log_suffix.sublist.filterMap
        Client.Obs.event?).subset
      exact hevent.imp_left (Or.imp_right fun hmem ↦ hsub hmem)
  | server a c hstep hwire =>
      have hsub := ((Server.step_transition hstep).log_suffix.sublist.filterMap
        Server.Obs.event?).subset
      exact hevent.imp_right fun hmem ↦ hsub hmem
  | published event' h =>
      exact hevent.imp_left (Or.imp_left fun hmem ↦ List.mem_cons_of_mem _ hmem)

/-! ## Reachable states -/

def Reachable (net : Net S) (s : State S) : Prop := Reaches (step net) .init s

/-- What holds at the start and is kept by every step holds in every reachable state. -/
theorem Reachable.induct (I : State S → Prop) (hinit : I .init)
    (hstep : ∀ s s', I s → Transition net s s' → I s') {s : State S}
    (h : Reachable net s) : I s :=
  Reaches.induct _ h I hinit fun m _ m' _ hI hm' ↦ hstep m m' hI (step_transition hm')

theorem Reachable.client {s : State S} (h : Reachable net s) :
    Client.Reachable net.client s.client := by
  apply h.induct (fun s ↦ Client.Reachable net.client s.client) .init
  intro s s' hs htrans
  cases htrans with
  | client a c hstep => exact hs.step hstep
  | server | published => exact hs

theorem Reachable.server {s : State S} (h : Reachable net s) :
    Server.Reachable net.server s.server := by
  apply h.induct (fun s ↦ Server.Reachable net.server s.server) .init
  intro s s' hs htrans
  cases htrans with
  | server a c hstep => exact hs.step hstep
  | client | published => exact hs

/-- What the server has forwarded it has made of an event on the wire. -/
theorem Reachable.forwarded_on_wire {s : State S} (h : Reachable net s) {event : S.Event}
    {r : IncomingRequest} (hmem : .forwarded event r ∈ s.server.log) :
    event ∈ s.wire ∧ net.server.accept event = .ok r := by
  refine h.induct (fun s ↦ .forwarded event r ∈ s.server.log →
    event ∈ s.wire ∧ net.server.accept event = .ok r) nofun ?_ hmem
  intro s s' ih htrans hmem
  have hsub := htrans.wire_subset
  cases htrans with
  | client | published => exact ⟨hsub (ih hmem).1, (ih hmem).2⟩
  | server a c hstep hwire =>
      rcases (Server.step_transition hstep).log_forwarded hmem with hold | ⟨ha, hacc⟩
      · exact ⟨hsub (ih hold).1, (ih hold).2⟩
      · exact ⟨hsub (hwire event ha), hacc⟩

end Net

end ContextVM
