import ContextVM.Lib.Loop
import ContextVM.Transport.Client.Authenticity
import ContextVM.Transport.Server.Mirror

/-!
# The event loops and the notification channel

Both loops are `while let Ok(notification) = notifications.recv().await`.  The channel has two
errors: `Closed` is final, and `Lagged` tells a receiver that it has missed some notifications,
after which it goes on with those that are retained.  The loops do not tell them apart, so the
first `Lagged` ends them.
-/

namespace ContextVM

open Lib

variable {S : Sdk}

/-- The errors of `recv`. -/
inductive RecvError where
  | lagged (missed : UInt64)
  | closed

inductive RelayPoolNotification (S : Sdk) where
  | event (event : S.Event)
  /-- A message of a relay, or the shutdown of the pool. -/
  | other

/-- What a receiver is told until the channel is closed.  A notification comes with the instant
at which the loop handles it. -/
inductive Recv (S : Sdk) where
  | notification (now : Nat) (notification : RelayPoolNotification S)
  | lagged (missed : UInt64)

namespace Recv

def result : Recv S → Except RecvError (Nat × RelayPoolNotification S)
  | .notification now n => .ok (now, n)
  | .lagged missed => .error (.lagged missed)

end Recv

def RelayPoolNotification.event? : RelayPoolNotification S → Option S.Event
  | .event e => some e
  | .other => none

/-- The body of a loop, from its body for an event. -/
def onNotification {σ : Type} (handle : σ → Nat → S.Event → σ) (s : σ)
    (r : Nat × RelayPoolNotification S) : σ :=
  match r.2 with
  | .event event => handle s r.1 event
  | .other => s

namespace Server

/-- The body of the loop for an event. -/
def handle (server : NostrServerTransport S) (s : State S) (now : Nat) (event : S.Event) :
    State S :=
  match server.accept event with
  | .ok r => { s with now }.track event r
  | .error _ => s

end Server

def NostrServerTransport.eventLoop (server : NostrServerTransport S) (s : Server.State S)
    (results : List (Except RecvError (Nat × RelayPoolNotification S))) : Server.State S :=
  whileOk (onNotification (Server.handle server)) s results

namespace Client

/-- The body of the loop for an event. -/
def handle (client : NostrClientTransport S) (s : State S) (event : S.Event) : State S :=
  match client.take s.pendingRequests event with
  | .ok (content, eTag) =>
    match nostrEventToMcpMessage S content with
    | some message => s.forward ⟨event, content, eTag⟩ message
    | none => s
  | .error _ => s

end Client

def NostrClientTransport.eventLoop (client : NostrClientTransport S) (s : Client.State S)
    (results : List (Except RecvError (Nat × RelayPoolNotification S))) : Client.State S :=
  whileOk (onNotification fun s _ event ↦ Client.handle client s event) s results

/-- The body of the server's loop is the step `receive`. -/
theorem Server.step_receive_handle (server : NostrServerTransport S) (s : State S)
    (event : S.Event) : step server s (.receive event) = some (handle server s s.now event) := by
  unfold handle
  cases h : server.accept event <;> simp [step, h]

/-- The body of the client's loop is the steps `receive` and `deliver`. -/
theorem Client.run_handle (client : NostrClientTransport S) {s : State S} (event : S.Event)
    (hidle : s.loop = none) :
    ∃ rest, run (step client) s (.receive event :: rest) = some (handle client s event) := by
  unfold handle
  cases ht : client.take s.pendingRequests event with
  | error why => exact ⟨[], by simp [step, hidle, ht]⟩
  | ok taken =>
      obtain ⟨content, eTag⟩ := taken
      refine ⟨[.deliver], ?_⟩
      cases hm : nostrEventToMcpMessage S content with
      | some message => simp [step, hidle, ht, hm, State.forward]
      | none =>
          obtain ⟨pending, calls, tasks, loop, log⟩ := s
          obtain rfl : loop = none := hidle
          simp [step, ht, hm]

/-! ## What a lag costs -/

section

variable {σ : Type} {handle : σ → Nat → S.Event → σ}

variable {same : σ → σ → Prop} {size : σ → Nat} {idle : σ → S.Event → Prop}

end

/-! ## The server -/

namespace Server

variable {server : NostrServerTransport S}

end Server

/-! ## The client -/

namespace Client

end Client

namespace Client

variable {client : NostrClientTransport S}

end Client

end ContextVM
