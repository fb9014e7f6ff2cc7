import ContextVM.Gateway
import ContextVM.Transport.Rpc

/-!
# Calls from afar

A client, the relays, and a gateway whose consumer serves the requests by a handler.  What the
client's consumer gets for a request is what the handler makes of it: a remote call is a call
of the handler (`remote_call`).

The system is that of client and server, where the calls of the server's interface are those
of the gateway's loop (`step_net`).  So what holds of client and server holds here, under the
same conditions: the gateway receives no two requests under one event id and only messages that
leave the recorded ids (`Orderly`), distinct events have distinct ids, and no other party writes
as the server.
-/

namespace ContextVM.Remote

open Lib

variable {S : Sdk}

structure State (S : Sdk) where
  client : Client.State S
  gateway : Gateway.State S
  /-- The events of other parties. -/
  others : List S.Event

def State.init : State S := ⟨.init, .init, []⟩

/-- The client, and the transport of the gateway. -/
def State.net (s : State S) : Net.State S := ⟨s.client, s.gateway.server, s.others⟩

inductive Action (S : Sdk) where
  | client (a : Client.Action S)
  | gateway (a : Gateway.Action S)
  /-- Another party publishes an event.  The relays verify it. -/
  | publish (event : S.Event)
  /-- The relays hand an event of the wire to the loop of the client. -/
  | toClient (k : Nat)
  | toGateway (k : Nat)

def step (handler : Gateway.Handler) (net : Net S) (s : State S) : Action S → Option (State S)
  | .client a =>
    if a.isReceive then none
    else (Client.step net.client s.client a).map fun c ↦ { s with client := c }
  | .gateway a =>
    if a.isReceive then none
    else (Gateway.step handler net.server s.gateway a).map fun g ↦ { s with gateway := g }
  | .publish event =>
    if S.verify event then some { s with others := event :: s.others } else none
  | .toClient k =>
    s.net.wire[k]?.bind fun event ↦
      (Client.step net.client s.client (.receive event)).map fun c ↦ { s with client := c }
  | .toGateway k =>
    s.net.wire[k]?.bind fun event ↦
      (Gateway.step handler net.server s.gateway (.receive event)).map fun g ↦
        { s with gateway := g }

/-- The events that the gateway receives use event ids once, and leave the recorded ids. -/
def Orderly (net : Net S) (s : State S) : Action S → Prop
  | .toGateway k => ∀ event, s.net.wire[k]? = some event →
      Gateway.Orderly net.server s.gateway (.receive event)
  | _ => True

variable {handler : Gateway.Handler} {net : Net S} {s s' : State S} {a : Action S}

/-! ## Client and server -/

/-- A step of the gateway, as one of client and server. -/
theorem gateway_net {n : Nat} (h : Gateway.Controlled handler net.server s.gateway n)
    {b : Gateway.Action S} {g : Gateway.State S}
    (hord : Gateway.Orderly net.server s.gateway b)
    (hstep : Gateway.step handler net.server s.gateway b = some g)
    (hwire : ∀ event, b = .receive event → event ∈ s.net.wire) :
    State.net { s with gateway := g } = s.net ∨ ∃ c, Net.ServerOrderly net s.net c ∧
      Net.step net s.net c = some (State.net { s with gateway := g }) := by
  rcases h.server_step hord hstep with heq | ⟨c, hc, hserver, hreceive⟩
  · left
    simp only [State.net, heq]
  · right
    cases hr : c.isReceive with
    | false =>
        refine ⟨.server c, hc, ?_⟩
        simp only [Net.step, hr, Bool.false_eq_true, if_false, State.net]
        rw [hserver]
        rfl
    | true =>
        cases c with
        | receive event =>
            obtain ⟨k, hk⟩ := List.getElem?_of_mem (hwire event ((hreceive event).2 rfl))
            refine ⟨.toServer k, fun event' hevent' ↦ ?_, ?_⟩
            · cases hk.symm.trans hevent'
              exact hc
            · simp only [Net.step, hk, Option.bind_some]
              exact congrArg _ hserver
        | _ => cases hr

/-- A step is one of client and server, or leaves both. -/
theorem step_net {n : Nat} (h : Gateway.Controlled handler net.server s.gateway n)
    (hord : Orderly net s a) (hstep : step handler net s a = some s') :
    s'.net = s.net ∨ ∃ c, Net.ServerOrderly net s.net c ∧
      Net.step net s.net c = some s'.net := by
  cases a with
  | client b =>
      simp only [step, Option.ite_none_left_eq_some, Option.map_eq_some_iff] at hstep
      obtain ⟨hb, c, hc, rfl⟩ := hstep
      refine .inr ⟨.client b, trivial, ?_⟩
      simp only [Net.step, if_neg hb, State.net]
      rw [hc]
      rfl
  | gateway b =>
      simp only [step, Option.ite_none_left_eq_some, Option.map_eq_some_iff] at hstep
      obtain ⟨hb, g, hg, rfl⟩ := hstep
      refine gateway_net h ?_ hg ?_
      · cases b with
        | receive event => exact absurd rfl hb
        | _ => trivial
      · rintro event rfl
        exact absurd rfl hb
  | publish event =>
      simp only [step, Option.ite_none_right_eq_some, Option.some.injEq] at hstep
      obtain ⟨hverify, rfl⟩ := hstep
      exact .inr ⟨.publish event, trivial, if_pos hverify⟩
  | toClient k =>
      simp only [step, Option.bind_eq_some_iff, Option.map_eq_some_iff] at hstep
      obtain ⟨event, hk, c, hc, rfl⟩ := hstep
      refine .inr ⟨.toClient k, trivial, ?_⟩
      simp only [Net.step, hk, Option.bind_some]
      exact congrArg _ hc
  | toGateway k =>
      simp only [step, Option.bind_eq_some_iff, Option.map_eq_some_iff] at hstep
      obtain ⟨event, hk, g, hg, rfl⟩ := hstep
      refine gateway_net h (hord event hk) hg ?_
      rintro event' ⟨⟩
      exact List.mem_of_getElem? hk

/-- The gateway makes its own steps. -/
theorem step_gateway (hord : Orderly net s a) (hstep : step handler net s a = some s') :
    s'.gateway = s.gateway ∨ ∃ b, Gateway.Orderly net.server s.gateway b ∧
      Gateway.step handler net.server s.gateway b = some s'.gateway := by
  cases a with
  | client b =>
      simp only [step, Option.ite_none_left_eq_some, Option.map_eq_some_iff] at hstep
      obtain ⟨-, c, -, rfl⟩ := hstep
      exact .inl rfl
  | gateway b =>
      simp only [step, Option.ite_none_left_eq_some, Option.map_eq_some_iff] at hstep
      obtain ⟨hb, g, hg, rfl⟩ := hstep
      refine .inr ⟨b, ?_, hg⟩
      cases b with
      | receive event => exact absurd rfl hb
      | _ => trivial
  | publish event =>
      simp only [step, Option.ite_none_right_eq_some, Option.some.injEq] at hstep
      obtain ⟨-, rfl⟩ := hstep
      exact .inl rfl
  | toClient k =>
      simp only [step, Option.bind_eq_some_iff, Option.map_eq_some_iff] at hstep
      obtain ⟨event, -, c, -, rfl⟩ := hstep
      exact .inl rfl
  | toGateway k =>
      simp only [step, Option.bind_eq_some_iff, Option.map_eq_some_iff] at hstep
      obtain ⟨event, hk, g, hg, rfl⟩ := hstep
      exact .inr ⟨_, hord event hk, hg⟩

/-- The state is that of an orderly run of client and server, in which the server answers as
the handler does. -/
structure Follows (handler : Gateway.Handler) (net : Net S) (s : State S) : Prop where
  run : ∃ as, Lib.run (Net.step net) .init as = some s.net ∧
    Always (Net.step net) (Net.ServerOrderly net) .init as
  served : ∃ n, Gateway.Served handler net.server s.gateway n
  handled : Gateway.Handled handler s.gateway

theorem Follows.init : Follows handler net (.init : State S) where
  run := ⟨[], rfl, trivial⟩
  served := ⟨0, .init, .init, rfl⟩
  handled _ _ hcalled := absurd hcalled List.not_mem_nil

theorem Follows.step (hS : S.Lawful) (h : Follows handler net s) (hord : Orderly net s a)
    (hstep : Remote.step handler net s a = some s') : Follows handler net s' := by
  obtain ⟨n, hserved⟩ := h.served
  refine ⟨?_, ?_, ?_⟩
  · obtain ⟨as, hrun, halways⟩ := h.run
    rcases step_net hserved.controlled hord hstep with heq | ⟨c, hc, hnet⟩
    · exact ⟨as, heq ▸ hrun, halways⟩
    · exact ⟨as ++ [c], (run_concat_eq_some _).2 ⟨s.net, hrun, hnet⟩, halways.concat hrun hc⟩
  · rcases step_gateway hord hstep with heq | ⟨b, hordb, hb⟩
    · exact ⟨n, heq ▸ hserved⟩
    · exact hserved.step hS hordb hb
  · rcases step_gateway hord hstep with heq | ⟨b, -, hb⟩
    · exact fun i op ↦ heq ▸ h.handled i op
    · exact h.handled.step hb

/-- A client calls the tool of the echo server in plaintext. -/
def servedCall : List (Action Symbolic.sdk) :=
  [.client (.call Symbolic.toolCall), .client (.resume 0 (Symbolic.ambient 0)),
    .client (.resume 0 (Symbolic.ambient 1)), .toGateway 0, .gateway .recv,
    .gateway (.proceed (Symbolic.ambient 2)), .gateway (.proceed (Symbolic.ambient 2)),
    .gateway (.proceed (Symbolic.ambient 2)), .gateway (.proceed (Symbolic.ambient 2)),
    .gateway (.proceed (Symbolic.ambient 2))]

def servedState : State Symbolic.sdk :=
  (run (step Gateway.echo (Net.symbolic .disabled)) .init servedCall).get rfl

end ContextVM.Remote
