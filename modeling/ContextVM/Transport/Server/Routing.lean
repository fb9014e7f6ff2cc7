import ContextVM.Transport.Server.Mirror

/-!
# Where responses go

One map, shared by all clients, holds the client that the response to an event goes to.
Every accepted request writes it under its event id, whoever wrote it before, so a route is
that of the last request accepted under the id.  The id of a gift-wrapped request is what the
event inside claims; a client can claim the id of another's request, and gets its answer.
-/

namespace ContextVM.Server

open Lib NostrServerTransport
open Symbolic (toolCall emptyResponse)

variable {S : Sdk} {server : NostrServerTransport S}

/-- The last request that was accepted under an event id. -/
def lastRequest (e : String) (rs : List IncomingRequest) : Option IncomingRequest :=
  rs.find? fun r ↦ r.message.isRequest && decide (r.eventId = e)

theorem lastRequest_cons (e : String) (r : IncomingRequest) (rs : List IncomingRequest) :
    lastRequest e (r :: rs) =
      if r.message.isRequest ∧ r.eventId = e then some r else lastRequest e rs := by
  unfold lastRequest
  rw [List.find?_cons]
  cases r.message.isRequest <;> by_cases h : r.eventId = e <;> simp [h]

theorem lastRequest_eq_some {e : String} {r : IncomingRequest} {rs : List IncomingRequest}
    (h : lastRequest e rs = some r) :
    r ∈ rs ∧ r.message.isRequest = true ∧ r.eventId = e := by
  have hr := List.find?_some h
  rw [Bool.and_eq_true, decide_eq_true_eq] at hr
  exact ⟨List.mem_of_find?_eq_some h, hr⟩

/-- A route leads to the client of the last request that was accepted under the id. -/
theorem Reachable.route_latest {s : State S} (hs : Reachable server s) :
    ∀ e c, s.eventToClient.lookup e = some c →
      ∃ r, lastRequest e (requests s.log) = some r ∧ r.clientPubkey = c := by
  refine hs.induct_maps (fun _ routes rs ↦ ∀ e c, routes.lookup e = some c →
    ∃ r, lastRequest e rs = some r ∧ r.clientPubkey = c) ?_ ?_
  · intro e c h
    cases h
  · intro s _ routes rs _ ih hmap e c hl
    cases hmap with
    | unchanged | cleanedSession | clearedSessions => exact ih e c hl
    | tracked event r hacc =>
        rw [lastRequest_cons]
        rw [lookup_trackRoutes] at hl
        by_cases hr : r.message.isRequest ∧ e = r.eventId
        · rw [if_pos hr, Option.some.injEq] at hl
          exact ⟨r, if_pos ⟨hr.1, hr.2.symm⟩, hl⟩
        · rw [if_neg hr] at hl
          rw [if_neg fun h ↦ hr ⟨h.1, h.2.symm⟩]
          exact ih e c hl
    | cleanedRoute e' =>
        exact ih e c (Table.lookup_erase_eq_some.1 hl).2
    | expired => exact ih e c (Table.lookup_eraseAll_eq_some.1 hl).2
    | clearedRoutes => cases hl

/-- The route that a call reads is, at that moment, that of the last request. -/
theorem Reachable.route_read_latest {s : State S} (hs : Reachable server s)
    {newer h h₀ : List (Obs S)} {i : Nat} {e c : String} (hlog : s.log = newer ++ h)
    (hread : rewind (Obs.foundClient? i) h = some ((e, c), h₀)) :
    ∃ r, lastRequest e (requests h₀) = some r ∧ r.clientPubkey = c := by
  have hE := hs.each_foundClient (fun e c rs ↦
    ∃ r, lastRequest e rs = some r ∧ r.clientPubkey = c) fun s hs ↦ hs.route_latest
  rw [hlog] at hE
  obtain ⟨o, ho, hF⟩ := hE.of_append.rewind hread
  cases o <;> simp only [Obs.foundClient?, Option.ite_none_right_eq_some, reduceCtorEq,
    Option.some.injEq, Prod.mk.injEq] at ho
  obtain ⟨rfl, rfl, rfl⟩ := ho
  exact hF _ _ _ rfl

/-- The recipient of a response is the client of the last request that was accepted under
its event id before the call read the route. -/
theorem Reachable.recipient_latest (hS : S.Lawful) {s : State S} (hs : Reachable server s)
    {newer h : List (Obs S)} {i : Nat} {e : String} {p : Publication S}
    (hlog : s.log = newer ++ .responded i e p :: h) :
    ∃ h₀ last, routeMoment i h = some h₀ ∧ lastRequest e (requests h₀) = some last ∧
      S.toHex p.recipient = last.clientPubkey := by
  obtain ⟨response, c, session, amb, -, hclient, -, hpub⟩ := hs.explained hlog
  obtain ⟨⟨_, h₀⟩, hread, rfl⟩ := Option.map_eq_some_iff.1 hclient
  have hlog' : s.log = (newer ++ [.responded i e p]) ++ h := by simp [hlog]
  obtain ⟨last, hlast, hc⟩ := hs.route_read_latest hlog' hread
  have hmem : last ∈ requests s.log := by
    refine mem_requests_of_suffix ?_ (lastRequest_eq_some hlast).1
    rw [hlog']
    exact (rewind_suffix hread).trans (List.suffix_append _ _)
  obtain ⟨-, hkey, -⟩ := publishResponse_ok hpub
  rw [← hc] at hkey
  exact ⟨h₀, last, by rw [routeMoment, hread]; rfl, hlast, hs.toHex_of_fromHex hS hmem hkey⟩

/-- A route leads to the client of a request exactly if the last request that was accepted
under the id is by that client; and a response goes to the client of a request exactly if
that was so when its call read the route. -/
theorem response_routed_iff (hS : S.Lawful) {s : State S} (hs : Reachable server s) :
    (∀ e c, s.eventToClient.lookup e = some c →
      ∃ last, lastRequest e (requests s.log) = some last ∧
        ∀ r ∈ requests s.log, r.message.isRequest = true → r.eventId = e →
          (c = r.clientPubkey ↔ last.clientPubkey = r.clientPubkey)) ∧
    ∀ newer h i e p, s.log = newer ++ .responded i e p :: h →
      ∃ h₀ last, routeMoment i h = some h₀ ∧ lastRequest e (requests h₀) = some last ∧
        ∀ r ∈ requests h, r.message.isRequest = true → r.eventId = e →
          (S.toHex p.recipient = r.clientPubkey ↔ last.clientPubkey = r.clientPubkey) := by
  constructor
  · intro e c hl
    obtain ⟨last, hlast, rfl⟩ := hs.route_latest e c hl
    exact ⟨last, hlast, fun r _ _ _ ↦ Iff.rfl⟩
  · intro newer h i e p hlog
    obtain ⟨h₀, last, hmoment, hlast, hrecipient⟩ := hs.recipient_latest hS hlog
    exact ⟨h₀, last, hmoment, hlast, fun r _ _ _ ↦ by rw [hrecipient]⟩

/-- A request of the client `A`, a gift wrap in which the client `B` claims its event id,
then the answer. -/
def stolenRun : List (Action Symbolic.sdk) :=
  [.receive (Symbolic.message "A" 0 [] toolCall),
    .receive (Symbolic.wrap "K" "server" 1 (Symbolic.forged "B" "B" "A/25910/0" toolCall)),
    .call (.sendResponse "A/25910/0" emptyResponse),
    .resume 0 (Symbolic.ambient 3), .resume 0 (Symbolic.ambient 3),
    .resume 0 (Symbolic.ambient 3)]

def stolenState : State Symbolic.sdk := (run (step openServer) .init stolenRun).get rfl

theorem response_routed_iff_stolenState :
    ∃ (h : List (Obs Symbolic.sdk)) (p : Publication Symbolic.sdk),
      stolenState.log = .responded 0 "A/25910/0" p :: h ∧
        ∃ h₀ last, routeMoment 0 h = some h₀ ∧
          lastRequest "A/25910/0" (requests h₀) = some last ∧
          ∀ r ∈ requests h, r.message.isRequest = true → r.eventId = "A/25910/0" →
            (p.recipient = r.clientPubkey ↔ last.clientPubkey = r.clientPubkey) := by
  have hreach : Reachable openServer stolenState := ⟨stolenRun, rfl⟩
  refine ⟨_, _, rfl, ?_⟩
  exact (response_routed_iff Symbolic.lawful hreach).2 [] _ 0 "A/25910/0" _ rfl

/-- The first answer to a request of one client is published to another. -/
theorem response_misrouted :
    ¬ ∀ (S : Sdk) (_ : S.Lawful) (server : NostrServerTransport S) (s : State S)
      (newer h : List (Obs S)) (i : Nat) (e : String) (p : Publication S),
      Reachable server s → s.log = newer ++ .responded i e p :: h →
        (∀ o ∈ h, ∀ i' p', o ≠ .responded i' e p') →
        ∀ r ∈ requests h, r.message.isRequest = true → r.eventId = e →
          S.toHex p.recipient = r.clientPubkey := by
  intro hall
  have hreach : Reachable openServer stolenState := ⟨stolenRun, rfl⟩
  have hfirst : ∀ o ∈ stolenState.log.tail, ∀ i p, o ≠ .responded i "A/25910/0" p := by
    rintro o ho i p rfl
    have hno : stolenState.log.tail.any (fun o ↦ match o with
      | .responded .. => true
      | _ => false) = false := rfl
    rw [List.any_eq_false] at hno
    exact hno _ ho rfl
  have heq := hall Symbolic.sdk Symbolic.lawful openServer stolenState [] _ 0 "A/25910/0" _
    hreach rfl hfirst ⟨toolCall, "A", "A/25910/0", false⟩ (.tail _ (.head _)) rfl rfl
  exact absurd heq (by decide)

end ContextVM.Server
