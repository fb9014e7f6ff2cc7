import ContextVM.Transport.Server.Authorization
import ContextVM.Transport.Server.Calls

/-!
# Mirror mode

In mode `Optional` a response is to travel as its request did.  The code decides by the flag
of the client's session, which every accepted message of the client sets: the response
travels as the last message that the client had got accepted when the call read the session.
-/

namespace ContextVM.Server

open Lib NostrServerTransport
open Symbolic (toolCall emptyResponse initialized)

variable {S : Sdk} {server : NostrServerTransport S}

/-- The last message of a client that was accepted. -/
def lastFrom (c : String) (rs : List IncomingRequest) : Option IncomingRequest :=
  rs.find? fun r ↦ r.clientPubkey = c

theorem lastFrom_cons (c : String) (r : IncomingRequest) (rs : List IncomingRequest) :
    lastFrom c (r :: rs) = if r.clientPubkey = c then some r else lastFrom c rs := by
  unfold lastFrom
  rw [List.find?_cons]
  by_cases h : r.clientPubkey = c <;> simp [h]

theorem lastFrom_eq_some {c : String} {r : IncomingRequest} {rs : List IncomingRequest}
    (h : lastFrom c rs = some r) : r ∈ rs ∧ r.clientPubkey = c := by
  have hc := List.find?_some h
  exact ⟨List.mem_of_find?_eq_some h, by simpa using hc⟩

/-- The flag of a session is that of the last accepted message of its client. -/
theorem Reachable.session_mirrors {s : State S} (hs : Reachable server s) :
    ∀ c session, s.sessions.lookup c = some session →
      ∃ r, lastFrom c (requests s.log) = some r ∧ r.isEncrypted = session.isEncrypted := by
  refine hs.induct_sessions (fun c session rs ↦
    ∃ r, lastFrom c rs = some r ∧ r.isEncrypted = session.isEncrypted) ?_ ?_ ?_
  · intro now r rs old? _
    exact ⟨r, by rw [lastFrom_cons, if_pos rfl], (ClientSession.track_isEncrypted ..).symm⟩
  · intro c session r rs hc ih
    rwa [lastFrom_cons, if_neg (Ne.symm hc)]
  · intro c session e rs ih
    rwa [ClientSession.forget_isEncrypted]

/-- The session that a call reads is, at that moment, marked as the last accepted message of
its client. -/
theorem Reachable.session_read_mirrors {s : State S} (hs : Reachable server s)
    {newer h h₀ : List (Obs S)} {i : Nat} {c : String} {session : ClientSession}
    (hlog : s.log = newer ++ h) (hread : rewind (Obs.foundSession? i) h = some ((c, session), h₀)) :
    ∃ r, lastFrom c (requests h₀) = some r ∧ r.isEncrypted = session.isEncrypted := by
  have hE := hs.each_foundSession (fun c session rs ↦
    ∃ r, lastFrom c rs = some r ∧ r.isEncrypted = session.isEncrypted)
    fun s hs ↦ hs.session_mirrors
  rw [hlog] at hE
  obtain ⟨o, ho, hF⟩ := hE.of_append.rewind hread
  cases o <;> simp only [Obs.foundSession?, Option.ite_none_right_eq_some, reduceCtorEq,
    Option.some.injEq, Prod.mk.injEq] at ho
  obtain ⟨rfl, rfl, rfl⟩ := ho
  exact hF _ _ _ rfl

/-- A response travels as its request did exactly if the last message that was accepted from
its recipient, before the call read the session, travelled as the request did. -/
theorem response_mirrors_request_iff (hS : S.Lawful)
    (hmode : server.config.encryptionMode = .optional) {s : State S} (hs : Reachable server s)
    {newer h : List (Obs S)} {i : Nat} {e : String} {p : Publication S}
    (hlog : s.log = newer ++ .responded i e p :: h) :
    ∃ h₀ last, sessionMoment i h = some h₀ ∧
      lastFrom (S.toHex p.recipient) (requests h₀) = some last ∧
      ∀ r ∈ requests h, r.message.isRequest = true → r.eventId = e →
        ((p.event.kind = giftWrapKind ↔ r.isEncrypted = true) ↔
          last.isEncrypted = r.isEncrypted) := by
  obtain ⟨response, c, session, amb, -, -, hsession, hpub⟩ := hs.explained hlog
  obtain ⟨⟨_, h₀⟩, hread, rfl⟩ := Option.map_eq_some_iff.1 hsession
  have hlog' : s.log = (newer ++ [.responded i e p]) ++ h := by simp [hlog]
  obtain ⟨last, hlast, henc⟩ := hs.session_read_mirrors hlog' hread
  obtain ⟨-, hkey, eid, signed, -, hsent⟩ := publishResponse_ok hpub
  -- the client is known to the server, so its key is the recipient
  obtain ⟨hmem, hc⟩ := lastFrom_eq_some hlast
  have hmem : last ∈ requests s.log := by
    refine mem_requests_of_suffix ?_ hmem
    rw [hlog']
    exact (rewind_suffix hread).trans (List.suffix_append _ _)
  have hrecipient : S.toHex p.recipient = c := by
    rw [← hc] at hkey ⊢
    exact hs.toHex_of_fromHex hS hmem hkey
  refine ⟨h₀, last, by rw [sessionMoment, hread]; rfl, hrecipient ▸ hlast, ?_⟩
  intro r _ _ _
  have hkind := hsent.kind_eq_giftWrap_iff hS (by decide)
  rw [shouldEncrypt_messages, hmode] at hkind
  rw [hkind, henc]
  cases session.isEncrypted <;> cases r.isEncrypted <;> decide

/-- A server that is open to all. -/
def openServer : NostrServerTransport Symbolic.sdk where
  keys := "server"
  config :=
    { encryptionMode := .optional
      allowedPublicKeys := []
      excludedCapabilities := []
      sessionTimeout := 300 }

/-- A gift-wrapped request, a plaintext notification, then the answer to the request. -/
def leakingRun : List (Action Symbolic.sdk) :=
  [.receive (Symbolic.wrap "K" "server" 1 (Symbolic.message "A" 0 [] toolCall)),
    .receive (Symbolic.message "A" 2 [] initialized),
    .call (.sendResponse "A/25910/0" emptyResponse),
    .resume 0 (Symbolic.ambient 3), .resume 0 (Symbolic.ambient 3),
    .resume 0 (Symbolic.ambient 3)]

def leakingState : State Symbolic.sdk := (run (step openServer) .init leakingRun).get rfl

theorem response_mirrors_request_iff_leakingState :
    ∃ (h : List (Obs Symbolic.sdk)) (p : Publication Symbolic.sdk),
      leakingState.log = .responded 0 "A/25910/0" p :: h ∧
        ∃ h₀ last, sessionMoment 0 h = some h₀ ∧
          lastFrom p.recipient (requests h₀) = some last ∧
          ∀ r ∈ requests h, r.message.isRequest = true → r.eventId = "A/25910/0" →
            ((p.event.kind = giftWrapKind ↔ r.isEncrypted = true) ↔
              last.isEncrypted = r.isEncrypted) := by
  have hreach : Reachable openServer leakingState := ⟨leakingRun, rfl⟩
  refine ⟨_, _, rfl, ?_⟩
  exact response_mirrors_request_iff Symbolic.lawful rfl hreach (List.nil_append _).symm

/-- The answer to a gift-wrapped request is published in plaintext. -/
theorem response_not_mirrored :
    ¬ ∀ (S : Sdk) (_ : S.Lawful) (server : NostrServerTransport S) (s : State S)
      (newer h : List (Obs S)) (i : Nat) (e : String) (p : Publication S),
      server.config.encryptionMode = .optional → Reachable server s →
      s.log = newer ++ .responded i e p :: h →
        ∀ r ∈ requests h, r.message.isRequest = true → r.eventId = e →
          (p.event.kind = giftWrapKind ↔ r.isEncrypted = true) := by
  intro hall
  have hreach : Reachable openServer leakingState := ⟨leakingRun, rfl⟩
  have hiff := hall Symbolic.sdk Symbolic.lawful openServer _ [] _ 0 "A/25910/0" _ rfl hreach
    rfl ⟨toolCall, "A", "A/25910/0", true⟩ (.tail _ (.head _)) rfl rfl
  exact absurd (hiff.2 rfl) (by decide)

end ContextVM.Server
