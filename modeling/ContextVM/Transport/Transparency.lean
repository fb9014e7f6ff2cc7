import ContextVM.Transport.Client.Authenticity
import ContextVM.Transport.Server.Mirror

/-!
# Plain and wrapped events

Both event loops read a gift wrap by decrypting it and going by the event inside, and any
other event by going by the event itself.  So they read the same of an event and of its gift
wrap.

* On the server the two differ in the `is_encrypted` flags and in nothing else, as long as
  the mode admits both: `SameButFlags` holds of the states after the one and the other.
* On the client they do not differ at all.  The event is only named in the log: `Alike`
  holds of the states after the one and the other, and of every later pair of states.
-/

namespace ContextVM

open Lib
open Symbolic (toolCall initialized)

variable {S : Sdk}

/-- The event is wrapped for the holder of the keys. -/
def IsGiftWrapOf (keys : S.Keys) (event wrap : S.Event) : Prop :=
  ∃ amb : Ambient S,
    giftWrapSingleLayer amb (S.publicKey keys) (S.eventToJson event) = .ok wrap

theorem IsGiftWrapOf.kind (hS : S.Lawful) {keys : S.Keys} {event wrap : S.Event}
    (h : IsGiftWrapOf keys event wrap) : wrap.kind = giftWrapKind := by
  obtain ⟨amb, hamb⟩ := h
  exact hS.giftWrap_kind hamb

theorem IsGiftWrapOf.inner (hS : S.Lawful) {keys : S.Keys} {event wrap : S.Event}
    (h : IsGiftWrapOf keys event wrap) : innerEvent keys wrap = .ok event := by
  obtain ⟨amb, hamb⟩ := h
  exact hS.innerEvent_giftWrap hamb

/-! ## The server -/

namespace ClientSession

/-- The session with its flag lowered. -/
def unmarked (session : ClientSession) : ClientSession := { session with isEncrypted := false }

/-- The flag of a session, and that of a request, go into the flag of the session only. -/
theorem unmarked_track (session : ClientSession) (now : Nat) (r : IncomingRequest) (b : Bool) :
    (session.track now { r with isEncrypted := b }).unmarked =
      session.unmarked.track now { r with isEncrypted := false } := by
  unfold track
  cases r.message with
  | request req =>
      simp only [trackRequest]
      cases req.progressToken <;> rfl
  | notification n =>
      simp only []
      split <;> rfl
  | _ => rfl

end ClientSession

/-- The request with its flag lowered. -/
def IncomingRequest.unmarked (r : IncomingRequest) : IncomingRequest :=
  { r with isEncrypted := false }

namespace Server

open NostrServerTransport

variable {server : NostrServerTransport S}

/-- The states differ in the flags of sessions and requests, and in the events of the log. -/
structure SameButFlags (s s' : State S) : Prop where
  sessions : ∀ c, (s.sessions.lookup c).map ClientSession.unmarked =
    (s'.sessions.lookup c).map ClientSession.unmarked
  eventToClient : s.eventToClient = s'.eventToClient
  requests : (requests s.log).map IncomingRequest.unmarked =
    (requests s'.log).map IncomingRequest.unmarked
  now : s.now = s'.now
  calls : s.calls = s'.calls
  tasks : s.tasks = s'.tasks

theorem SameButFlags.refl (s : State S) : SameButFlags s s :=
  ⟨fun _ ↦ rfl, rfl, rfl, rfl, rfl, rfl⟩

/-- Tracking a request leaves its flag in its own session, and in the log. -/
theorem SameButFlags.track (s : State S) (event event' : S.Event) (r : IncomingRequest)
    (b : Bool) :
    SameButFlags (s.track event { r with isEncrypted := b }) (s.track event' r) where
  sessions c := by
    rw [State.lookup_sessions_track, State.lookup_sessions_track]
    by_cases hc : c = r.clientPubkey
    · rw [if_pos hc, if_pos hc, Option.map_some, Option.map_some, Option.some.injEq]
      have hmarks : ∀ session : ClientSession, (session.track s.now r).unmarked =
          session.unmarked.track s.now { r with isEncrypted := false } :=
        fun session ↦ session.unmarked_track s.now r r.isEncrypted
      rw [ClientSession.unmarked_track, hmarks]
      cases s.sessions.lookup r.clientPubkey <;> rfl
    · rw [if_neg hc, if_neg hc]
  eventToClient := by
    show trackRoutes { r with isEncrypted := b } s.eventToClient = trackRoutes r s.eventToClient
    unfold trackRoutes
    cases r.message <;> rfl
  requests := rfl
  now := rfl
  calls := rfl
  tasks := rfl

theorem accept_giftWrap (hS : S.Lawful) (hmode : server.config.encryptionMode = .optional)
    {event wrap : S.Event} (hkind : event.kind ≠ giftWrapKind)
    (hwrap : IsGiftWrapOf server.keys event wrap) :
    server.accept wrap =
      (server.accept event).map fun r ↦ { r with isEncrypted := true } := by
  have hplain : server.layer event = .ok (event, false) :=
    layer_plain.2 ⟨hkind, by simp [hmode], rfl⟩
  have hwrapped : server.layer wrap = .ok (event, true) :=
    layer_encrypted.2 ⟨hwrap.kind hS, by simp [hmode], hwrap.inner hS⟩
  unfold accept
  simp only [hplain, hwrapped, bind, Except.bind]
  cases nostrEventToMcpMessage S event.content with
  | none => rfl
  | some message =>
      simp only []
      split <;> rfl

/-- From any state, the event and its gift wrap lead to the same state, up to flags. -/
theorem receive_giftWrap (hS : S.Lawful) (hmode : server.config.encryptionMode = .optional)
    {event wrap : S.Event} (hkind : event.kind ≠ giftWrapKind)
    (hwrap : IsGiftWrapOf server.keys event wrap) (s : State S) :
    Option.Rel SameButFlags (step server s (.receive wrap)) (step server s (.receive event)) := by
  simp only [step, accept_giftWrap hS hmode hkind hwrap]
  cases server.accept event with
  | error why => exact .some (.refl s)
  | ok r => exact .some (.track s wrap event r true)

end Server

/-! ## The client -/

namespace Client

open NostrClientTransport

variable {client : NostrClientTransport S}

/-- Two observations of one thing: of the same message, if not of the same event. -/
inductive Obs.Alike : Obs S → Obs S → Prop
  | refl (o : Obs S) : Alike o o
  | forwarded (event event' : S.Event) (eTag : Option String) (message : JsonRpcMessage) :
      Alike (.forwarded event eTag message) (.forwarded event' eTag message)

/-- The states differ in the events that the loop is at and that the log names. -/
structure Alike (s s' : State S) : Prop where
  pendingRequests : s.pendingRequests = s'.pendingRequests
  calls : s.calls = s'.calls
  tasks : s.tasks = s'.tasks
  loop : Option.Rel (fun t t' : Taken S ↦ t.content = t'.content ∧ t.eTag = t'.eTag)
    s.loop s'.loop
  log : List.Forall₂ Obs.Alike s.log s'.log

theorem Alike.refl (s : State S) : Alike s s where
  pendingRequests := rfl
  calls := rfl
  tasks := rfl
  loop := by
    cases s.loop with
    | none => exact .none
    | some t => exact .some ⟨rfl, rfl⟩
  log := by
    induction s.log with
    | nil => exact .nil
    | cons o log ih => exact .cons (.refl o) ih

/-- A call makes the same step in both states. -/
theorem Alike.resume {s s' : State S} (h : Alike s s') (amb : Ambient S) (i : Nat)
    (task : Task) : Alike (resume client amb s i task) (resume client amb s' i task) := by
  cases s
  cases s'
  obtain ⟨hpending, hcalls, htasks, hloop, hlog⟩ := h
  dsimp only at hpending hcalls htasks
  subst hpending hcalls htasks
  have hcons : ∀ o : Obs S, List.Forall₂ Obs.Alike (o :: _) (o :: _) := fun o ↦
    .cons (.refl o) hlog
  cases task with
  | publish message =>
      simp only [Client.resume]
      split
      · exact ⟨rfl, rfl, rfl, hloop, .cons (.refl _) (hcons _)⟩
      · exact ⟨rfl, rfl, rfl, hloop, hcons _⟩
      · split
        · exact ⟨rfl, rfl, rfl, hloop, hcons _⟩
        · exact ⟨rfl, rfl, rfl, hloop, hcons _⟩
  | register eventId => exact ⟨rfl, rfl, rfl, hloop, .cons (.refl _) (hcons _)⟩

/-- What the loop does with a message depends on its content and its tag. -/
theorem Alike.deliver {s s' : State S} (h : Alike s s') :
    Option.Rel Alike (step client s .deliver) (step client s' .deliver) := by
  obtain ⟨hpending, hcalls, htasks, hloop, hlog⟩ := h
  simp only [step]
  generalize s.loop = l at hloop
  generalize s'.loop = l' at hloop
  cases hloop with
  | none => exact .none
  | @some t t' ht =>
      obtain ⟨hcontent, htag⟩ := ht
      simp only [hcontent]
      cases nostrEventToMcpMessage S t'.content with
      | none => exact .some ⟨hpending, hcalls, htasks, .none, hlog⟩
      | some message =>
          refine .some ⟨?_, hcalls, htasks, .none, ?_⟩
          · show cleanUp t.eTag s.pendingRequests = cleanUp t'.eTag s'.pendingRequests
            rw [htag, hpending]
          · refine .cons ?_ hlog
            rw [htag]
            exact .forwarded t.event t'.event t'.eTag message

/-- Alike states answer every action alike. -/
theorem Alike.step {s s' : State S} (h : Alike s s') (a : Action S) :
    Option.Rel Alike (step client s a) (step client s' a) := by
  cases a with
  | call message =>
      refine .some ⟨h.pendingRequests, ?_, ?_, h.loop, .cons ?_ h.log⟩
      · show s.calls + 1 = s'.calls + 1
        rw [h.calls]
      · show s.tasks.insert s.calls _ = s'.tasks.insert s'.calls _
        rw [h.tasks, h.calls]
      · rw [h.calls]
        exact .refl _
  | resume i amb =>
      simp only [Client.step, h.tasks]
      cases s'.tasks.lookup i with
      | none => exact .none
      | some task => exact .some (h.resume amb i task)
  | receive event =>
      simp only [Client.step, h.pendingRequests]
      have hloop := h.loop
      generalize s.loop = l at hloop
      generalize s'.loop = l' at hloop
      cases hloop with
      | some => exact .none
      | none =>
          simp only []
          split
          · exact .some ⟨rfl, h.calls, h.tasks, .some ⟨rfl, rfl⟩, h.log⟩
          · exact .some h
  | deliver => exact h.deliver

/-- The check reads the same of an event and of its gift wrap. -/
theorem take_giftWrap (hS : S.Lawful) {event wrap : S.Event}
    (hkind : event.kind ≠ giftWrapKind) (hwrap : IsGiftWrapOf client.keys event wrap)
    (pending : Finset String) : client.take pending wrap = client.take pending event := by
  have hlayer : client.layer wrap = client.layer event := by
    unfold layer
    rw [if_pos (hwrap.kind hS), if_neg hkind, hwrap.inner hS]
  unfold take
  rw [hlayer]

/-- From any state, and whatever happens afterwards, the event and its gift wrap lead to
states that are alike. -/
theorem run_receive_giftWrap (hS : S.Lawful) {event wrap : S.Event}
    (hkind : event.kind ≠ giftWrapKind) (hwrap : IsGiftWrapOf client.keys event wrap)
    (s : State S) (as : List (Action S)) :
    Option.Rel Alike (run (step client) s (.receive wrap :: as))
      (run (step client) s (.receive event :: as)) := by
  have hfirst : Option.Rel Alike (step client s (.receive wrap))
      (step client s (.receive event)) := by
    simp only [step, take_giftWrap hS hkind hwrap]
    cases s.loop with
    | some t => exact .none
    | none =>
        simp only []
        split
        · exact .some ⟨rfl, rfl, rfl, .some ⟨rfl, rfl⟩, (Alike.refl s).log⟩
        · exact .some (.refl s)
  rw [run_cons, run_cons]
  generalize step client s (.receive wrap) = o at hfirst
  generalize step client s (.receive event) = o' at hfirst
  cases hfirst with
  | none => exact .none
  | some h => exact run_simulates (fun _ _ a h ↦ h.step a) h as

end Client

/-! ## Both sides -/

/-- An event that is no gift wrap itself, and its gift wrap, have the same effect on a server
in mode `Optional`, up to the flags, and on a client. -/
theorem encryption_transparent (hS : S.Lawful) {event wrap : S.Event}
    (hkind : event.kind ≠ giftWrapKind) :
    (∀ (server : NostrServerTransport S) (s : Server.State S),
      server.config.encryptionMode = .optional → IsGiftWrapOf server.keys event wrap →
        Option.Rel Server.SameButFlags (Server.step server s (.receive wrap))
          (Server.step server s (.receive event))) ∧
    ∀ (client : NostrClientTransport S) (s : Client.State S) (as : List (Client.Action S)),
      IsGiftWrapOf client.keys event wrap →
        Option.Rel Client.Alike (run (Client.step client) s (.receive wrap :: as))
          (run (Client.step client) s (.receive event :: as)) := by
  constructor
  · intro server s hmode hwrap
    exact Server.receive_giftWrap hS hmode hkind hwrap s
  · intro client s as hwrap
    exact Client.run_receive_giftWrap hS hkind hwrap s as

theorem encryption_transparent_symbolic :
    (∃ s s' : Server.State Symbolic.sdk,
      Server.step Server.openServer .init (.receive (Symbolic.wrap "ephemeral" "server" 1
        (Symbolic.message "A" 0 [] toolCall))) = some s ∧
      Server.step Server.openServer .init
        (.receive (Symbolic.message "A" 0 [] toolCall)) = some s' ∧
      Server.SameButFlags s s') ∧
    ∃ s s' : Client.State Symbolic.sdk,
      run (Client.step Client.openClient) .init [.receive (Symbolic.wrap "ephemeral" "A" 1
        (Symbolic.message "server" 0 [] initialized)), .deliver] = some s ∧
      run (Client.step Client.openClient) .init
        [.receive (Symbolic.message "server" 0 [] initialized), .deliver] = some s' ∧
      Client.Alike s s' := by
  constructor
  · have hwrap : IsGiftWrapOf Server.openServer.keys (Symbolic.message "A" 0 [] toolCall)
        (Symbolic.wrap "ephemeral" "server" 1 (Symbolic.message "A" 0 [] toolCall)) :=
      ⟨Symbolic.ambient 1, rfl⟩
    have h := (encryption_transparent Symbolic.lawful (by decide)).1 _ .init rfl hwrap
    cases h with
    | some h => exact ⟨_, _, rfl, rfl, h⟩
  · have hwrap : IsGiftWrapOf Client.openClient.keys (Symbolic.message "server" 0 [] initialized)
        (Symbolic.wrap "ephemeral" "A" 1 (Symbolic.message "server" 0 [] initialized)) :=
      ⟨Symbolic.ambient 1, rfl⟩
    have h := (encryption_transparent Symbolic.lawful (by decide)).2 _ .init [.deliver] hwrap
    cases h with
    | some h => exact ⟨_, _, rfl, rfl, h⟩

end ContextVM
