import ContextVM.Transport.Client.Authenticity
import ContextVM.Transport.Client.Calls
import ContextVM.Transport.Server.Mirror

/-!
# The encryption policy

In mode `Required` every message is to travel in a gift wrap, and in mode `Disabled` none.

The send path is shared and asks `shouldEncrypt`, so what is published conforms to the mode
on both sides.  On the way in the server checks the mode in `layer`.  The client's event loop
is handed the mode and does not look at it: there the policy holds as long as the server
keeps to it.
-/

namespace ContextVM

open Lib
open Symbolic (toolCall emptyResponse initialized)

variable {S : Sdk}

/-- The event travels as the mode demands. -/
def Conforms (mode : EncryptionMode) (event : S.Event) : Prop :=
  match mode with
  | .required => event.kind = giftWrapKind
  | .disabled => event.kind ≠ giftWrapKind
  | .optional => True

/-- What the shared send path publishes conforms to the mode, whatever flag it is given. -/
theorem Sent.conforms (hS : S.Lawful) {base : BaseTransport S} {amb : Ambient S}
    {message : JsonRpcMessage} {recipient : S.PublicKey} {tags : List Tag}
    {mode : EncryptionMode} {isEncrypted : Option Bool} {signed published : S.Event}
    (h : Sent base amb message recipient ctxvmMessagesKind tags
      (shouldEncrypt mode ctxvmMessagesKind isEncrypted) signed published) :
    Conforms mode published := by
  have hkind := h.kind_eq_giftWrap_iff hS (by decide)
  rw [shouldEncrypt_messages] at hkind
  cases mode with
  | optional => trivial
  | required => exact hkind.2 rfl
  | disabled => exact fun hk ↦ Bool.false_ne_true (hkind.1 hk)

/-! ## The server -/

namespace Server

open NostrServerTransport

variable {server : NostrServerTransport S}

/-- The flag of a request or session is as the mode demands. -/
def FlagConforms (mode : EncryptionMode) (isEncrypted : Bool) : Prop :=
  match mode with
  | .required => isEncrypted = true
  | .disabled => isEncrypted = false
  | .optional => True

/-- What is accepted conforms to the mode, and so does its flag. -/
theorem accepted_conforms {event read : S.Event} {r : IncomingRequest}
    (h : Accepted server event r read) :
    Conforms server.config.encryptionMode event ∧
      FlagConforms server.config.encryptionMode r.isEncrypted := by
  have hlayer := h.layer
  have hkind := h.isEncrypted_iff
  cases henc : r.isEncrypted with
  | true =>
      have hmode := (layer_encrypted.1 (henc ▸ hlayer)).2.1
      cases hm : server.config.encryptionMode with
      | optional => exact ⟨trivial, trivial⟩
      | required => exact ⟨hkind.1 henc, rfl⟩
      | disabled => exact absurd hm hmode
  | false =>
      have hmode := (layer_plain.1 (henc ▸ hlayer)).2.1
      cases hm : server.config.encryptionMode with
      | optional => exact ⟨trivial, trivial⟩
      | required => exact absurd hm hmode
      | disabled => exact ⟨fun hk ↦ by simp [hkind.2 hk] at henc, rfl⟩

/-- Everything that the server has published, forwarded and noted of its clients conforms to
the mode. -/
structure Policy (server : NostrServerTransport S) (s : State S) : Prop where
  responded : ∀ i e p, .responded i e p ∈ s.log →
    Conforms server.config.encryptionMode p.event
  notified : ∀ i p, .notified i p ∈ s.log → Conforms server.config.encryptionMode p.event
  forwarded : ∀ event r, .forwarded event r ∈ s.log →
    Conforms server.config.encryptionMode event ∧
      FlagConforms server.config.encryptionMode r.isEncrypted
  session : ∀ c session, s.sessions.lookup c = some session →
    FlagConforms server.config.encryptionMode session.isEncrypted

theorem Reachable.responded_conforms (hS : S.Lawful) {s : State S} (hs : Reachable server s)
    {i : Nat} {e : String} {p : Publication S} (hmem : .responded i e p ∈ s.log) :
    Conforms server.config.encryptionMode p.event := by
  obtain ⟨newer, h, hlog⟩ := List.append_of_mem hmem
  obtain ⟨response, c, session, amb, -, -, -, hpub⟩ := hs.explained hlog
  obtain ⟨-, -, eid, signed, -, hsent⟩ := publishResponse_ok hpub
  exact hsent.conforms hS

theorem Reachable.notified_conforms (hS : S.Lawful) {s : State S} (hs : Reachable server s)
    {i : Nat} {p : Publication S} (hmem : .notified i p ∈ s.log) :
    Conforms server.config.encryptionMode p.event := by
  refine Reaches.induct (Server.step server) hs (fun s ↦ .notified i p ∈ s.log → _) nofun ?_
    hmem
  intro m a m' _ ih hstep hmem
  rcases step_notified hstep hmem with hold | ⟨amb, c, n, correlated, enc, hpub⟩
  · exact ih hold
  · obtain ⟨-, -, tags, signed, hsent⟩ := publishNotification_ok hpub
    exact hsent.conforms hS

/-- The policy holds in every reachable state. -/
theorem server_policy (hS : S.Lawful) {s : State S} (hs : Reachable server s) :
    Policy server s where
  responded _ _ _ hmem := hs.responded_conforms hS hmem
  notified _ _ hmem := hs.notified_conforms hS hmem
  forwarded event r hmem := by
    obtain ⟨as, hrun⟩ := hs
    obtain ⟨read, haccepted⟩ := accept_ok (forwarded_of_run_init hrun hmem).2
    exact accepted_conforms haccepted
  session c session hl := by
    obtain ⟨r, hlast, henc⟩ := hs.session_mirrors c session hl
    obtain ⟨event, read, haccepted⟩ := hs.accept_of_mem (lastFrom_eq_some hlast).1
    rw [← henc]
    exact (accepted_conforms haccepted).2

/-- A server that insists on encryption. -/
def strictServer : NostrServerTransport Symbolic.sdk where
  keys := "server"
  config :=
    { encryptionMode := .required
      allowedPublicKeys := []
      excludedCapabilities := []
      sessionTimeout := 300 }

/-- A request, its answer, and a notification to its client. -/
def strictRun : List (Action Symbolic.sdk) :=
  [.receive (Symbolic.wrap "K" "server" 1 (Symbolic.message "A" 0 [] toolCall)),
    .call (.sendResponse "A/25910/0" emptyResponse),
    .resume 0 (Symbolic.ambient 2), .resume 0 (Symbolic.ambient 2),
    .resume 0 (Symbolic.ambient 2),
    .call (.sendNotification "A" initialized none),
    .resume 1 (Symbolic.ambient 3), .resume 1 (Symbolic.ambient 3)]

def strictState : State Symbolic.sdk := (run (step strictServer) .init strictRun).get rfl

theorem server_policy_strictServer : Policy strictServer strictState :=
  server_policy Symbolic.lawful ⟨strictRun, rfl⟩

end Server

/-! ## The client -/

namespace Client

open NostrClientTransport

variable {client : NostrClientTransport S}

/-- Everything that the client has published and forwarded conforms to the mode. -/
structure Policy (client : NostrClientTransport S) (s : State S) : Prop where
  published : ∀ i message event, .published i message event ∈ s.log →
    Conforms client.encryptionMode event
  forwarded : ∀ event eTag message, .forwarded event eTag message ∈ s.log →
    Conforms client.encryptionMode event

/-- An event conforms to the mode, if it is one that the loop has no other reason to drop: it
is by the server, it is correlated with a pending request or with none, and it carries a
message. -/
def ArrivesConforming (client : NostrClientTransport S) (s : State S) : Action S → Prop
  | .receive event => ∀ content eTag read message, Read client event content eTag read →
      (∀ id, eTag = some id → id ∈ s.pendingRequests) →
      nostrEventToMcpMessage S content = some message → Conforms client.encryptionMode event
  | _ => True

/-- The loop is at an event that conforms, and so was whatever it has forwarded. -/
structure Conforming (client : NostrClientTransport S) (s : State S) : Prop where
  loop : ∀ t message, s.loop = some t → nostrEventToMcpMessage S t.content = some message →
    Conforms client.encryptionMode t.event
  forwarded : ∀ event eTag message, .forwarded event eTag message ∈ s.log →
    Conforms client.encryptionMode event

theorem Conforming.step {s s' : State S} {a : Action S} (h : Conforming client s)
    (ha : ArrivesConforming client s a) (htrans : Transition client s a s') :
    Conforming client s' := by
  constructor
  · intro t message hloop hm
    rcases htrans.loop_from hloop with hold | ⟨rfl, htake⟩
    · exact h.loop t message hold hm
    · obtain ⟨⟨read, hread⟩, hpending⟩ := take_ok.1 htake
      exact ha t.content t.eTag read message hread hpending hm
  · intro event eTag message hmem
    rcases htrans.log_forwarded hmem with hold | ⟨content, hloop, hm⟩
    · exact h.forwarded event eTag message hold
    · exact h.loop _ message hloop hm

/-- A run that is over when the loop is idle has forwarded whatever the loop took. -/
theorem forwarded_of_receive {m m' s' : State S} {event : S.Event} {content : S.Text}
    {eTag : Option String} {message : JsonRpcMessage} {as : List (Action S)}
    (htake : client.take m.pendingRequests event = .ok (content, eTag))
    (hm : nostrEventToMcpMessage S content = some message)
    (hstep : step client m (.receive event) = some m')
    (hrun : run (step client) m' as = some s') (hidle : s'.loop = none) :
    .forwarded event eTag message ∈ s'.log := by
  have hloop : m'.loop = some ⟨event, content, eTag⟩ := by
    simp only [step] at hstep
    split at hstep
    · cases hstep
    · simp only [htake, Option.some.injEq] at hstep
      rw [← hstep]
  by_cases hdeliver : .deliver ∈ as
  · obtain ⟨newer, hlog, hmem⟩ := forwarded_of_taken hloop hm hrun hdeliver
    rw [hlog]
    exact List.mem_append_left _ hmem
  · -- nothing else takes the loop away from the event
    exfalso
    have hstays : s'.loop = some ⟨event, content, eTag⟩ := by
      clear hstep htake
      induction as generalizing m' with
      | nil => exact Option.some.inj hrun ▸ hloop
      | cons a as ih =>
          obtain ⟨m'', hm'', hrest⟩ := (run_cons_eq_some _).1 hrun
          have ha : a ≠ .deliver := fun h ↦ hdeliver (h ▸ List.mem_cons_self)
          apply ih hrest _ fun h ↦ hdeliver (List.mem_cons_of_mem _ h)
          exact (step_transition hm'').loop_stays hloop ha
    rw [hidle] at hstays
    cases hstays

/-- The policy holds after a run if every event arrives conforming to the mode, and, once the
loop is idle, only then. -/
theorem client_policy_iff (hS : S.Lawful) {as : List (Action S)} {s : State S}
    (hrun : run (step client) .init as = some s) :
    (Always (step client) (ArrivesConforming client) .init as → Policy client s) ∧
      (s.loop = none → Policy client s →
        Always (step client) (ArrivesConforming client) .init as) := by
  constructor
  · intro harrives
    have hinit : Conforming client .init := ⟨nofun, nofun⟩
    have hconforming := run_invariant_of_always (Conforming client)
      (fun s a s' h ha hstep ↦ h.step ha (step_transition hstep)) hinit harrives hrun
    refine ⟨fun i message event hmem ↦ ?_, hconforming.forwarded⟩
    have hs : Reachable client s := ⟨as, hrun⟩
    obtain ⟨amb, signed, hsent⟩ := hs.published hmem
    exact hsent.conforms hS
  · intro hidle hpolicy
    apply Always.of_forall
    rintro pre a post m rfl hpre
    cases a with
    | receive event =>
        intro content eTag read message hread hpending hm
        obtain ⟨m₀, hpre', hrest⟩ := (run_append_eq_some _).1 hrun
        cases hpre.symm.trans hpre'
        obtain ⟨m', hstep, hpost⟩ := (run_cons_eq_some _).1 hrest
        have htake := take_ok.2 ⟨⟨read, hread⟩, hpending⟩
        exact hpolicy.forwarded event eTag message
          (forwarded_of_receive htake hm hstep hpost hidle)
    | _ => trivial

/-- A client that insists on encryption. -/
def strictClient : NostrClientTransport Symbolic.sdk :=
  { openClient with encryptionMode := .required }

/-- A notification is sent, and one in a gift wrap is received. -/
def strictRun : List (Action Symbolic.sdk) :=
  [.call initialized, .resume 0 (Symbolic.ambient 0),
    .receive (Symbolic.wrap "K" "A" 2 (Symbolic.message "server" 1 [] initialized)), .deliver]

def strictState : State Symbolic.sdk := (run (step strictClient) .init strictRun).get rfl

theorem client_policy_iff_strictClient : Policy strictClient strictState := by
  have hrun : run (step strictClient) .init strictRun = some strictState := rfl
  apply (client_policy_iff Symbolic.lawful hrun).1
  refine .of_mem fun a ha m ↦ ?_
  simp only [strictRun, List.mem_cons, List.not_mem_nil, or_false] at ha
  rcases ha with rfl | rfl | rfl | rfl
  · trivial
  · trivial
  · intro _ _ _ _ _ _ _
    exact rfl
  · trivial

/-- A client that insists on encryption forwards a message that arrives in plaintext. -/
theorem plaintext_forwarded_when_required :
    ¬ ∀ (S : Sdk) (_ : S.Lawful) (client : NostrClientTransport S) (as : List (Action S))
      (s : State S), run (step client) .init as = some s → Policy client s := by
  intro h
  have hpolicy := h Symbolic.sdk Symbolic.lawful strictClient
    [.receive (Symbolic.message "server" 1 [] initialized), .deliver] _ rfl
  have hkind : (Symbolic.message "server" 1 [] initialized).kind = giftWrapKind :=
    hpolicy.forwarded _ _ _ (.head _)
  exact absurd hkind (by decide)

end Client

end ContextVM
