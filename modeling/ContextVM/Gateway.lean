import ContextVM.Transport.Server.Atomic
import ContextVM.Transport.Server.Broadcast
import ContextVM.Transport.Server.Desk
import ContextVM.Transport.Server.Notices

/-!
# A gateway at work

A consumer of the gateway is a loop.  It receives the forwarded messages in order, answers
those that ask for an answer by a call of `send_response`, and waits for each call before it
receives the next message.  If a call fails, so does the loop, and with it the program.  The
echo server is such a loop.

While `main` runs, the event loop of the transport goes on to receive events, and its cleanup
task to remove sessions.  `served_in_order` says what comes of it: the answers go out in the
order of the requests, each once, to the client and under the id of its request, provided that
event ids are used once and messages leave the recorded ids (`Orderly`).  `main_live` says that
the loop neither stops nor spins, and needs no condition.
-/

namespace ContextVM.Gateway

open Lib Server

variable {S : Sdk} {server : NostrServerTransport S}

/-! ## Handlers -/

/-- What a consumer answers.  Only requests have answers, which are under their ids. -/
structure Handler where
  respond : JsonRpcMessage → Option JsonRpcMessage
  isRequest : ∀ m answer, respond m = some answer → m.isRequest = true
  id : ∀ m answer, respond m = some answer → answer.id = m.id

namespace Echo

def initializeResult : Value :=
  .ofJson <| .obj
    [("protocolVersion", .str "2024-11-05"),
      ("capabilities", .obj [("tools", .obj [])]),
      ("serverInfo", .obj [("name", .str "Echo Server"), ("version", .str "0.1.0")])]

def listResult : Value :=
  .ofJson <| .obj
    [("tools", .arr
      [.obj
        [("name", .str "echo"),
          ("description", .str "Echoes back the input message"),
          ("inputSchema", .obj
            [("type", .str "object"),
              ("properties", .obj
                [("message", .obj
                  [("type", .str "string"), ("description", .str "Message to echo")])]),
              ("required", .arr [.str "message"])])]])]

/-- The argument of a call of the tool. -/
def message (r : JsonRpcRequest) : String :=
  (((r.params.bind fun p ↦ p.get "arguments").bind fun a ↦ a.get "message").bind
    Value.asStr).getD "(no message)"

def callResult (message : String) : Value :=
  .ofJson <| .obj
    [("content", .arr [.obj [("type", .str "text"), ("text", .str ("Echo: " ++ message))]])]

def respond : JsonRpcMessage → Option JsonRpcMessage
  | .request r =>
    if r.method = "initialize" then
      some (.response { jsonrpc := "2.0", id := r.id, result := initializeResult })
    else if r.method = "tools/list" then
      some (.response { jsonrpc := "2.0", id := r.id, result := listResult })
    else if r.method = "tools/call" then
      some (.response { jsonrpc := "2.0", id := r.id, result := callResult (message r) })
    else
      some (.errorResponse
        { jsonrpc := "2.0"
          id := r.id
          error := { code := -32601, message := "Method not found", data := none } })
  | _ => none

end Echo

/-- The handler of the echo server. -/
def echo : Handler where
  respond := Echo.respond
  isRequest m answer h := by
    cases m with
    | request r => rfl
    | _ => cases h
  id m answer h := by
    cases m with
    | request r =>
        simp only [Echo.respond] at h
        split_ifs at h <;> cases h <;> rfl
    | _ => cases h

/-- It answers every request. -/
theorem isSome_echo_respond (m : JsonRpcMessage) :
    (echo.respond m).isSome = m.isRequest := by
  cases m with
  | request r =>
      change (Echo.respond (.request r)).isSome = true
      simp only [Echo.respond]
      split_ifs <;> rfl
  | _ => rfl

/-! ## The loop -/

inductive Phase where
  | receiving
  /-- The loop waits for the call `i` of `send_response`. -/
  | sending (i : Nat)
  /-- The program has returned the error of a call. -/
  | failed (err : Error)

structure State (S : Sdk) where
  server : Server.State S
  /-- How many messages the loop has received. -/
  received : Nat
  phase : Phase

def State.init : State S := ⟨.init, 0, .receiving⟩

/-- The messages that have been forwarded, in order. -/
def State.arrived (s : State S) : List IncomingRequest := (requests s.server.log).reverse

inductive Action (S : Sdk) where
  /-- The event loop of the transport handles an event. -/
  | receive (event : S.Event)
  | cleanup
  | elapse (d : Nat)
  /-- The loop receives a message. -/
  | recv
  /-- The call that the loop waits for makes its next step. -/
  | proceed (amb : Ambient S)

/-- The loop passes an error on. -/
def Phase.ofResult : Except Error Unit → Phase
  | .ok () => .receiving
  | .error err => .failed err

def Action.isReceive : Action S → Bool
  | .receive _ => true
  | _ => false

/-- The phase in which the loop is when the call `i` has come to this. -/
def awaiting (i : Nat) (t : Server.State S) : Phase :=
  match returnsOf i t.log with
  | [] => .sending i
  | result :: _ => .ofResult result

/-- The loop receives a message, and if there is an answer it begins to send it. -/
def recv (handler : Handler) (server : NostrServerTransport S) (s : State S)
    (r : IncomingRequest) : Option (State S) :=
  match handler.respond r.message with
  | none => some { s with received := s.received + 1 }
  | some response =>
    (Server.step server s.server (.call (.sendResponse r.eventId response))).map fun t ↦
      { server := t, received := s.received + 1, phase := .sending s.server.calls }

/-- A step of the transport that the loop has no part in. -/
def background (server : NostrServerTransport S) (s : State S) (a : Server.Action S) :
    Option (State S) :=
  (Server.step server s.server a).map fun t ↦ { s with server := t }

/-- The steps of the program.  When it has failed it has ended. -/
def step (handler : Handler) (server : NostrServerTransport S) (s : State S) (a : Action S) :
    Option (State S) :=
  match s.phase, a with
  | .failed _, _ => none
  | _, .receive event => background server s (.receive event)
  | _, .cleanup => background server s .cleanup
  | _, .elapse d => background server s (.elapse d)
  | .receiving, .recv => (s.arrived[s.received]?).bind (recv handler server s)
  | .sending i, .proceed amb =>
    (Server.step server s.server (.resume i amb)).map fun t ↦
      { s with server := t, phase := awaiting i t }
  | _, _ => none

variable {handler : Handler} {s s' : State S} {a : Action S}

/-- What can happen in one step. -/
inductive Transition (handler : Handler) (server : NostrServerTransport S) (s : State S) :
    Action S → State S → Prop
  | received (event : S.Event) (t : Server.State S)
      (h : Server.step server s.server (.receive event) = some t) :
      Transition handler server s (.receive event) { s with server := t }
  | cleanup : Transition handler server s .cleanup { s with server := s.server.cleanup server }
  | elapsed (d : Nat) : Transition handler server s (.elapse d)
      { s with server := { s.server with now := s.server.now + d } }
  | ignored (r : IncomingRequest) (hphase : s.phase = .receiving)
      (hr : s.arrived[s.received]? = some r) (h : handler.respond r.message = none) :
      Transition handler server s .recv { s with received := s.received + 1 }
  | called (r : IncomingRequest) (response : JsonRpcMessage) (hphase : s.phase = .receiving)
      (hr : s.arrived[s.received]? = some r) (h : handler.respond r.message = some response)
      (hadm : s.server.Admits (.sendResponse r.eventId response)) :
      Transition handler server s .recv
        { server := s.server.call (.sendResponse r.eventId response)
          received := s.received + 1
          phase := .sending s.server.calls }
  | resumed (i : Nat) (amb : Ambient S) (t : Server.State S) (hphase : s.phase = .sending i)
      (h : Server.step server s.server (.resume i amb) = some t) :
      Transition handler server s (.proceed amb)
        { s with server := t, phase := awaiting i t }

theorem step_transition (h : step handler server s a = some s') :
    Transition handler server s a s' := by
  have hbackground : ∀ b, background server s b = some s' →
      ∃ t, Server.step server s.server b = some t ∧ s' = { s with server := t } := by
    intro b hb
    obtain ⟨t, ht, rfl⟩ := Option.map_eq_some_iff.1 hb
    exact ⟨t, ht, rfl⟩
  unfold step at h
  split at h
  · cases h
  · obtain ⟨t, ht, rfl⟩ := hbackground _ h
    exact .received _ t ht
  · cases h
    exact .cleanup
  · cases h
    exact .elapsed _
  · next hphase =>
      obtain ⟨r, hr, h⟩ := Option.bind_eq_some_iff.1 h
      unfold recv at h
      split at h
      · next hnone =>
          cases h
          exact .ignored r hphase hr hnone
      · next response hsome =>
          obtain ⟨t, ht, rfl⟩ := Option.map_eq_some_iff.1 h
          obtain ⟨hadm, ht⟩ := Option.ite_none_right_eq_some.1 ht
          cases ht
          exact .called r response hphase hr hsome hadm
  · next i amb hphase =>
      obtain ⟨t, ht, rfl⟩ := Option.map_eq_some_iff.1 h
      exact .resumed i amb t hphase ht
  · cases h

/-- The messages that have arrived keep their places. -/
theorem Transition.arrived (h : Transition handler server s a s') : s.arrived <+: s'.arrived := by
  have hserver : ∀ {b t}, Server.step server s.server b = some t →
      s.arrived <+: (requests t.log).reverse := by
    intro b t hstep
    obtain ⟨os, hlog⟩ := (Server.step_transition hstep).log_suffix
    rw [State.arrived, ← hlog, requests_append, List.reverse_append]
    exact List.prefix_append ..
  cases h with
  | received event t ht => exact hserver ht
  | resumed i amb t hphase ht => exact hserver ht
  | called r response hphase hr hsome hadm => exact hserver (b := .call _) (if_pos hadm)
  | _ => exact List.prefix_rfl

/-! ## A turn of a call -/

/-- An answer, as its client gets it. -/
structure Reply where
  eventId : String
  client : String
  message : JsonRpcMessage

def reply? : Obs S → Option Reply
  | .responded _ e p => some ⟨e, S.toHex p.recipient, p.message⟩
  | _ => none

/-- The steps that a call of `send_response` has left. -/
def stepsLeft : ResponseStep → Nat
  | .findClient _ => 5
  | .findSession .. => 4
  | .publish .. => 3
  | .cleanSession _ => 2
  | .cleanRoute => 1

/-- What a step of the call `i`, which answers the request `e`, comes to. -/
inductive Turn (i : Nat) (e : String) (m : Server.State S) (next : ResponseStep)
    (t : Server.State S) : Prop
  | quiet (next' : ResponseStep) (os : List (Obs S))
      (htasks : t.tasks = m.tasks.insert i (.response e next')) (hlog : t.log = os ++ m.log)
      (hos : ∀ o ∈ os, reply? o = none ∧ o.returned? i = none ∧ o.request? = none)
      (hclean : next'.isCleanup = next.isCleanup) (hleft : stepsLeft next' < stepsLeft next)
  | responded (p : Publication S) (c : String)
      (htasks : t.tasks = m.tasks.insert i (.response e (.cleanSession c)))
      (hlog : t.log = .responded i e p :: m.log) (hclean : next.isCleanup = false)
      (hleft : stepsLeft next = 3)
  | returned (htasks : t.tasks = m.tasks.erase i)
      (hlog : t.log = .returned i (.ok ()) :: m.log) (hclean : next.isCleanup = true)
  | failed (err : Error) (ht : t = m.finish i (.error err)) (hclean : next.isCleanup = false)

theorem turn_of_step {i : Nat} {e : String} {m t : Server.State S} {next : ResponseStep}
    {amb : Ambient S} (htask : m.tasks.lookup i = some (.response e next))
    (h : Server.step server m (.resume i amb) = some t) : Turn i e m next t := by
  cases Server.step_transition h with
  | foundClient _ _ e' response c ht hc =>
      cases htask.symm.trans ht
      exact .quiet _ [.foundClient i e c] rfl rfl (by simp [reply?, Obs.returned?, Obs.request?])
        rfl (Nat.lt_succ_self _)
  | foundSession _ _ e' response c session ht hs =>
      cases htask.symm.trans ht
      exact .quiet _ [.foundSession i c session] rfl rfl
        (by simp [reply?, Obs.returned?, Obs.request?]) rfl (Nat.lt_succ_self _)
  | responded _ _ e' response c enc p ht hp =>
      cases htask.symm.trans ht
      exact .responded p c rfl rfl rfl rfl
  | cleanedSession _ _ e' c ht =>
      cases htask.symm.trans ht
      exact .quiet _ [] rfl rfl (by simp) rfl (Nat.lt_succ_self _)
  | cleanedRoute _ _ e' ht =>
      cases htask.symm.trans ht
      exact .returned rfl rfl rfl
  | failed _ _ e' next' err ht hn =>
      cases htask.symm.trans ht
      exact .failed err rfl hn
  | notifying _ j task _ ha ht hn hnot =>
      rcases ha with ⟨amb', ha⟩ | ⟨clients, ha⟩ <;> cases ha
      cases htask.symm.trans ht
      cases hn
  | clearedSessions _ _ ht => cases htask.symm.trans ht
  | clearedRoutes _ _ ht => cases htask.symm.trans ht

/-! ## Where the loop is -/

/-- The call `i` answers the message `r`, and nothing else is being sent. -/
structure Serving (handler : Handler) (s : State S) (i : Nat) (r : IncomingRequest)
    (next : ResponseStep) : Prop where
  called : ∃ response, handler.respond r.message = some response ∧
    .called i (.sendResponse r.eventId response) ∈ s.server.log
  task : s.server.tasks.lookup i = some (.response r.eventId next)
  alone : ∀ j, j ≠ i → s.server.tasks.lookup j = none
  open' : returnsOf i s.server.log = []

/-- The loop has dealt with the first `n` messages that have arrived. -/
inductive Dealt (handler : Handler) (s : State S) : Phase → Nat → Prop
  | receiving (idle : ∀ j, s.server.tasks.lookup j = none) :
      Dealt handler s .receiving s.received
  | sending (i k : Nat) (r : IncomingRequest) (next : ResponseStep)
      (hreceived : s.received = k + 1) (hr : s.arrived[k]? = some r)
      (h : Serving handler s i r next) :
      Dealt handler s (.sending i) (if next.isCleanup then k + 1 else k)
  | failed (err : Error) (k : Nat) (hreceived : s.received = k + 1) :
      Dealt handler s (.failed err) k

/-- The answers that have gone out, in order. -/
def State.sent (s : State S) : List Reply := s.server.log.reverse.filterMap reply?

/-- What becomes of the next message in a step, if anything. -/
inductive Progress (handler : Handler) (s s' : State S) (n : Nat) : Nat → Prop
  | none (h : s'.sent = s.sent) : Progress handler s s' n n
  | ignored (r : IncomingRequest) (hr : s.arrived[n]? = some r)
      (hnone : handler.respond r.message = .none) (h : s'.sent = s.sent) :
      Progress handler s s' n (n + 1)
  | answered (i : Nat) (r : IncomingRequest) (response : JsonRpcMessage) (p : Publication S)
      (hr : s.arrived[n]? = some r) (hsome : handler.respond r.message = some response)
      (hcalled : .called i (.sendResponse r.eventId response) ∈ s.server.log)
      (h : s'.server.log = .responded i r.eventId p :: s.server.log) :
      Progress handler s s' n (n + 1)

theorem sent_of_log {os : List (Obs S)} (hlog : s'.server.log = os ++ s.server.log)
    (hos : ∀ o ∈ os, reply? o = none) : s'.sent = s.sent := by
  have hnone : os.reverse.filterMap reply? = [] :=
    List.filterMap_eq_nil_iff.2 fun o ho ↦ hos o (List.mem_reverse.1 ho)
  rw [State.sent, hlog, List.reverse_append, List.filterMap_append, hnone, List.append_nil]
  rfl

theorem arrived_of_log {os : List (Obs S)} (hlog : s'.server.log = os ++ s.server.log) :
    s.arrived <+: s'.arrived := by
  rw [State.arrived, State.arrived, hlog, requests_append, List.reverse_append]
  exact List.prefix_append ..

theorem getElem?_of_earlier {n : Nat} {r : IncomingRequest} {rs rs' : List IncomingRequest}
    (h : rs <+: rs') (hr : rs[n]? = some r) : rs'[n]? = some r := by
  obtain ⟨later, rfl⟩ := h
  obtain ⟨hn, -⟩ := List.getElem?_eq_some_iff.1 hr
  rw [List.getElem?_append_left hn, hr]

/-- While the transport does something else, the loop stays where it is. -/
theorem Dealt.of_background {n : Nat} (h : Dealt handler s s.phase n) {t : Server.State S}
    (os : List (Obs S)) (htasks : t.tasks = s.server.tasks) (hlog : t.log = os ++ s.server.log)
    (hos : ∀ o ∈ os, reply? o = none ∧ ∀ i, o.returned? i = none) :
    Dealt handler { s with server := t } s.phase n ∧
      Progress handler s { s with server := t } n n := by
  refine ⟨?_, .none (sent_of_log hlog fun o ho ↦ (hos o ho).1)⟩
  have harrived : s.arrived <+: State.arrived { s with server := t } := arrived_of_log hlog
  generalize hphase : s.phase = phase at h
  cases h with
  | receiving idle => exact .receiving (htasks ▸ idle)
  | sending i k r next hreceived hr h =>
      refine .sending i k r next hreceived (getElem?_of_earlier harrived hr) ?_
      obtain ⟨response, hresponse, hcalled⟩ := h.called
      have hopen : returnsOf i os = [] :=
        List.filterMap_eq_nil_iff.2 fun o ho ↦ (hos o ho).2 i
      exact
        { called := ⟨response, hresponse, by simp [hlog, hcalled]⟩
          task := htasks ▸ h.task
          alone := htasks ▸ h.alone
          open' := by
            change returnsOf i t.log = []
            rw [hlog, returnsOf, List.filterMap_append]
            exact List.append_eq_nil_iff.2 ⟨hopen, h.open'⟩ }
  | failed err _ hreceived => exact .failed err n hreceived

/-- What holds in every state of a run. -/
structure Controlled (handler : Handler) (server : NostrServerTransport S) (s : State S)
    (n : Nat) : Prop where
  reachable : Server.Reachable server s.server
  bound : s.received ≤ s.arrived.length
  dealt : Dealt handler s s.phase n

theorem Controlled.init : Controlled handler server (.init : State S) 0 where
  reachable := .init
  bound := le_refl 0
  dealt := .receiving fun _ ↦ rfl

theorem Controlled.background {n : Nat} (h : Controlled handler server s n)
    {b : Server.Action S} {t : Server.State S} (hstep : Server.step server s.server b = some t)
    (os : List (Obs S)) (htasks : t.tasks = s.server.tasks) (hlog : t.log = os ++ s.server.log)
    (hos : ∀ o ∈ os, reply? o = none ∧ ∀ i, o.returned? i = none) :
    ∃ n', Controlled handler server { s with server := t } n' ∧
      Progress handler s { s with server := t } n n' := by
  obtain ⟨hdealt, hprogress⟩ := h.dealt.of_background os htasks hlog hos
  have harrived : s.arrived <+: State.arrived { s with server := t } := arrived_of_log hlog
  exact ⟨n, ⟨h.reachable.step hstep, h.bound.trans harrived.length_le, hdealt⟩, hprogress⟩

/-- The loop begins to serve a message. -/
theorem Serving.of_call (hs : Server.Reachable server s.server)
    (idle : ∀ j, s.server.tasks.lookup j = none) {r : IncomingRequest}
    {response : JsonRpcMessage} (h : handler.respond r.message = some response) :
    Serving handler
      { server := s.server.call (.sendResponse r.eventId response)
        received := s.received + 1
        phase := .sending s.server.calls } s.server.calls r (.findClient response) where
  called := ⟨response, h, List.mem_cons_self⟩
  task := by rw [Server.State.lookup_call, if_pos rfl, Task.start]
  alone j hj := by rw [Server.State.lookup_call, if_neg hj, idle]
  open' := by
    refine List.filterMap_eq_nil_iff.2 fun o ho ↦ ?_
    rcases List.mem_cons.1 ho with rfl | ho
    · rfl
    · refine o.returned?_of_call? fun hcall ↦ ?_
      exact absurd (hs.outcomes.fresh o ho _ hcall) (Nat.lt_irrefl _)

/-- A call that has not returned goes on. -/
theorem Serving.goto {i : Nat} {r : IncomingRequest} {next next' : ResponseStep}
    (h : Serving handler s i r next) {t : Server.State S} (os : List (Obs S))
    (htasks : t.tasks = s.server.tasks.insert i (.response r.eventId next'))
    (hlog : t.log = os ++ s.server.log) (hos : ∀ o ∈ os, o.returned? i = none) (phase : Phase) :
    Serving handler { s with server := t, phase } i r next' where
  called := by
    obtain ⟨response, hresponse, hcalled⟩ := h.called
    exact ⟨response, hresponse, by simp [hlog, hcalled]⟩
  task := by
    change t.tasks.lookup i = _
    rw [htasks, Table.lookup_insert_eq, if_pos rfl]
  alone j hj := by
    change t.tasks.lookup j = none
    rw [htasks, Table.lookup_insert_eq, if_neg hj, h.alone j hj]
  open' := by
    change returnsOf i t.log = []
    rw [hlog, returnsOf, List.filterMap_append]
    exact List.append_eq_nil_iff.2 ⟨List.filterMap_eq_nil_iff.2 hos, h.open'⟩

theorem Serving.idle_of_erase {i : Nat} {r : IncomingRequest} {next : ResponseStep}
    (h : Serving handler s i r next) {t : Server.State S}
    (htasks : t.tasks = s.server.tasks.erase i) (j : Nat) : t.tasks.lookup j = none := by
  rw [htasks, Table.lookup_erase_eq]
  split
  · rfl
  · next hj => exact h.alone j hj

theorem awaiting_of_open {i : Nat} {t : Server.State S} (h : returnsOf i t.log = []) :
    awaiting i t = .sending i := by
  rw [awaiting, h]

theorem awaiting_of_returned {i : Nat} {t : Server.State S} {log : List (Obs S)}
    {result : Except Error Unit} (h : t.log = .returned i result :: log) :
    awaiting i t = .ofResult result := by
  rw [awaiting, h, returnsOf_returned]

/-- A step of the call that the loop waits for. -/
theorem Controlled.turn {n i : Nat} (h : Controlled handler server s n) {amb : Ambient S}
    (hphase : s.phase = .sending i) {t : Server.State S}
    (hstep : Server.step server s.server (.resume i amb) = some t) :
    ∃ n', Controlled handler server { s with server := t, phase := awaiting i t } n' ∧
      Progress handler s { s with server := t, phase := awaiting i t } n n' := by
  have hreachable := h.reachable.step hstep
  have hbound : ∀ os : List (Obs S), t.log = os ++ s.server.log →
      s.received ≤ (State.arrived { s with server := t, phase := awaiting i t }).length := by
    intro os hlog
    have harrived : s.arrived <+: State.arrived { s with server := t, phase := awaiting i t } :=
      arrived_of_log hlog
    exact h.bound.trans harrived.length_le
  have hdealt := h.dealt
  rw [hphase] at hdealt
  cases hdealt with
  | sending _ k r next hreceived hr hserving =>
      cases turn_of_step hserving.task hstep with
      | quiet next' os htasks hlog hos hclean hleft =>
          have hnext := hserving.goto os htasks hlog (fun o ho ↦ (hos o ho).2.1) (.sending i)
          have hphase' : awaiting i t = .sending i := awaiting_of_open hnext.open'
          have harrived : s.arrived <+:
              State.arrived { s with server := t, phase := .sending i } := arrived_of_log hlog
          refine ⟨_, ⟨hreachable, hbound os hlog, ?_⟩,
            .none (sent_of_log hlog fun o ho ↦ (hos o ho).1)⟩
          rw [hphase', ← hclean]
          exact .sending i k r next' hreceived (getElem?_of_earlier harrived hr) hnext
      | responded p c htasks hlog hclean hleft =>
          have hnext := hserving.goto [.responded i r.eventId p] htasks hlog
            (by simp [Obs.returned?]) (.sending i)
          have hphase' : awaiting i t = .sending i := awaiting_of_open hnext.open'
          have hlog' : t.log = [.responded i r.eventId p] ++ s.server.log := hlog
          have harrived : s.arrived <+:
              State.arrived { s with server := t, phase := .sending i } := arrived_of_log hlog'
          obtain ⟨response, hresponse, hcalled⟩ := hserving.called
          simp only [hclean, Bool.false_eq_true, if_false]
          refine ⟨k + 1, ⟨hreachable, hbound _ hlog', ?_⟩,
            .answered i r response p hr hresponse hcalled hlog⟩
          rw [hphase']
          exact .sending i k r (.cleanSession c) hreceived (getElem?_of_earlier harrived hr) hnext
      | returned htasks hlog hclean =>
          have hphase' : awaiting i t = .receiving := awaiting_of_returned hlog
          simp only [hclean, if_true]
          have hlog' : t.log = [.returned i (.ok ())] ++ s.server.log := hlog
          refine ⟨k + 1, ⟨hreachable, hbound _ hlog', ?_⟩,
            .none (sent_of_log hlog' (by simp [reply?]))⟩
          rw [hphase', ← hreceived]
          exact .receiving (hserving.idle_of_erase htasks)
      | failed err ht hclean =>
          have hlog : t.log = [.returned i (.error err)] ++ s.server.log := by rw [ht]; rfl
          have hphase' : awaiting i t = .failed err := awaiting_of_returned hlog
          simp only [hclean, Bool.false_eq_true, if_false]
          refine ⟨k, ⟨hreachable, hbound _ hlog, ?_⟩,
            .none (sent_of_log hlog (by simp [reply?]))⟩
          rw [hphase']
          exact .failed err k hreceived

theorem Controlled.step {n : Nat} (h : Controlled handler server s n)
    (hstep : step handler server s a = some s') :
    ∃ n', Controlled handler server s' n' ∧ Progress handler s s' n n' := by
  cases step_transition hstep with
  | received event t ht =>
      cases Server.step_transition ht with
      | refused _ why hacc => exact h.background ht [] rfl rfl (by simp)
      | tracked _ r hacc =>
          exact h.background ht [.forwarded event r] rfl rfl (by simp [reply?, Obs.returned?])
      | notifying _ j task _ ha =>
          rcases ha with ⟨amb, ha⟩ | ⟨clients, ha⟩ <;> cases ha
  | cleanup => exact h.background (b := .cleanup) rfl [] rfl rfl (by simp)
  | elapsed d => exact h.background (b := .elapse d) rfl [] rfl rfl (by simp)
  | ignored r hphase hr hnone =>
      have hdealt := h.dealt
      rw [hphase] at hdealt
      cases hdealt with
      | receiving idle =>
          obtain ⟨hlt, -⟩ := List.getElem?_eq_some_iff.1 hr
          refine ⟨s.received + 1, ⟨h.reachable, hlt, ?_⟩, .ignored r hr hnone rfl⟩
          change Dealt handler _ s.phase _
          rw [hphase]
          exact .receiving idle
  | called r response hphase hr hsome hadm =>
      have hdealt := h.dealt
      rw [hphase] at hdealt
      cases hdealt with
      | receiving idle =>
          obtain ⟨hlt, -⟩ := List.getElem?_eq_some_iff.1 hr
          have hcall : Server.step server s.server (.call (.sendResponse r.eventId response)) =
            some (s.server.call (.sendResponse r.eventId response)) := if_pos hadm
          have hlog : (s.server.call (.sendResponse r.eventId response)).log =
            [.called s.server.calls (.sendResponse r.eventId response)] ++ s.server.log := rfl
          refine ⟨s.received, ⟨h.reachable.step hcall, hlt, ?_⟩,
            .none (sent_of_log hlog (by simp [reply?]))⟩
          exact .sending _ s.received r (.findClient response) rfl hr
            (.of_call h.reachable idle hsome)
  | resumed i amb t hphase ht => exact h.turn hphase ht

/-! ## The answers are in order -/

/-- The answer to a message, as its client is to get it. -/
def Handler.reply? (handler : Handler) (r : IncomingRequest) : Option Reply :=
  (handler.respond r.message).map fun answer ↦ ⟨r.eventId, r.clientPubkey, answer⟩

/-- Event ids are used once, and messages leave the recorded ids of requests. -/
def Orderly (server : NostrServerTransport S) (s : State S) : Action S → Prop
  | .receive event => IdsFresh server s.server (.receive event) ∧
      AcceptsLeavingIds server s.server (.receive event)
  | _ => True

theorem Orderly.of_server {event : S.Event}
    (h : Server.Orderly server s.server (.receive event)) :
    Orderly server s (.receive event) :=
  ⟨h.fresh, h.leaves⟩

/-- Restoring the id of the request leaves an answer of the handler as it is. -/
theorem Handler.restoreId_eq {r : IncomingRequest} {answer : JsonRpcMessage} {id : Value}
    (h : handler.respond r.message = some answer) (hid : r.requestId = some id) :
    answer.restoreId id = answer := by
  have hsame := handler.id _ _ h
  have hreq := handler.isRequest _ _ h
  unfold IncomingRequest.requestId at hid
  cases hm : r.message with
  | request req =>
      rw [hm] at hsame hid
      cases hid
      cases answer with
      | request _ => rfl
      | response a | errorResponse a =>
          have hsame' : a.id = req.id := Option.some.inj hsame
          rw [← hsame']
          rfl
      | notification _ => cases hsame
  | _ =>
      rw [hm] at hreq
      cases hreq

/-- What goes out as the answer to a request is what the handler has answered. -/
theorem reply?_responded (hS : S.Lawful) {t : Server.State S} (ht : InOrder server t) {i : Nat}
    {r : IncomingRequest} {p : Publication S} {log : List (Obs S)}
    (hlog : t.log = .responded i r.eventId p :: log) (hr : r ∈ requests log)
    {answer : JsonRpcMessage} (h : handler.respond r.message = some answer)
    (hcalled : .called i (.sendResponse r.eventId answer) ∈ log) :
    reply? (.responded i r.eventId p) = handler.reply? r := by
  have hreq := handler.isRequest _ _ h
  obtain ⟨r', hlast⟩ : ∃ r', lastRequest r.eventId (requests log) = some r' := by
    unfold lastRequest
    exact Option.isSome_iff_exists.1 (List.find?_isSome.2 ⟨r, hr, by simp [hreq]⟩)
  have hrequests : requests t.log = requests log := by rw [hlog]; rfl
  obtain ⟨hr', hreq', hid'⟩ := lastRequest_eq_some hlast
  obtain rfl : r' = r := ht.unique r' (hrequests ▸ hr') r (hrequests ▸ hr) hreq' hreq hid'
  obtain ⟨hclient, id, hid, hrestored⟩ := ht.fits hS hlog hlast
  -- the call has published the answer, with an id put in that it has already
  have hnow : t.log = [] ++ .responded i r'.eventId p :: log := hlog
  obtain ⟨answer', c, session, amb, hlatest, -, -, hpub⟩ := ht.reachable.explained hnow
  obtain ⟨⟩ := ht.reachable.called_unique i _ _ (called_of_latest hnow hlatest)
    (by rw [hlog]; exact List.mem_cons_of_mem _ hcalled)
  have hmessage : p.message = answer := by
    rw [← hrestored, (NostrServerTransport.publishResponse_ok hpub).1,
      ClientSession.restore_restoreId, Handler.restoreId_eq h hid]
  rw [reply?, Handler.reply?, h, hclient, hmessage]
  rfl

theorem Dealt.bounds {n : Nat} {phase : Phase} (h : Dealt handler s phase n) :
    n ≤ s.received ∧ s.received ≤ n + 1 := by
  cases h with
  | receiving idle => omega
  | sending i k r next hreceived hr h => split <;> omega
  | failed err k hreceived => omega

/-- The transport is in order, and the answers are those to the first messages. -/
structure Served (handler : Handler) (server : NostrServerTransport S) (s : State S) (n : Nat) :
    Prop where
  controlled : Controlled handler server s n
  inOrder : InOrder server s.server
  sent : s.sent = (s.arrived.take n).filterMap handler.reply?

/-- A step of the program is an orderly one of the transport, or leaves it. -/
theorem Controlled.server_step {n : Nat} (h : Controlled handler server s n)
    (hord : Orderly server s a) (hstep : Gateway.step handler server s a = some s') :
    s'.server = s.server ∨ ∃ b, Server.Orderly server s.server b ∧
      Server.step server s.server b = some s'.server ∧
        ∀ event, a = .receive event ↔ b = .receive event := by
  cases step_transition hstep with
  | received event t ht =>
      exact .inr ⟨.receive event, ⟨hord.1, trivial, hord.2⟩, ht, by simp⟩
  | cleanup => exact .inr ⟨.cleanup, ⟨fun _ ↦ trivial, trivial, trivial⟩, rfl, by simp⟩
  | elapsed d => exact .inr ⟨.elapse d, ⟨fun _ ↦ trivial, trivial, trivial⟩, rfl, by simp⟩
  | ignored => exact .inl rfl
  | called r response hphase hr hsome hadm =>
      have hdealt := h.dealt
      rw [hphase] at hdealt
      cases hdealt with
      | receiving idle =>
          refine .inr ⟨.call _, ⟨fun _ ↦ trivial, ?_, trivial⟩, if_pos hadm, by simp⟩
          intro i task hi
          cases (idle i).symm.trans hi
  | resumed i amb t hphase ht =>
      exact .inr ⟨.resume i amb, ⟨fun _ ↦ trivial, trivial, trivial⟩, ht, by simp⟩

theorem Controlled.inOrder_step {n : Nat} (h : Controlled handler server s n)
    (hs : InOrder server s.server) (hord : Orderly server s a)
    (hstep : Gateway.step handler server s a = some s') : InOrder server s'.server := by
  rcases h.server_step hord hstep with heq | ⟨b, hb, hserver, -⟩
  · exact heq ▸ hs
  · exact hs.step hb hserver

theorem Served.step (hS : S.Lawful) {n : Nat} (h : Served handler server s n)
    (hord : Orderly server s a) (hstep : Gateway.step handler server s a = some s') :
    ∃ n', Served handler server s' n' := by
  obtain ⟨n', hcontrolled, hprogress⟩ := h.controlled.step hstep
  have hs' := h.controlled.inOrder_step h.inOrder hord hstep
  refine ⟨n', hcontrolled, hs', ?_⟩
  have harrived : s.arrived <+: s'.arrived := (step_transition hstep).arrived
  obtain ⟨later, hlater⟩ := harrived
  have hn : n ≤ s.arrived.length := h.controlled.dealt.bounds.1.trans h.controlled.bound
  have hold : s'.arrived.take n = s.arrived.take n := by
    rw [← hlater, List.take_append_of_le_length hn]
  have hnext : ∀ r, s.arrived[n]? = some r →
      s'.arrived.take (n + 1) = s.arrived.take n ++ [r] := fun r hr ↦ by
    rw [List.take_add_one, hold, getElem?_of_earlier ⟨later, hlater⟩ hr]
    rfl
  cases hprogress with
  | none hsent => rw [hsent, h.sent, hold]
  | ignored r hr hnone hsent =>
      rw [hsent, h.sent, hnext r hr, List.filterMap_append]
      simp [Handler.reply?, hnone]
  | answered i r response p hr hsome hcalled hlog =>
      have hmem : r ∈ requests s.server.log :=
        List.mem_reverse.1 (List.mem_of_getElem? hr)
      have hreply := reply?_responded hS hs' hlog hmem hsome hcalled
      rw [State.sent, hlog, List.reverse_cons, List.filterMap_append, hnext r hr,
        List.filterMap_append, ← h.sent]
      simp only [List.filterMap_cons, List.filterMap_nil, hreply]
      rfl

theorem served_of_run (hS : S.Lawful) {as : List (Action S)}
    (hrun : run (Gateway.step handler server) .init as = some s)
    (hord : Always (Gateway.step handler server) (Orderly server) .init as) :
    ∃ n, Served handler server s n := by
  refine run_invariant_of_always (fun s ↦ ∃ n, Served handler server s n) ?_ ?_ hord hrun
  · rintro s a s' ⟨n, h⟩ hord hstep
    exact h.step hS hord hstep
  · exact ⟨0, .init, .init, rfl⟩

/-- The answers that have gone out are those to the first messages that have arrived, in the
same order, each to the client and under the id of its request.  When the loop waits for a
message none is missing, and when it has failed that to the last message is. -/
theorem served_in_order (hS : S.Lawful) {as : List (Action S)}
    (hrun : run (Gateway.step handler server) .init as = some s)
    (hord : Always (Gateway.step handler server) (Orderly server) .init as) :
    ∃ n, s.sent = (s.arrived.take n).filterMap handler.reply? ∧
      n ≤ s.received ∧ s.received ≤ n + 1 ∧ (s.phase = .receiving → n = s.received) ∧
      ∀ err, s.phase = .failed err → s.received = n + 1 := by
  obtain ⟨n, h⟩ := served_of_run hS hrun hord
  obtain ⟨hle, hge⟩ := h.controlled.dealt.bounds
  refine ⟨n, h.sent, hle, hge, fun hphase ↦ ?_, fun err hphase ↦ ?_⟩
  · have hdealt := h.controlled.dealt
    rw [hphase] at hdealt
    cases hdealt
    rfl
  · have hdealt := h.controlled.dealt
    rw [hphase] at hdealt
    cases hdealt with
    | failed _ _ hreceived => exact hreceived

theorem eventIds_echo (rs : List IncomingRequest) :
    (rs.filterMap echo.reply?).map Reply.eventId =
      (rs.filter fun r ↦ r.message.isRequest).map fun r ↦ r.eventId := by
  induction rs with
  | nil => rfl
  | cons r rs ih =>
      have hsome := isSome_echo_respond r.message
      cases hr : echo.respond r.message with
      | none =>
          rw [hr] at hsome
          have hreply : echo.reply? r = none := by rw [Handler.reply?, hr]; rfl
          rw [List.filterMap_cons_none hreply, List.filter_cons_of_neg (by simp [← hsome]), ih]
      | some answer =>
          rw [hr] at hsome
          have hreply : echo.reply? r = some ⟨r.eventId, r.clientPubkey, answer⟩ := by
            rw [Handler.reply?, hr]; rfl
          rw [List.filterMap_cons_some hreply, List.filter_cons_of_pos (by simp [← hsome]),
            List.map_cons, List.map_cons, ih]

/-- When the echo server has nothing to do it has answered every request, in order. -/
theorem echo_answers_all (hS : S.Lawful) {as : List (Action S)}
    (hrun : run (Gateway.step echo server) .init as = some s)
    (hord : Always (Gateway.step echo server) (Orderly server) .init as)
    (hphase : s.phase = .receiving) (hall : s.received = s.arrived.length) :
    s.sent.map Reply.eventId =
      (s.arrived.filter fun r ↦ r.message.isRequest).map fun r ↦ r.eventId := by
  obtain ⟨n, h⟩ := served_of_run hS hrun hord
  have hdealt := h.controlled.dealt
  rw [hphase] at hdealt
  cases hdealt with
  | receiving idle => rw [h.sent, hall, List.take_length, eventIds_echo]

/-- The echo server gets a call of its tool and answers it. -/
def echoRun : List (Action Symbolic.sdk) :=
  [.receive (Symbolic.message "A" 0 [] Symbolic.toolCall), .recv,
    .proceed (Symbolic.ambient 3), .proceed (Symbolic.ambient 3), .proceed (Symbolic.ambient 3),
    .proceed (Symbolic.ambient 3), .proceed (Symbolic.ambient 3)]

def echoedState : State Symbolic.sdk :=
  (run (Gateway.step echo openServer) .init echoRun).get rfl

theorem orderly_echoRun :
    Always (Gateway.step echo openServer) (Orderly openServer) .init echoRun := by
  constructor
  · exact .of_server (orderly_receive rfl (by rintro r ⟨⟩) rfl rfl fun _ ↦ rfl)
  refine fun _ _ ↦ Always.of_mem fun a ha m ↦ ?_
  simp only [List.mem_cons, List.not_mem_nil, or_false, or_self] at ha
  rcases ha with rfl | rfl <;> trivial

theorem served_in_order_echoedState : ∃ n, n = 1 ∧
    echoedState.sent = (echoedState.arrived.take n).filterMap echo.reply? ∧
      echoedState.sent.map Reply.client = ["A"] := by
  have hrun : run (Gateway.step echo openServer) .init echoRun = some echoedState := rfl
  obtain ⟨n, hsent, -, -, hphase, -⟩ := served_in_order Symbolic.lawful hrun orderly_echoRun
  exact ⟨n, hphase rfl, hsent, rfl⟩

/-! ## Every answer is one of the handler -/

/-- Every call sends what the handler has answered to a message. -/
def Handled (handler : Handler) (s : State S) : Prop :=
  ∀ i op, .called i op ∈ s.server.log → ∃ r ∈ requests s.server.log, ∃ response,
    op = .sendResponse r.eventId response ∧ handler.respond r.message = some response

theorem Handled.step (h : Handled handler s)
    (hstep : Gateway.step handler server s a = some s') : Handled handler s' := by
  have hold : ∀ {b t}, Server.step server s.server b = some t → s'.server = t →
      (∀ op, b ≠ .call op) → Handled handler s' := by
    intro b t ht heq hb i op hcalled
    have htrans := Server.step_transition ht
    rw [heq] at hcalled ⊢
    rcases htrans.logs hcalled with hmem | hlogs
    · obtain ⟨r, hr, h'⟩ := h i op hmem
      exact ⟨r, mem_requests_of_suffix htrans.log_suffix hr, h'⟩
    · cases hlogs with
      | called op => exact absurd rfl (hb _)
      | notifying _ _ _ _ _ _ _ _ _ ho => exact ho.elim
  cases step_transition hstep with
  | received event t ht => exact hold ht rfl (by simp)
  | cleanup => exact h
  | elapsed d => exact h
  | ignored => exact h
  | called r response hphase hr hsome hadm =>
      intro i op hcalled
      rcases List.mem_cons.1 hcalled with heq | hmem
      · cases heq
        exact ⟨r, List.mem_reverse.1 (List.mem_of_getElem? hr), response, rfl, hsome⟩
      · exact h i op hmem
  | resumed i amb t hphase ht => exact hold ht rfl (by simp)

/-- The steps of the loop. -/
def Action.isTurn : Action S → Bool
  | .recv | .proceed _ => true
  | _ => false

/-- The steps that the call under way has left. -/
def State.turnsLeft (s : State S) : Nat :=
  match s.phase with
  | .sending i =>
    match s.server.tasks.lookup i with
    | some (.response _ next) => stepsLeft next
    | _ => 0
  | _ => 0

/-- At most this many steps of the loop deal with what has arrived: six for a message. -/
def State.work (s : State S) : Nat := 6 * (s.arrived.length - s.received) + s.turnsLeft

theorem turnsLeft_sending {i : Nat} {e : String} {next : ResponseStep} {t : Server.State S}
    (h : t.tasks.lookup i = some (.response e next)) (received : Nat) :
    State.turnsLeft { server := t, received, phase := .sending i } = stepsLeft next := by
  simp only [State.turnsLeft, h]

theorem stepsLeft_pos (next : ResponseStep) : 0 < stepsLeft next := by
  cases next <;> exact Nat.succ_pos _

theorem Serving.turnsLeft_lt {i : Nat} {r : IncomingRequest} {next : ResponseStep}
    (h : Serving handler s i r next) {amb : Ambient S} {t : Server.State S}
    (hstep : Server.step server s.server (.resume i amb) = some t) :
    State.turnsLeft { s with server := t, phase := awaiting i t } < stepsLeft next := by
  cases turn_of_step h.task hstep with
  | quiet next' os htasks hlog hos hclean hleft =>
      have hnext := h.goto os htasks hlog (fun o ho ↦ (hos o ho).2.1) (.sending i)
      rw [awaiting_of_open hnext.open', turnsLeft_sending hnext.task]
      exact hleft
  | responded p c htasks hlog hclean hleft =>
      have hnext := h.goto [.responded i r.eventId p] htasks hlog (by simp [Obs.returned?])
        (.sending i)
      rw [awaiting_of_open hnext.open', turnsLeft_sending hnext.task, hleft]
      exact Nat.lt_succ_self 2
  | returned htasks hlog hclean =>
      rw [awaiting_of_returned hlog]
      exact stepsLeft_pos next
  | failed err ht hclean =>
      have hlog : t.log = .returned i (.error err) :: s.server.log := by rw [ht]; rfl
      rw [awaiting_of_returned hlog]
      exact stepsLeft_pos next

/-- A step of the loop has work done, and others make work by messages that arrive. -/
theorem Controlled.work_step {n : Nat} (h : Controlled handler server s n)
    (hstep : Gateway.step handler server s a = some s') :
    s'.work + (if a.isTurn then 1 else 0) + 6 * s.arrived.length ≤
      s.work + 6 * s'.arrived.length := by
  have hle := (step_transition hstep).arrived.length_le
  have hbound := h.bound
  cases step_transition hstep with
  | received event t ht =>
      have htasks : t.tasks = s.server.tasks := by
        cases Server.step_transition ht with
        | refused | tracked => rfl
        | notifying _ j task _ ha =>
            rcases ha with ⟨amb, ha⟩ | ⟨clients, ha⟩ <;> cases ha
      have hturns : State.turnsLeft { s with server := t } = s.turnsLeft := by
        simp only [State.turnsLeft, htasks]
      simp only [State.work, hturns, Action.isTurn, Bool.false_eq_true, if_false]
      omega
  | cleanup => exact le_refl _
  | elapsed d => exact le_refl _
  | ignored r hphase hr hnone =>
      obtain ⟨hlt, -⟩ := List.getElem?_eq_some_iff.1 hr
      have harrived : State.arrived { s with received := s.received + 1 } = s.arrived := rfl
      have hturns : State.turnsLeft { s with received := s.received + 1 } = s.turnsLeft := rfl
      simp only [State.work, harrived, hturns, Action.isTurn, if_true]
      omega
  | called r response hphase hr hsome hadm =>
      obtain ⟨hlt, -⟩ := List.getElem?_eq_some_iff.1 hr
      have hdealt := h.dealt
      rw [hphase] at hdealt
      cases hdealt with
      | receiving idle =>
          have hserving := Serving.of_call h.reachable idle hsome
          have hturns := turnsLeft_sending hserving.task (s.received + 1)
          simp only [State.work, hturns, stepsLeft, Action.isTurn, if_true]
          omega
  | resumed i amb t hphase ht =>
      have hdealt := h.dealt
      rw [hphase] at hdealt
      cases hdealt with
      | sending _ k r next hreceived hr hserving =>
          have hturns : s.turnsLeft = stepsLeft next := by
            simp only [State.turnsLeft, hphase, hserving.task]
          have hless := hserving.turnsLeft_lt ht
          simp only [State.work, hturns, Action.isTurn, if_true]
          omega

theorem Controlled.turns_le {n : Nat} (h : Controlled handler server s n) {as : List (Action S)}
    (hrun : run (Gateway.step handler server) s as = some s') :
    as.countP Action.isTurn + s'.work + 6 * s.arrived.length ≤ s.work + 6 * s'.arrived.length := by
  induction as generalizing s n with
  | nil =>
      cases hrun
      simp
  | cons a as ih =>
      obtain ⟨m, hm, hrest⟩ := (run_cons_eq_some _).1 hrun
      obtain ⟨n', hn', -⟩ := h.step hm
      have hhead := h.work_step hm
      have htail := ih hn' hrest
      rw [List.countP_cons]
      omega

theorem controlled_of_run {as : List (Action S)}
    (hrun : run (Gateway.step handler server) .init as = some s) :
    ∃ n, Controlled handler server s n := by
  refine run_invariant _ (I := fun s ↦ ∃ n, Controlled handler server s n) ?_ ⟨0, .init⟩ hrun
  rintro s a s' ⟨n, h⟩ hstep
  obtain ⟨n', h', -⟩ := h.step hstep
  exact ⟨n', h'⟩

/-- A call of `send_response` can always make its next step. -/
theorem isSome_resume {m : Server.State S} {i : Nat} {e : String} {next : ResponseStep}
    (h : m.tasks.lookup i = some (.response e next)) (amb : Ambient S) :
    (Server.step server m (.resume i amb)).isSome = true := by
  simp only [Server.step, h, Option.bind_some]
  cases next with
  | cleanSession | cleanRoute => rfl
  | _ =>
      simp only [resume]
      split <;> rfl

theorem admits_of_idle {m : Server.State S} (idle : ∀ j, m.tasks.lookup j = none) {e : String}
    {response : JsonRpcMessage} : m.Admits (.sendResponse e response) := by
  rintro ⟨j, task⟩ hmem
  have htask : m.tasks.lookup j = some task := AList.mem_lookup_iff.2 hmem
  rw [idle j] at htask
  cases htask

/-- In every run the loop makes at most six steps for each message that has arrived, and it can
make another one unless it has failed, or has received all messages and answered them. -/
theorem main_live {as : List (Action S)}
    (hrun : run (Gateway.step handler server) .init as = some s) :
    as.countP Action.isTurn + s.work ≤ 6 * s.arrived.length ∧
      ∀ amb, (Gateway.step handler server s .recv).isSome = true ∨
        (Gateway.step handler server s (.proceed amb)).isSome = true ∨
        (∃ err, s.phase = .failed err) ∨
        s.phase = .receiving ∧ s.received = s.arrived.length := by
  obtain ⟨n, h⟩ := controlled_of_run hrun
  have hturns := Controlled.init.turns_le hrun
  have hnone : (State.init : State S).work = 0 := rfl
  refine ⟨by omega, fun amb ↦ ?_⟩
  have hdealt := h.dealt
  cases hphase : s.phase with
  | failed err => exact .inr (.inr (.inl ⟨err, rfl⟩))
  | sending i =>
      rw [hphase] at hdealt
      cases hdealt with
      | sending _ k r next hreceived hr hserving =>
          refine .inr (.inl ?_)
          simp only [Gateway.step, hphase, Option.isSome_map]
          exact isSome_resume hserving.task amb
  | receiving =>
      rw [hphase] at hdealt
      rcases h.bound.lt_or_eq with hlt | heq
      · refine .inl ?_
        simp only [Gateway.step, hphase, List.getElem?_eq_getElem hlt, Option.bind_some, recv]
        split
        · rfl
        · cases hdealt with
          | receiving idle =>
              rw [Server.step, if_pos (admits_of_idle idle)]
              rfl
      · exact .inr (.inr (.inr ⟨rfl, heq⟩))

theorem main_live_echoedState : echoRun.countP Action.isTurn = 6 ∧
    echoRun.countP Action.isTurn + echoedState.work ≤ 6 * echoedState.arrived.length := by
  have hrun : run (Gateway.step echo openServer) .init echoRun = some echoedState := rfl
  exact ⟨rfl, (main_live hrun).1⟩

end ContextVM.Gateway
