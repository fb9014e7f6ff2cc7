import ContextVM.Transport.Server.System

/-!
# What a step of the server does

`Transition` lists what can happen in one step, with what the step has read;
`step_transition` says that nothing else can.  The proofs about runs go by cases on it and
do not unfold `step`.

Most laws are about the two maps alone.  For these, `Transition.maps` sorts the transitions
by what they do to the maps and to the forwarded requests.
-/

namespace ContextVM.Server

open Lib NostrServerTransport

variable {S : Sdk} {server : NostrServerTransport S}

/-! ## The forwarded requests of a log -/

def Obs.request? : Obs S → Option IncomingRequest
  | .forwarded _ r => some r
  | _ => none

/-- The requests that have been forwarded, newest first. -/
def requests (log : List (Obs S)) : List IncomingRequest := log.filterMap Obs.request?

@[simp] theorem requests_nil : requests ([] : List (Obs S)) = [] := rfl

@[simp] theorem requests_forwarded (event : S.Event) (r : IncomingRequest)
    (log : List (Obs S)) : requests (.forwarded event r :: log) = r :: requests log := rfl

theorem requests_append (newer log : List (Obs S)) :
    requests (newer ++ log) = requests newer ++ requests log := List.filterMap_append

theorem mem_requests {log : List (Obs S)} {r : IncomingRequest} :
    r ∈ requests log ↔ ∃ event, .forwarded event r ∈ log := by
  simp only [requests, List.mem_filterMap]
  constructor
  · rintro ⟨o, ho, hr⟩
    cases o <;> simp only [Obs.request?, reduceCtorEq, Option.some.injEq] at hr
    subst hr
    exact ⟨_, ho⟩
  · rintro ⟨event, h⟩
    exact ⟨_, h, rfl⟩

theorem mem_requests_of_suffix {h log : List (Obs S)} (hsuf : h <:+ log)
    {r : IncomingRequest} (hr : r ∈ requests h) : r ∈ requests log :=
  (hsuf.sublist.filterMap _).subset hr

/-! ## Transitions -/

/-- The tasks of `send_notification` and `broadcast_notification`. -/
def Task.isNotification : Task → Bool
  | .notification .. | .snapshot _ | .broadcast .. => true
  | _ => false

/-- The steps of a call of `send_response` that come after it has published.  They cannot
fail. -/
def ResponseStep.isCleanup : ResponseStep → Bool
  | .cleanSession _ | .cleanRoute => true
  | _ => false

/-- What the call `i` of a notifying operation makes known in the state `s`. -/
def Obs.IsNotifying (s : State S) (i : Nat) : Obs S → Prop
  | .foundSession j c session => j = i ∧ s.sessions.lookup c = some session
  | .snapshot j _ | .notified j _ | .returned j _ => j = i
  | _ => False

/-- The call `i` sends notifications: it writes neither map. -/
structure Notifying (s : State S) (i : Nat) (s' : State S) : Prop where
  sessions : s'.sessions = s.sessions
  eventToClient : s'.eventToClient = s.eventToClient
  now : s'.now = s.now
  calls : s'.calls = s.calls
  others : ∀ j, j ≠ i → s'.tasks.lookup j = s.tasks.lookup j
  own : ∀ task, s'.tasks.lookup i = some task → task.isNotification
  log : ∃ os : List (Obs S), s'.log = os ++ s.log ∧ ∀ o ∈ os, o.IsNotifying s i

/-- The steps of the server. -/
inductive Transition (server : NostrServerTransport S) (s : State S) :
    Action S → State S → Prop
  | refused (event : S.Event) (why : Refusal) (h : server.accept event = .error why) :
      Transition server s (.receive event) s
  | tracked (event : S.Event) (r : IncomingRequest) (h : server.accept event = .ok r) :
      Transition server s (.receive event) (s.track event r)
  | called (op : Operation) (h : s.Admits op) : Transition server s (.call op) (s.call op)
  | foundClient (i : Nat) (amb : Ambient S) (e : String) (response : JsonRpcMessage)
      (c : String) (ht : s.tasks.lookup i = some (.response e (.findClient response)))
      (hc : s.eventToClient.lookup e = some c) :
      Transition server s (.resume i amb) ((s.observe (.foundClient i e c)).goto i
        (.response e (.findSession response c)))
  | foundSession (i : Nat) (amb : Ambient S) (e : String) (response : JsonRpcMessage)
      (c : String) (session : ClientSession)
      (ht : s.tasks.lookup i = some (.response e (.findSession response c)))
      (hs : s.sessions.lookup c = some session) :
      Transition server s (.resume i amb) ((s.observe (.foundSession i c session)).goto i
        (.response e (.publish (session.restore e response) c session.isEncrypted)))
  | responded (i : Nat) (amb : Ambient S) (e : String) (response : JsonRpcMessage)
      (c : String) (enc : Bool) (p : Publication S)
      (ht : s.tasks.lookup i = some (.response e (.publish response c enc)))
      (hp : server.publishResponse amb e c response enc = .ok p) :
      Transition server s (.resume i amb) ((s.observe (.responded i e p)).goto i
        (.response e (.cleanSession c)))
  | cleanedSession (i : Nat) (amb : Ambient S) (e c : String)
      (ht : s.tasks.lookup i = some (.response e (.cleanSession c))) :
      Transition server s (.resume i amb)
        ({ s with sessions := cleanSession e c s.sessions }.goto i (.response e .cleanRoute))
  | cleanedRoute (i : Nat) (amb : Ambient S) (e : String)
      (ht : s.tasks.lookup i = some (.response e .cleanRoute)) :
      Transition server s (.resume i amb)
        ({ s with eventToClient := s.eventToClient.erase e }.finish i (.ok ()))
  | failed (i : Nat) (amb : Ambient S) (e : String) (next : ResponseStep) (err : Error)
      (ht : s.tasks.lookup i = some (.response e next)) (hn : next.isCleanup = false) :
      Transition server s (.resume i amb) (s.finish i (.error err))
  | notifying (a : Action S) (i : Nat) (task : Task) (s' : State S)
      (ha : (∃ amb, a = .resume i amb) ∨ ∃ clients, a = .snapshot i clients)
      (ht : s.tasks.lookup i = some task) (hn : task.isNotification) (h : Notifying s i s') :
      Transition server s a s'
  | clearedSessions (i : Nat) (amb : Ambient S)
      (ht : s.tasks.lookup i = some .clearSessions) :
      Transition server s (.resume i amb) ({ s with sessions := ∅ }.goto i .clearRoutes)
  | clearedRoutes (i : Nat) (amb : Ambient S) (ht : s.tasks.lookup i = some .clearRoutes) :
      Transition server s (.resume i amb) ({ s with eventToClient := ∅ }.finish i (.ok ()))
  | cleanup : Transition server s .cleanup (s.cleanup server)
  | elapsed (d : Nat) : Transition server s (.elapse d) { s with now := s.now + d }

namespace State

variable (s : State S) (i j : Nat) (task : Task) (result : Except Error Unit)

theorem lookup_goto : (s.goto i task).tasks.lookup j =
    if j = i then some task else s.tasks.lookup j := Table.lookup_insert_eq ..

theorem lookup_finish : (s.finish i result).tasks.lookup j =
    if j = i then none else s.tasks.lookup j := Table.lookup_erase_eq ..

theorem lookup_call (op : Operation) : (s.call op).tasks.lookup j =
    if j = s.calls then some (.start op) else s.tasks.lookup j := Table.lookup_insert_eq ..

theorem lookup_goto_self : (s.goto i task).tasks.lookup i = some task := by
  rw [lookup_goto, if_pos rfl]

theorem lookup_finish_self : (s.finish i result).tasks.lookup i = none := by
  rw [lookup_finish, if_pos rfl]

variable {i j} in
theorem lookup_goto_of_ne (h : j ≠ i) : (s.goto i task).tasks.lookup j = s.tasks.lookup j := by
  rw [lookup_goto, if_neg h]

variable {i j} in
theorem lookup_finish_of_ne (h : j ≠ i) :
    (s.finish i result).tasks.lookup j = s.tasks.lookup j := by
  rw [lookup_finish, if_neg h]

theorem lookup_sessions_track (event : S.Event) (r : IncomingRequest) (c : String) :
    (s.track event r).sessions.lookup c =
      if c = r.clientPubkey then
        some (((s.sessions.lookup r.clientPubkey).getD
          (.new s.now r.isEncrypted)).track s.now r)
      else s.sessions.lookup c := lookup_trackSessions ..

theorem lookup_eventToClient_track (event : S.Event) (r : IncomingRequest) (e : String) :
    (s.track event r).eventToClient.lookup e =
      if r.message.isRequest ∧ e = r.eventId then some r.clientPubkey
      else s.eventToClient.lookup e := lookup_trackRoutes ..

theorem lookup_eventToClient_cleanup (server : NostrServerTransport S) (e : String) :
    (s.cleanup server).eventToClient.lookup e =
      if e ∈ expiredKeys s.now server.config.sessionTimeout s.sessions then none
      else s.eventToClient.lookup e := Table.lookup_eraseAll ..

theorem lookup_eventToClient_cleanup_eq_some {s : State S} {e c : String} :
    (s.cleanup server).eventToClient.lookup e = some c ↔
      e ∉ expiredKeys s.now server.config.sessionTimeout s.sessions ∧
        s.eventToClient.lookup e = some c := Table.lookup_eraseAll_eq_some

/-- A tick removes the routes of the sessions that it removes. -/
theorem isExpired_of_cleanup {s : State S} {c c' e : String} {session : ClientSession}
    (hroute : (s.cleanup server).eventToClient.lookup e = some c')
    (hl : s.sessions.lookup c = some session) (hmem : e ∈ session.pendingRequests) :
    session.isExpired s.now server.config.sessionTimeout = false := by
  obtain ⟨hkept, -⟩ := lookup_eventToClient_cleanup_eq_some.1 hroute
  by_contra hexp
  rw [Bool.not_eq_false] at hexp
  exact hkept (mem_expiredKeys.2 ⟨c, session, hl, hexp,
    ClientSession.mem_trackedKeys.2 (.inl hmem)⟩)

/-- A notifying call that goes on, after making some things known. -/
theorem notifying_goto (os : List (Obs S)) {s' : State S} (hn : task.isNotification)
    (hos : ∀ o ∈ os, o.IsNotifying s i)
    (hs' : s' = { s with tasks := s.tasks.insert i task, log := os ++ s.log }) :
    Notifying s i s' := by
  subst hs'
  refine ⟨rfl, rfl, rfl, rfl, fun j hj ↦ ?_, fun t ht ↦ ?_, os, rfl, hos⟩
  · exact (Table.lookup_insert_eq ..).trans (if_neg hj)
  · rw [Table.lookup_insert_eq, if_pos rfl, Option.some.injEq] at ht
    exact ht ▸ hn

/-- A notifying call that returns, after making some things known. -/
theorem notifying_finish (os : List (Obs S)) {s' : State S}
    (hos : ∀ o ∈ os, o.IsNotifying s i)
    (hs' : s' = { s with tasks := s.tasks.erase i, log := os ++ s.log }) :
    Notifying s i s' := by
  subst hs'
  refine ⟨rfl, rfl, rfl, rfl, fun j hj ↦ ?_, fun t ht ↦ ?_, os, rfl, hos⟩
  · exact (Table.lookup_erase_eq ..).trans (if_neg hj)
  · rw [Table.lookup_erase_eq, if_pos rfl] at ht
    cases ht

end State

/-- The steps of a call of `send_response`. -/
theorem resume_response {amb : Ambient S} {s s' : State S} {i : Nat} {e : String}
    {next : ResponseStep} (ht : s.tasks.lookup i = some (.response e next))
    (h : resume server amb s i (.response e next) = some s') :
    Transition server s (.resume i amb) s' := by
  cases next with
  | findClient response =>
      simp only [resume] at h
      cases hc : findClient s.eventToClient e with
      | ok c =>
          simp only [hc, Option.some.injEq] at h
          subst h
          exact .foundClient i amb e response c ht (findClient_ok.1 hc)
      | error err =>
          simp only [hc, Option.some.injEq] at h
          subst h
          exact .failed i amb e _ err ht rfl
  | findSession response c =>
      simp only [resume] at h
      cases hs : responseSession s.sessions c with
      | ok session =>
          simp only [hs, Option.some.injEq] at h
          subst h
          exact .foundSession i amb e response c session ht (readSession_ok.1 hs)
      | error err =>
          simp only [hs, Option.some.injEq] at h
          subst h
          exact .failed i amb e _ err ht rfl
  | publish response c enc =>
      simp only [resume] at h
      cases hp : server.publishResponse amb e c response enc with
      | ok p =>
          simp only [hp, Option.some.injEq] at h
          subst h
          exact .responded i amb e response c enc p ht hp
      | error err =>
          simp only [hp, Option.some.injEq] at h
          subst h
          exact .failed i amb e _ err ht rfl
  | cleanSession c =>
      cases h
      exact .cleanedSession i amb e c ht
  | cleanRoute =>
      cases h
      exact .cleanedRoute i amb e ht

/-- The steps of a call of `send_notification`, and of a broadcast after its snapshot. -/
theorem resume_notification {amb : Ambient S} {s s' : State S} {i : Nat} {task : Task}
    (hn : task.isNotification) (h : resume server amb s i task = some s') :
    Notifying s i s' := by
  cases task with
  | notification c n correlated next =>
      cases next with
      | findSession =>
          simp only [resume] at h
          split at h
          · next session hs =>
              cases h
              exact s.notifying_goto i _ [.foundSession i c session] rfl
                (by simpa [Obs.IsNotifying] using readSession_ok.1 hs) rfl
          · next err _ =>
              cases h
              exact s.notifying_finish i [.returned i (.error err)]
                (by simp [Obs.IsNotifying]) rfl
      | publish enc =>
          simp only [resume] at h
          split at h
          · next p _ =>
              cases h
              exact s.notifying_finish i [.returned i (.ok ()), .notified i p]
                (by simp [Obs.IsNotifying]) rfl
          · next err _ =>
              cases h
              exact s.notifying_finish i [.returned i (.error err)]
                (by simp [Obs.IsNotifying]) rfl
  | snapshot n => cases h
  | broadcast n clients next =>
      cases clients with
      | nil =>
          cases h
          exact s.notifying_finish i [.returned i (.ok ())]
            (by simp [Obs.IsNotifying]) rfl
      | cons c cs =>
          cases next with
          | findSession =>
              simp only [resume] at h
              split at h
              · next session hs =>
                  cases h
                  exact s.notifying_goto i _ [.foundSession i c session] rfl
                    (by simpa [Obs.IsNotifying] using readSession_ok.1 hs) rfl
              · cases h
                exact s.notifying_goto i _ [] rfl (by simp) rfl
          | publish enc =>
              simp only [resume] at h
              split at h
              · next p _ =>
                  cases h
                  exact s.notifying_goto i _ [.notified i p] rfl
                    (by simp [Obs.IsNotifying]) rfl
              · cases h
                exact s.notifying_goto i _ [] rfl (by simp) rfl
  | _ => cases hn

theorem step_transition {s s' : State S} {a : Action S} (h : step server s a = some s') :
    Transition server s a s' := by
  cases a with
  | receive event =>
      simp only [step] at h
      split at h
      · next r hr =>
          cases h
          exact .tracked event r hr
      · next why hr =>
          cases h
          exact .refused event why hr
  | call op =>
      simp only [step] at h
      split at h
      · next hop =>
          cases h
          exact .called op hop
      · cases h
  | resume i amb =>
      obtain ⟨task, ht, h⟩ := Option.bind_eq_some_iff.1 h
      cases task with
      | response e next => exact resume_response ht h
      | clearSessions =>
          cases h
          exact .clearedSessions i amb ht
      | clearRoutes =>
          cases h
          exact .clearedRoutes i amb ht
      | _ => exact .notifying _ i _ s' (.inl ⟨amb, rfl⟩) ht rfl (resume_notification rfl h)
  | snapshot i clients =>
      simp only [step] at h
      split at h
      · next n ht =>
          split at h
          · cases h
            refine .notifying _ i _ _ (.inr ⟨clients, rfl⟩) ht rfl ?_
            exact s.notifying_goto i _ [.snapshot i clients] rfl
              (by simp [Obs.IsNotifying]) rfl
          · cases h
      · cases h
  | cleanup =>
      cases h
      exact .cleanup
  | elapse d =>
      cases h
      exact .elapsed d

/-! ## What a step does to the maps -/

theorem requests_append_notifying {s : State S} {i : Nat} {os : List (Obs S)}
    (hos : ∀ o ∈ os, o.IsNotifying s i) (log : List (Obs S)) :
    requests (os ++ log) = requests log := by
  have hnone : requests os = [] := by
    refine List.filterMap_eq_nil_iff.2 fun o ho ↦ ?_
    have hnot := hos o ho
    cases o <;> first | rfl | cases hnot
  rw [requests_append, hnone, List.nil_append]

theorem Notifying.requests_eq {s s' : State S} {i : Nat} (h : Notifying s i s') :
    requests s'.log = requests s.log := by
  obtain ⟨os, hlog, hos⟩ := h.log
  rw [hlog, requests_append_notifying hos]

/-- The maps after a step: as they were, or changed by one of six writes. -/
inductive MapStep (server : NostrServerTransport S) (s : State S) :
    Table String ClientSession → Table String String → List IncomingRequest → Prop
  | unchanged : MapStep server s s.sessions s.eventToClient (requests s.log)
  | tracked (event : S.Event) (r : IncomingRequest) (h : server.accept event = .ok r) :
      MapStep server s (trackSessions s.now r s.sessions) (trackRoutes r s.eventToClient)
        (r :: requests s.log)
  | cleanedSession (e c : String) :
      MapStep server s (cleanSession e c s.sessions) s.eventToClient (requests s.log)
  | cleanedRoute (e : String) :
      MapStep server s s.sessions (s.eventToClient.erase e) (requests s.log)
  | expired : MapStep server s (keptSessions s.now server.config.sessionTimeout s.sessions)
      (Table.eraseAll (expiredKeys s.now server.config.sessionTimeout s.sessions)
        s.eventToClient) (requests s.log)
  | clearedSessions : MapStep server s ∅ s.eventToClient (requests s.log)
  | clearedRoutes : MapStep server s s.sessions ∅ (requests s.log)

theorem Transition.maps {s s' : State S} {a : Action S} (h : Transition server s a s') :
    MapStep server s s'.sessions s'.eventToClient (requests s'.log) := by
  cases h with
  | tracked event r h => exact .tracked event r h
  | cleanedSession i amb e c => exact .cleanedSession e c
  | cleanedRoute i amb e => exact .cleanedRoute e
  | cleanup => exact .expired
  | clearedSessions => exact .clearedSessions
  | clearedRoutes => exact .clearedRoutes
  | notifying _ i task s' _ _ _ h =>
      rw [h.sessions, h.eventToClient, h.requests_eq]
      exact .unchanged
  | _ => exact .unchanged

/-! ## The log -/

/-- A step only adds to the log. -/
theorem Transition.log_suffix {s s' : State S} {a : Action S} (h : Transition server s a s') :
    s.log <:+ s'.log := by
  cases h with
  | notifying a i task s' ha ht hn hnot =>
      obtain ⟨os, hlog, -⟩ := hnot.log
      rw [hlog]
      exact List.suffix_append _ _
  | refused | cleanup | elapsed | cleanedSession | clearedSessions => exact List.suffix_refl _
  | _ => exact List.suffix_cons _ _

theorem run_log_suffix {s s' : State S} {as : List (Action S)}
    (hrun : run (step server) s as = some s') : s.log <:+ s'.log :=
  run_invariant _ (fun _ _ _ hm hstep ↦ List.IsSuffix.trans hm (step_transition hstep).log_suffix)
    (List.suffix_refl _) hrun

/-! ## What a step logs -/

/-- What a step adds to the log. -/
inductive Logs (server : NostrServerTransport S) (s : State S) :
    Action S → State S → Obs S → Prop
  | forwarded (event : S.Event) (r : IncomingRequest) (h : server.accept event = .ok r) :
      Logs server s (.receive event) (s.track event r) (.forwarded event r)
  | called (op : Operation) : Logs server s (.call op) (s.call op) (.called s.calls op)
  | foundClient (i : Nat) (amb : Ambient S) (e c : String) (s' : State S)
      (hc : s.eventToClient.lookup e = some c) :
      Logs server s (.resume i amb) s' (.foundClient i e c)
  | foundSession (i : Nat) (amb : Ambient S) (c : String) (session : ClientSession)
      (s' : State S) (hs : s.sessions.lookup c = some session) :
      Logs server s (.resume i amb) s' (.foundSession i c session)
  | responded (i : Nat) (amb : Ambient S) (e : String) (response : JsonRpcMessage) (c : String)
      (enc : Bool) (p : Publication S) (s' : State S)
      (hp : server.publishResponse amb e c response enc = .ok p) :
      Logs server s (.resume i amb) s' (.responded i e p)
  | cleanedRoute (i : Nat) (amb : Ambient S) (e : String)
      (ht : s.tasks.lookup i = some (.response e .cleanRoute)) :
      Logs server s (.resume i amb)
        ({ s with eventToClient := s.eventToClient.erase e }.finish i (.ok ()))
        (.returned i (.ok ()))
  | clearedRoutes (i : Nat) (amb : Ambient S) (ht : s.tasks.lookup i = some .clearRoutes) :
      Logs server s (.resume i amb) ({ s with eventToClient := ∅ }.finish i (.ok ()))
        (.returned i (.ok ()))
  | failed (i : Nat) (amb : Ambient S) (e : String) (next : ResponseStep) (err : Error)
      (ht : s.tasks.lookup i = some (.response e next)) (hn : next.isCleanup = false) :
      Logs server s (.resume i amb) (s.finish i (.error err)) (.returned i (.error err))
  | notifying (a : Action S) (i : Nat) (task : Task) (s' : State S) (o : Obs S)
      (ha : (∃ amb, a = .resume i amb) ∨ ∃ clients, a = .snapshot i clients)
      (ht : s.tasks.lookup i = some task) (hn : task.isNotification) (h : Notifying s i s')
      (ho : o.IsNotifying s i) : Logs server s a s' o

/-- What the log tells of is not new, or the step has added it. -/
theorem Transition.logs {s s' : State S} {a : Action S} (h : Transition server s a s')
    {o : Obs S} (hmem : o ∈ s'.log) : o ∈ s.log ∨ Logs server s a s' o := by
  have hcons : ∀ {o'}, o ∈ o' :: s.log → Logs server s a s' o' →
      o ∈ s.log ∨ Logs server s a s' o := by
    intro o' hmem hlogs
    rcases List.mem_cons.1 hmem with rfl | hold
    · exact .inr hlogs
    · exact .inl hold
  cases h with
  | refused | cleanup | elapsed | cleanedSession | clearedSessions => exact .inl hmem
  | tracked event r h => exact hcons hmem (.forwarded event r h)
  | called op => exact hcons hmem (.called op)
  | foundClient i amb e response c ht hc => exact hcons hmem (.foundClient i amb e c _ hc)
  | foundSession i amb e response c session ht hs =>
      exact hcons hmem (.foundSession i amb c session _ hs)
  | responded i amb e response c enc p ht hp =>
      exact hcons hmem (.responded i amb e response c enc p _ hp)
  | cleanedRoute i amb e ht => exact hcons hmem (.cleanedRoute i amb e ht)
  | clearedRoutes i amb ht => exact hcons hmem (.clearedRoutes i amb ht)
  | failed i amb e next err ht hn => exact hcons hmem (.failed i amb e next err ht hn)
  | notifying a i task s' ha ht hn h =>
      obtain ⟨os, hlog, hos⟩ := h.log
      rcases List.mem_append.1 (hlog ▸ hmem) with hnew | hold
      · exact .inr (.notifying a i task s' o ha ht hn h (hos o hnew))
      · exact .inl hold

theorem Transition.log_forwarded {s s' : State S} {a : Action S}
    (h : Transition server s a s') {event : S.Event} {r : IncomingRequest}
    (hmem : .forwarded event r ∈ s'.log) :
    .forwarded event r ∈ s.log ∨ a = .receive event ∧ server.accept event = .ok r := by
  refine (h.logs hmem).imp_right fun hnew ↦ ?_
  cases hnew with
  | forwarded _ _ hacc => exact ⟨rfl, hacc⟩
  | notifying _ _ _ _ _ _ _ _ _ ho => exact ho.elim

/-- What the loop has forwarded it has made of an event it received. -/
theorem forwarded_of_run {s s' : State S} {as : List (Action S)} {event : S.Event}
    {r : IncomingRequest} (hrun : run (step server) s as = some s')
    (hmem : .forwarded event r ∈ s'.log) :
    .forwarded event r ∈ s.log ∨ .receive event ∈ as ∧ server.accept event = .ok r := by
  induction as generalizing s with
  | nil =>
      cases hrun
      exact .inl hmem
  | cons a as ih =>
      obtain ⟨m, hm, hrest⟩ := (run_cons_eq_some _).1 hrun
      rcases ih hrest with hlog | ⟨hact, hacc⟩
      · rcases (step_transition hm).log_forwarded hlog with hlog | ⟨rfl, hacc⟩
        · exact .inl hlog
        · exact .inr ⟨List.mem_cons_self, hacc⟩
      · exact .inr ⟨List.mem_cons_of_mem _ hact, hacc⟩

theorem forwarded_of_run_init {s : State S} {as : List (Action S)} {event : S.Event}
    {r : IncomingRequest} (hrun : run (step server) .init as = some s)
    (hmem : .forwarded event r ∈ s.log) :
    .receive event ∈ as ∧ server.accept event = .ok r := by
  rcases forwarded_of_run hrun hmem with h | h
  · cases h
  · exact h

/-! ## Where published notifications come from -/

/-- A notification of the log is not new, or a notifying call has made its step. -/
theorem Transition.log_notified {s s' : State S} {a : Action S} (h : Transition server s a s')
    {i : Nat} {p : Publication S} (hmem : .notified i p ∈ s'.log) :
    .notified i p ∈ s.log ∨ ∃ j task, s.tasks.lookup j = some task ∧
      task.isNotification = true ∧ ((∃ amb, a = .resume j amb) ∨ ∃ cs, a = .snapshot j cs) := by
  refine (h.logs hmem).imp_right fun hnew ↦ ?_
  cases hnew with
  | notifying _ j task _ _ ha ht hn => exact ⟨j, task, ht, hn, ha⟩

/-- The notifications that a notifying call has published. -/
theorem resume_notified {amb : Ambient S} {s s' : State S} {i j : Nat} {task : Task}
    {p : Publication S} (hn : task.isNotification)
    (h : resume server amb s i task = some s') (hmem : .notified j p ∈ s'.log) :
    .notified j p ∈ s.log ∨ ∃ c n correlated enc,
      server.publishNotification amb c n correlated enc = .ok p := by
  cases task with
  | notification c n correlated next =>
      cases next with
      | findSession =>
          simp only [resume] at h
          split at h <;> cases h <;> exact .inl (by simpa [State.observe, State.goto,
            State.finish] using hmem)
      | publish enc =>
          simp only [resume] at h
          split at h
          · next p' hp =>
              cases h
              rcases List.mem_cons.1 hmem with heq | hmem
              · cases heq
              · rcases List.mem_cons.1 hmem with heq | hmem
                · cases heq
                  exact .inr ⟨c, n, correlated, enc, hp⟩
                · exact .inl hmem
          · cases h
            exact .inl (by simpa [State.finish] using hmem)
  | snapshot n => cases h
  | broadcast n clients next =>
      cases clients with
      | nil =>
          cases h
          exact .inl (by simpa [State.finish] using hmem)
      | cons c cs =>
          cases next with
          | findSession =>
              simp only [resume] at h
              split at h <;> cases h <;> exact .inl (by simpa [State.observe,
                State.goto] using hmem)
          | publish enc =>
              simp only [resume] at h
              split at h
              · next p' hp =>
                  cases h
                  rcases List.mem_cons.1 hmem with heq | hmem
                  · cases heq
                    exact .inr ⟨c, n, none, enc, hp⟩
                  · exact .inl hmem
              · cases h
                exact .inl hmem
  | _ => cases hn

/-- A notification of the log is not new, or the step has published it. -/
theorem step_notified {s s' : State S} {a : Action S} (h : step server s a = some s')
    {i : Nat} {p : Publication S} (hmem : .notified i p ∈ s'.log) :
    .notified i p ∈ s.log ∨ ∃ amb c n correlated enc,
      server.publishNotification amb c n correlated enc = .ok p := by
  rcases (step_transition h).log_notified hmem with
    hold | ⟨j, task, ht, hn, ⟨amb, rfl⟩ | ⟨clients, rfl⟩⟩
  · exact .inl hold
  · obtain ⟨task', ht', h⟩ := Option.bind_eq_some_iff.1 h
    cases ht.symm.trans ht'
    rcases resume_notified hn h hmem with hold | hnew
    · exact .inl hold
    · exact .inr ⟨amb, hnew⟩
  · simp only [step] at h
    split at h
    · split at h
      · cases h
        exact .inl (by simpa [State.observe, State.goto] using hmem)
      · cases h
    · cases h

/-! ## Reachable states -/

/-- Some run leads here from the start. -/
def Reachable (server : NostrServerTransport S) (s : State S) : Prop :=
  Reaches (step server) .init s

theorem Reachable.init : Reachable server (.init : State S) := .refl _ _

theorem Reachable.step {s s' : State S} {a : Action S} (h : Reachable server s)
    (hstep : Server.step server s a = some s') : Reachable server s' :=
  Reaches.tail _ h hstep

/-- What holds at the start and is kept by every step from a reachable state holds in every
reachable state. -/
theorem Reachable.induct (I : State S → Prop) (hinit : I .init)
    (hstep : ∀ s a s', Reachable server s → I s → Transition server s a s' → I s')
    {s : State S} (h : Reachable server s) : I s :=
  Reaches.induct _ h I hinit fun m a m' hm hI hm' ↦ hstep m a m' hm hI (step_transition hm')

/-- The same for what is about the two maps and the forwarded requests only. -/
theorem Reachable.induct_maps
    (I : Table String ClientSession → Table String String → List IncomingRequest → Prop)
    (hinit : I ∅ ∅ [])
    (hstep : ∀ s sessions eventToClient rs, Reachable server s →
      I s.sessions s.eventToClient (requests s.log) →
      MapStep server s sessions eventToClient rs → I sessions eventToClient rs)
    {s : State S} (h : Reachable server s) :
    I s.sessions s.eventToClient (requests s.log) := by
  apply h.induct (fun s ↦ I s.sessions s.eventToClient (requests s.log)) hinit
  intro s a s' hs hI htrans
  exact hstep s _ _ _ hs hI htrans.maps

/-- The same for what is about each session and its client. -/
theorem Reachable.induct_sessions (I : String → ClientSession → List IncomingRequest → Prop)
    (htrack : ∀ now r rs old?, (∀ old, old? = some old → I r.clientPubkey old rs) →
      I r.clientPubkey ((old?.getD (.new now r.isEncrypted)).track now r) (r :: rs))
    (hother : ∀ c session r rs, c ≠ r.clientPubkey → I c session rs → I c session (r :: rs))
    (hforget : ∀ c session e rs, I c session rs → I c (session.forget e) rs)
    {s : State S} (h : Reachable server s) :
    ∀ c session, s.sessions.lookup c = some session → I c session (requests s.log) := by
  refine h.induct_maps (fun sessions _ rs ↦ ∀ c session, sessions.lookup c = some session →
    I c session rs) ?_ ?_
  · intro c session hl
    cases hl
  · intro s sessions _ rs _ ih hmap c session hl
    cases hmap with
    | unchanged | cleanedRoute | clearedRoutes => exact ih c session hl
    | tracked event r hacc =>
        rw [lookup_trackSessions] at hl
        by_cases hc : c = r.clientPubkey
        · rw [if_pos hc, Option.some.injEq] at hl
          rw [hc, ← hl]
          exact htrack s.now r _ _ (ih r.clientPubkey)
        · rw [if_neg hc] at hl
          exact hother c session r _ hc (ih c session hl)
    | cleanedSession e c' =>
        rw [lookup_cleanSession] at hl
        by_cases hc : c = c'
        · rw [if_pos hc] at hl
          obtain ⟨session', hl', rfl⟩ := Option.map_eq_some_iff.1 hl
          rw [hc]
          exact hforget c' session' e _ (ih c' session' hl')
        · rw [if_neg hc] at hl
          exact ih c session hl
    | expired => exact ih c session (lookup_keptSessions.1 hl).1
    | clearedSessions => cases hl

theorem Reachable.accept_of_mem {s : State S} (h : Reachable server s) {r : IncomingRequest}
    (hr : r ∈ requests s.log) : ∃ event read, Accepted server event r read := by
  obtain ⟨as, has⟩ := h
  obtain ⟨event, hmem⟩ := mem_requests.1 hr
  exact ⟨event, accept_ok (forwarded_of_run_init has hmem).2⟩

/-- The hex string of a client is that of a key, so parsing it loses nothing. -/
theorem Reachable.toHex_of_fromHex (hS : S.Lawful) {s : State S} (h : Reachable server s)
    {r : IncomingRequest} (hr : r ∈ requests s.log) {key : S.PublicKey}
    (hkey : S.fromHex r.clientPubkey = .ok key) : S.toHex key = r.clientPubkey := by
  obtain ⟨event, read, hread⟩ := h.accept_of_mem hr
  rw [hread.client, hS.fromHex_toHex, Except.ok.injEq] at hkey
  rw [← hkey, hread.client]

end ContextVM.Server
