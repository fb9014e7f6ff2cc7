import ContextVM.Transport.Server.Isolation

/-!
# One answer for each request

A call of `send_response` reads the route of its event first and removes it last, and in
between it gives up every lock and waits for the network.  The route is what tells a later
call that the request has been answered; a call that reads it before it is removed answers
the request again.

`Holding` says that a call is between the two.  As long as a call reads the route of an
event only while no other holds it, there is one answer (`OneAnswer`).
-/

namespace ContextVM.Server

open Lib NostrServerTransport
open Symbolic (toolCall emptyResponse)

variable {S : Sdk} {server : NostrServerTransport S}

/-! ## What a step does to the calls for one event -/

/-- The steps of a call of `send_response` that come after it has read the route. -/
def ResponseStep.hasRoute : ResponseStep → Bool
  | .findClient _ => false
  | _ => true

/-- The call `i` has read the route of `e` and has not returned. -/
def Holding (s : State S) (e : String) (i : Nat) : Prop :=
  ∃ next, s.tasks.lookup i = some (.response e next) ∧ next.hasRoute = true

/-- The call `i` has published its response to `e` and has not returned. -/
def CleaningUp (s : State S) (e : String) (i : Nat) : Prop :=
  ∃ next, s.tasks.lookup i = some (.response e next) ∧ next.isCleanup = true

theorem CleaningUp.holding {s : State S} {e : String} {i : Nat} (h : CleaningUp s e i) :
    Holding s e i := by
  obtain ⟨next, hi, hnext⟩ := h
  refine ⟨next, hi, ?_⟩
  cases next <;> first | rfl | cases hnext

/-- A call comes to hold a route by reading it. -/
theorem Transition.holding_from {s s' : State S} {a : Action S} (h : Transition server s a s')
    {e : String} {j : Nat} (hj : Holding s' e j) :
    Holding s e j ∨ ∃ amb response c, a = .resume j amb ∧
      s.tasks.lookup j = some (.response e (.findClient response)) ∧
      s.eventToClient.lookup e = some c := by
  obtain ⟨next, hj, hnext⟩ := hj
  have hgoto : ∀ {i : Nat} {e' : String} {old new : ResponseStep},
      s.tasks.lookup i = some (.response e' old) → old.hasRoute = true →
      (s.tasks.insert i (.response e' new)).lookup j = some (.response e next) →
      Holding s e j := by
    intro i e' old new hi hold hj
    rw [Table.lookup_insert_eq] at hj
    split at hj
    · next hji =>
        cases hj
        exact ⟨old, hji ▸ hi, hold⟩
    · exact ⟨next, hj, hnext⟩
  have hfinish : ∀ {i : Nat}, (s.tasks.erase i).lookup j = some (.response e next) →
      Holding s e j := by
    exact fun hj ↦ ⟨next, (Table.lookup_erase_eq_some.1 hj).2, hnext⟩
  cases h with
  | called op hop =>
      rw [State.lookup_call] at hj
      split at hj
      · cases op <;> cases hj
        cases hnext
      · exact .inl ⟨next, hj, hnext⟩
  | foundClient i amb e' response c ht hc =>
      rw [State.lookup_goto] at hj
      split at hj
      · next hji =>
          cases hj
          exact .inr ⟨amb, response, c, by rw [hji], hji ▸ ht, hc⟩
      · exact .inl ⟨next, hj, hnext⟩
  | foundSession i amb e' response c session ht hsession => exact .inl (hgoto ht rfl hj)
  | responded i amb e' response c enc p ht hp => exact .inl (hgoto ht rfl hj)
  | cleanedSession i amb e' c ht => exact .inl (hgoto ht rfl hj)
  | notifying a i task s' ha ht hn hnot =>
      by_cases hji : j = i
      · cases hnot.own _ (hji ▸ hj)
      · exact .inl ⟨next, hnot.others j hji ▸ hj, hnext⟩
  | clearedSessions i amb ht =>
      rw [State.lookup_goto] at hj
      split at hj
      · cases hj
      · exact .inl ⟨next, hj, hnext⟩
  | failed | cleanedRoute | clearedRoutes => exact .inl (hfinish hj)
  | _ => exact .inl ⟨next, hj, hnext⟩

/-- A call under way is where it was, or makes its own step. -/
theorem Transition.task_kept {s s' : State S} {a : Action S} (h : Transition server s a s')
    (hs : Reachable server s) {j : Nat} {task : Task} (hj : s.tasks.lookup j = some task) :
    s'.tasks.lookup j = some task ∨ (∃ amb, a = .resume j amb) ∨ ∃ cs, a = .snapshot j cs := by
  have hother : ∀ {i : Nat} {amb : Ambient S},
      (j ≠ i → s'.tasks.lookup j = s.tasks.lookup j) →
        s'.tasks.lookup j = some task ∨ (∃ amb', Action.resume i amb = .resume j amb') ∨
          ∃ cs, Action.resume i amb = .snapshot j cs := by
    intro i amb hkept
    by_cases hji : j = i
    · exact .inr (.inl ⟨amb, by rw [hji]⟩)
    · exact .inl ((hkept hji).trans hj)
  cases h with
  | called op hop =>
      left
      rw [State.lookup_call, if_neg (Nat.ne_of_lt (hs.task_lt_calls j task hj))]
      exact hj
  | notifying a i task' s' ha ht hn hnot =>
      by_cases hji : j = i
      · subst hji
        exact .inr ha
      · exact .inl ((hnot.others j hji).trans hj)
  | foundClient | foundSession | responded | cleanedSession | clearedSessions =>
      apply hother
      intro hji
      exact (State.lookup_goto ..).trans (if_neg hji)
  | failed | cleanedRoute | clearedRoutes =>
      apply hother
      intro hji
      exact (State.lookup_finish ..).trans (if_neg hji)
  | _ => exact .inl hj

/-- A call that has published ends by removing the route. -/
theorem cleaningUp_until {s s' : State S} {a : Action S} (hs : Reachable server s)
    (hstep : step server s a = some s') {e : String} {j : Nat} (hj : CleaningUp s e j) :
    CleaningUp s' e j ∨ s'.eventToClient.lookup e = none ∧ s'.tasks = s.tasks.erase j := by
  obtain ⟨next, hj, hnext⟩ := hj
  rcases (step_transition hstep).task_kept hs hj with hkept | ⟨amb, rfl⟩ | ⟨cs, rfl⟩
  · exact .inl ⟨next, hkept, hnext⟩
  · simp only [step, hj, Option.bind_some] at hstep
    cases next with
    | cleanSession c =>
        cases hstep
        exact .inl ⟨.cleanRoute, State.lookup_goto_self .., rfl⟩
    | cleanRoute =>
        cases hstep
        exact .inr ⟨AList.lookup_erase .., rfl⟩
    | _ => cases hnext
  · simp [step, hj] at hstep

/-! ## Requests, routes and answers -/

/-- A request has arrived as the event `e`. -/
def Requested (e : String) (rs : List IncomingRequest) : Prop :=
  ∃ r ∈ rs, r.message.isRequest = true ∧ r.eventId = e

theorem Requested.of_suffix {e : String} {h log : List (Obs S)} (hr : Requested e (requests h))
    (hsuf : h <:+ log) : Requested e (requests log) := by
  obtain ⟨r, hr, h'⟩ := hr
  exact ⟨r, mem_requests_of_suffix hsuf hr, h'⟩

theorem Reachable.requested_of_route {s : State S} (hs : Reachable server s) {e c : String}
    (h : s.eventToClient.lookup e = some c) : Requested e (requests s.log) := by
  obtain ⟨r, hr, -⟩ := hs.route_latest e c h
  exact ⟨r, lastRequest_eq_some hr⟩

/-- A call that holds a route is about a request. -/
theorem Reachable.requested_of_holding {s : State S} (hs : Reachable server s) {e : String}
    {i : Nat} (h : Holding s e i) : Requested e (requests s.log) := by
  refine hs.induct (fun s ↦ Holding s e i → Requested e (requests s.log)) ?_ ?_ h
  · rintro ⟨next, hi, -⟩
    cases hi
  · intro s a s' hs ih htrans hi
    rcases htrans.holding_from hi with hold | ⟨amb, response, c, -, -, hc⟩
    · exact (ih hold).of_suffix htrans.log_suffix
    · exact (hs.requested_of_route hc).of_suffix htrans.log_suffix

/-- A route is new if a request has just been accepted. -/
theorem Transition.route_from {s s' : State S} {a : Action S} (h : Transition server s a s')
    {e c : String} (hc : s'.eventToClient.lookup e = some c) :
    s.eventToClient.lookup e = some c ∨ ∃ event r, a = .receive event ∧
      server.accept event = .ok r ∧ r.message.isRequest = true ∧ r.eventId = e := by
  cases h with
  | tracked event r hacc =>
      rw [State.lookup_eventToClient_track] at hc
      split at hc
      · next hreq => exact .inr ⟨event, r, rfl, hacc, hreq.1, hreq.2.symm⟩
      · exact .inl hc
  | cleanedRoute i amb e' ht =>
      exact .inl (Table.lookup_erase_eq_some.1 hc).2
  | cleanup => exact .inl (State.lookup_eventToClient_cleanup_eq_some.1 hc).2
  | clearedRoutes => cases hc
  | notifying a i task s' ha ht hn hnot => exact .inl (hnot.eventToClient ▸ hc)
  | _ => exact .inl hc

/-- The call that has answered the request `e`. -/
def Obs.answerer? (e : String) : Obs S → Option Nat
  | .responded i e' _ => if e' = e then some i else none
  | _ => none

/-- The calls that have answered the request `e`. -/
def answerers (e : String) (log : List (Obs S)) : List Nat := log.filterMap (Obs.answerer? e)

theorem mem_answerers {e : String} {i : Nat} {log : List (Obs S)} :
    i ∈ answerers e log ↔ ∃ p, .responded i e p ∈ log := by
  simp only [answerers, List.mem_filterMap]
  constructor
  · rintro ⟨o, ho, hi⟩
    cases o <;> simp only [Obs.answerer?, reduceCtorEq, Option.ite_none_right_eq_some,
      Option.some.injEq] at hi
    obtain ⟨rfl, rfl⟩ := hi
    exact ⟨_, ho⟩
  · rintro ⟨p, h⟩
    exact ⟨_, h, if_pos rfl⟩

theorem answerers_append_of_forall {e : String} {os log : List (Obs S)}
    (hos : ∀ o ∈ os, ∀ i e p, o ≠ .responded i e p) :
    answerers e (os ++ log) = answerers e log := by
  have hnone : answerers e os = [] := by
    refine List.filterMap_eq_nil_iff.2 fun o ho ↦ ?_
    have hnot := hos o ho
    cases o <;> first | rfl | exact absurd rfl (hnot _ _ _)
  rw [answerers, List.filterMap_append]
  exact (congrArg (· ++ _) hnone).trans (List.nil_append _)

/-- A call answers by the step from `publish` to `cleanSession`. -/
theorem Transition.answerers_eq {s s' : State S} {a : Action S} (h : Transition server s a s')
    (e : String) : answerers e s'.log = answerers e s.log ∨
      ∃ i response c enc, s.tasks.lookup i = some (.response e (.publish response c enc)) ∧
        answerers e s'.log = i :: answerers e s.log ∧ CleaningUp s' e i := by
  cases h with
  | responded i amb e' response c enc p ht hp =>
      by_cases he : e' = e
      · subst he
        refine .inr ⟨i, response, c, enc, ht, ?_, .cleanSession c, ?_, rfl⟩
        · exact List.filterMap_cons_some (if_pos rfl)
        · exact State.lookup_goto_self ..
      · exact .inl (List.filterMap_cons_none (if_neg he))
  | notifying a i task s' ha ht hn hnot =>
      left
      obtain ⟨os, hlog, hos⟩ := hnot.log
      rw [hlog]
      apply answerers_append_of_forall
      rintro o ho j e' p rfl
      cases hos _ ho
  | refused | cleanup | elapsed | cleanedSession | clearedSessions => exact .inl rfl
  | _ => exact .inl (List.filterMap_cons_none rfl)

/-! ## What a call returns -/

/-- A call of `send_response` that returns `Ok` has published its response. -/
structure Outcomes (s : State S) : Prop where
  fresh : ∀ o ∈ s.log, ∀ i, o.call? = some i → i < s.calls
  kind : ∀ i e response task, .called i (.sendResponse e response) ∈ s.log →
    s.tasks.lookup i = some task → ∃ next, task = .response e next
  cleanup : ∀ i e, CleaningUp s e i → i ∈ answerers e s.log
  ok : ∀ i e response, .called i (.sendResponse e response) ∈ s.log →
    .returned i (.ok ()) ∈ s.log → i ∈ answerers e s.log

theorem mem_answerers_of_suffix {h log : List (Obs S)} (hsuf : h <:+ log) {e : String} {i : Nat}
    (hi : i ∈ answerers e h) : i ∈ answerers e log :=
  (hsuf.sublist.filterMap _).subset hi

/-- A step of the call `i` that answers nothing, and returns `Ok` to a call of `send_response`
only if that has answered. -/
theorem Outcomes.of_step {s s' : State S} (h : Outcomes s) (i : Nat) {old : Task}
    (hi : s.tasks.lookup i = some old) (hlt : i < s.calls) (os : List (Obs S))
    (hcalls : s'.calls = s.calls) (hlog : s'.log = os ++ s.log)
    (hos : ∀ o ∈ os, o.call? = some i ∧ ∀ op, o ≠ .called i op)
    (hothers : ∀ j, j ≠ i → s'.tasks.lookup j = s.tasks.lookup j)
    (hown : ∀ task, s'.tasks.lookup i = some task → ∀ e next, old = .response e next →
      ∃ next', task = .response e next')
    (hclean : ∀ e, CleaningUp s' e i → i ∈ answerers e s'.log)
    (hok : .returned i (.ok ()) ∈ os → ∀ e next, old = .response e next →
      i ∈ answerers e s.log) : Outcomes s' := by
  have hsuf : s.log <:+ s'.log := hlog ▸ List.suffix_append os s.log
  have hcalled : ∀ j op, .called j op ∈ s'.log → .called j op ∈ s.log := by
    intro j op hmem
    rcases List.mem_append.1 (hlog ▸ hmem) with hmem | hmem
    · obtain ⟨hcall, hnot⟩ := hos _ hmem
      cases hcall
      exact absurd rfl (hnot op)
    · exact hmem
  refine ⟨fun o ho j hj ↦ ?_, fun j e response task hmem hj ↦ ?_, fun j e hj ↦ ?_,
    fun j e response hmem hret ↦ ?_⟩
  · rw [hcalls]
    rcases List.mem_append.1 (hlog ▸ ho) with ho | ho
    · rw [(hos o ho).1] at hj
      cases hj
      exact hlt
    · exact h.fresh o ho j hj
  · have hmem := hcalled j _ hmem
    by_cases hji : j = i
    · subst hji
      obtain ⟨next, hold⟩ := h.kind j e response old hmem hi
      exact hown task hj e next hold
    · exact h.kind j e response task hmem (hothers j hji ▸ hj)
  · by_cases hji : j = i
    · subst hji
      exact hclean e hj
    · obtain ⟨next, hj, hnext⟩ := hj
      exact mem_answerers_of_suffix hsuf (h.cleanup j e ⟨next, hothers j hji ▸ hj, hnext⟩)
  · have hmem := hcalled j _ hmem
    apply mem_answerers_of_suffix hsuf
    rcases List.mem_append.1 (hlog ▸ hret) with hret | hret
    · cases (hos _ hret).1
      obtain ⟨next, hold⟩ := h.kind _ e response old hmem hi
      exact hok hret e next hold
    · exact h.ok j e response hmem hret

/-- A step that belongs to no call. -/
theorem Outcomes.of_tasks_eq {s s' : State S} (h : Outcomes s) (os : List (Obs S))
    (hcalls : s'.calls = s.calls) (hlog : s'.log = os ++ s.log)
    (hos : ∀ o ∈ os, o.call? = none) (htasks : s'.tasks = s.tasks) : Outcomes s' := by
  have hsuf : s.log <:+ s'.log := hlog ▸ List.suffix_append os s.log
  have hmem : ∀ o ∈ s'.log, ∀ i, o.call? = some i → o ∈ s.log := by
    intro o ho i hi
    rcases List.mem_append.1 (hlog ▸ ho) with ho | ho
    · rw [hos o ho] at hi
      cases hi
    · exact ho
  refine ⟨fun o ho i hi ↦ ?_, fun i e response task hcalled hi ↦ ?_, fun i e hi ↦ ?_,
    fun i e response hcalled hret ↦ ?_⟩
  · exact hcalls ▸ h.fresh o (hmem o ho i hi) i hi
  · exact h.kind i e response task (hmem _ hcalled i rfl) (htasks ▸ hi)
  · obtain ⟨next, hi, hnext⟩ := hi
    exact mem_answerers_of_suffix hsuf (h.cleanup i e ⟨next, htasks ▸ hi, hnext⟩)
  · exact mem_answerers_of_suffix hsuf
      (h.ok i e response (hmem _ hcalled i rfl) (hmem _ hret i rfl))

theorem Outcomes.call {s : State S} (h : Outcomes s) (op : Operation) :
    Outcomes (s.call op) := by
  have hold : ∀ o ∈ (s.call op).log, (∃ op, o = .called s.calls op) ∨ o ∈ s.log := by
    intro o ho
    rcases List.mem_cons.1 ho with rfl | ho
    · exact .inl ⟨op, rfl⟩
    · exact .inr ho
  refine ⟨fun o ho i hi ↦ ?_, fun i e response task hcalled hi ↦ ?_, fun i e hi ↦ ?_,
    fun i e response hcalled hret ↦ ?_⟩
  · rcases hold o ho with ⟨op', rfl⟩ | ho
    · cases hi
      exact Nat.lt_succ_self _
    · exact Nat.lt_succ_of_lt (h.fresh o ho i hi)
  · rw [State.lookup_call] at hi
    rcases List.mem_cons.1 hcalled with heq | hcalled
    · cases heq
      rw [if_pos rfl] at hi
      cases hi
      exact ⟨_, rfl⟩
    · have hne : i ≠ s.calls := Nat.ne_of_lt (h.fresh _ hcalled i rfl)
      rw [if_neg hne] at hi
      exact h.kind i e response task hcalled hi
  · obtain ⟨next, hi, hnext⟩ := hi
    rw [State.lookup_call] at hi
    split at hi
    · cases op <;> cases hi
      cases hnext
    · exact h.cleanup i e ⟨next, hi, hnext⟩
  · have hreturned : .returned i (.ok ()) ∈ s.log := by
      rcases hold _ hret with ⟨op', hop⟩ | hret
      · cases hop
      · exact hret
    have hlt : i < s.calls := h.fresh _ hreturned i rfl
    rcases List.mem_cons.1 hcalled with heq | hcalled
    · cases heq
      exact absurd hlt (Nat.lt_irrefl _)
    · exact h.ok i e response hcalled hreturned

/-- A step of a call of `send_response` that leads to another. -/
theorem Outcomes.of_goto {s s' : State S} (h : Outcomes s) {i : Nat} {e : String}
    {old : ResponseStep} (hi : s.tasks.lookup i = some (.response e old)) (hlt : i < s.calls)
    (new : ResponseStep) (os : List (Obs S)) (hcalls : s'.calls = s.calls)
    (hlog : s'.log = os ++ s.log)
    (hos : ∀ o ∈ os, o.call? = some i ∧ (∀ op, o ≠ .called i op) ∧ ∀ r, o ≠ .returned i r)
    (htasks : s'.tasks = s.tasks.insert i (.response e new))
    (hclean : new.isCleanup = true → i ∈ answerers e s'.log) : Outcomes s' := by
  have hown : s'.tasks.lookup i = some (.response e new) := by
    rw [htasks, Table.lookup_insert_eq, if_pos rfl]
  refine h.of_step i hi hlt os hcalls hlog (fun o ho ↦ ⟨(hos o ho).1, (hos o ho).2.1⟩) ?_ ?_ ?_ ?_
  · intro j hj
    rw [htasks, Table.lookup_insert_eq, if_neg hj]
  · rintro task hj e' next ⟨⟩
    cases hown.symm.trans hj
    exact ⟨new, rfl⟩
  · rintro e' ⟨next, hj, hnext⟩
    cases hown.symm.trans hj
    exact hclean hnext
  · intro hret
    exact absurd rfl ((hos _ hret).2.2 _)

/-- A step in which a call returns. -/
theorem Outcomes.of_finish {s s' : State S} (h : Outcomes s) {i : Nat} {old : Task}
    (hi : s.tasks.lookup i = some old) (hlt : i < s.calls) (result : Except Error Unit)
    (hcalls : s'.calls = s.calls) (hlog : s'.log = .returned i result :: s.log)
    (htasks : s'.tasks = s.tasks.erase i)
    (hok : result = .ok () → ∀ e next, old = .response e next → i ∈ answerers e s.log) :
    Outcomes s' := by
  have hown : s'.tasks.lookup i = none := by
    rw [htasks, Table.lookup_erase_eq, if_pos rfl]
  refine h.of_step i hi hlt [.returned i result] hcalls hlog (by simp [Obs.call?]) ?_ ?_ ?_ ?_
  · intro j hj
    rw [htasks, Table.lookup_erase_eq, if_neg hj]
  · intro task hj
    cases hown.symm.trans hj
  · rintro e ⟨next, hj, -⟩
    cases hown.symm.trans hj
  · intro hret
    rcases List.mem_singleton.1 hret with ⟨⟩
    exact hok rfl

theorem Outcomes.transition {s s' : State S} {a : Action S} (h : Outcomes s)
    (hs : Reachable server s) (htrans : Transition server s a s') : Outcomes s' := by
  have hlt : ∀ {i : Nat} {task : Task}, s.tasks.lookup i = some task → i < s.calls :=
    fun hi ↦ hs.task_lt_calls _ _ hi
  cases htrans with
  | refused => exact h
  | tracked event r hacc =>
      exact h.of_tasks_eq [.forwarded event r] rfl rfl (by simp [Obs.call?]) rfl
  | called op hop => exact h.call op
  | foundClient i amb e response c ht hc =>
      refine h.of_goto ht (hlt ht) _ [.foundClient i e c] rfl rfl (by simp [Obs.call?]) rfl ?_
      rintro ⟨⟩
  | foundSession i amb e response c session ht hsession =>
      refine h.of_goto ht (hlt ht) _ [.foundSession i c session] rfl rfl
        (by simp [Obs.call?]) rfl ?_
      rintro ⟨⟩
  | responded i amb e response c enc p ht hp =>
      refine h.of_goto ht (hlt ht) _ [.responded i e p] rfl rfl (by simp [Obs.call?]) rfl ?_
      exact fun _ ↦ mem_answerers.2 ⟨p, List.mem_cons_self⟩
  | cleanedSession i amb e c ht =>
      refine h.of_goto ht (hlt ht) .cleanRoute [] rfl rfl (by simp) rfl ?_
      exact fun _ ↦ h.cleanup i e ⟨_, ht, rfl⟩
  | cleanedRoute i amb e ht =>
      refine h.of_finish ht (hlt ht) _ rfl rfl rfl ?_
      rintro - e' next ⟨⟩
      exact h.cleanup i e ⟨_, ht, rfl⟩
  | failed i amb e next err ht hn =>
      refine h.of_finish ht (hlt ht) (.error err) rfl rfl rfl ?_
      rintro ⟨⟩
  | notifying a i task s' ha ht hn hnot =>
      obtain ⟨os, hlog, hos⟩ := hnot.log
      refine h.of_step i ht (hlt ht) os hnot.calls hlog ?_ hnot.others ?_ ?_ ?_
      · refine fun o ho ↦ ⟨(hos o ho).call?_eq, ?_⟩
        rintro op rfl
        cases hos _ ho
      · rintro task' _ e next rfl
        cases hn
      · rintro e ⟨next, hi, -⟩
        cases hnot.own _ hi
      · rintro _ e next rfl
        cases hn
  | clearedSessions i amb ht =>
      refine h.of_step i ht (hlt ht) [] rfl rfl (by simp) ?_ ?_ ?_ ?_
      · intro j hj
        exact (State.lookup_goto ..).trans (if_neg hj)
      · rintro task - e next ⟨⟩
      · rintro e ⟨next, hi, -⟩
        rw [State.lookup_goto_self] at hi
        cases hi
      · rintro - e next ⟨⟩
  | clearedRoutes i amb ht =>
      refine h.of_finish ht (hlt ht) _ rfl rfl rfl ?_
      rintro - e next ⟨⟩
  | cleanup => exact h.of_tasks_eq [] rfl rfl (by simp) rfl
  | elapsed d => exact h.of_tasks_eq [] rfl rfl (by simp) rfl

theorem Outcomes.init : Outcomes (.init : State S) where
  fresh o ho := absurd ho List.not_mem_nil
  kind i e response task hcalled := absurd hcalled List.not_mem_nil
  cleanup i e h := by
    obtain ⟨next, hi, -⟩ := h
    cases hi
  ok i e response hcalled := absurd hcalled List.not_mem_nil

theorem Reachable.outcomes {s : State S} (hs : Reachable server s) : Outcomes s :=
  hs.induct Outcomes .init fun _ _ _ hs h htrans ↦ h.transition hs htrans

/-! ## One answer -/

/-- A call reads a route only while no other call holds it. -/
def ReadsRouteAlone (e : String) (s : State S) : Action S → Prop
  | .resume i _ => ∀ response c, s.tasks.lookup i = some (.response e (.findClient response)) →
      s.eventToClient.lookup e = some c → ∀ j, ¬ Holding s e j
  | _ => True

/-- No request arrives as the event `e` when one has. -/
def ReceivesOnce (server : NostrServerTransport S) (e : String) (s : State S) :
    Action S → Prop
  | .receive event => ∀ r, server.accept event = .ok r → r.message.isRequest = true →
      r.eventId = e → ¬ Requested e (requests s.log)
  | _ => True

/-- At most one call has answered the request `e`, and no other call has returned `Ok`. -/
def OneAnswer (e : String) (log : List (Obs S)) : Prop :=
  (answerers e log).length ≤ 1 ∧ ∀ i response, .called i (.sendResponse e response) ∈ log →
    .returned i (.ok ()) ∈ log → i ∈ answerers e log

/-- One call at most holds the route of `e`.  When the request has been answered, it is the
call that has, or the route is gone. -/
structure Single (e : String) (s : State S) : Prop where
  alone : ∀ i j, Holding s e i → Holding s e j → i = j
  answered : answerers e s.log = [] ∨ ∃ i, answerers e s.log = [i] ∧
    Requested e (requests s.log) ∧
      (CleaningUp s e i ∨ s.eventToClient.lookup e = none ∧ ∀ j, ¬ Holding s e j)

/-- Who comes to hold the route is the only one. -/
theorem ReadsRouteAlone.holding_from {e : String} {s s' : State S} {a : Action S}
    (h : ReadsRouteAlone e s a) (htrans : Transition server s a s') {i : Nat}
    (hi : Holding s' e i) : Holding s e i ∨ (∃ amb, a = .resume i amb) ∧
      (∃ c, s.eventToClient.lookup e = some c) ∧ ∀ j, ¬ Holding s e j := by
  rcases htrans.holding_from hi with hold | ⟨amb, response, c, rfl, ht, hc⟩
  · exact .inl hold
  · exact .inr ⟨⟨amb, rfl⟩, ⟨c, hc⟩, h response c ht hc⟩

/-- The route of a request that has arrived and will not arrive again does not come back. -/
theorem ReceivesOnce.route_none {e : String} {s s' : State S} {a : Action S}
    (h : ReceivesOnce server e s a) (htrans : Transition server s a s')
    (hreq : Requested e (requests s.log)) (hnone : s.eventToClient.lookup e = none) :
    s'.eventToClient.lookup e = none := by
  by_contra hsome
  obtain ⟨c, hc⟩ := Option.ne_none_iff_exists'.1 hsome
  rcases htrans.route_from hc with hold | ⟨event, r, rfl, hacc, hr, hid⟩
  · rw [hnone] at hold
    cases hold
  · exact h r hacc hr hid hreq

theorem Single.alone_step {e : String} {s s' : State S} {a : Action S} (h : Single e s)
    (halone : ReadsRouteAlone e s a) (htrans : Transition server s a s') {i j : Nat}
    (hi : Holding s' e i) (hj : Holding s' e j) : i = j := by
  rcases halone.holding_from htrans hi with hi | ⟨⟨amb, ha⟩, -, hnone⟩
  · rcases halone.holding_from htrans hj with hj | ⟨-, -, hnone⟩
    · exact h.alone i j hi hj
    · exact absurd hi (hnone i)
  · rcases halone.holding_from htrans hj with hj | ⟨⟨amb', ha'⟩, -, -⟩
    · exact absurd hj (hnone j)
    · cases ha.symm.trans ha'
      rfl

/-- The call that has answered the request ends, and nobody comes after it. -/
theorem Single.answered_step {e : String} {s s' : State S} {a : Action S} (h : Single e s)
    (hs : Reachable server s) (honce : ReceivesOnce server e s a)
    (halone : ReadsRouteAlone e s a) (hstep : step server s a = some s')
    (hreq : Requested e (requests s.log)) {i : Nat}
    (hi : CleaningUp s e i ∨ s.eventToClient.lookup e = none ∧ ∀ j, ¬ Holding s e j) :
    CleaningUp s' e i ∨ s'.eventToClient.lookup e = none ∧ ∀ j, ¬ Holding s' e j := by
  have htrans := step_transition hstep
  rcases hi with hclean | ⟨hroute, hnone⟩
  · rcases cleaningUp_until hs hstep hclean with hclean' | ⟨hroute, htasks⟩
    · exact .inl hclean'
    · refine .inr ⟨hroute, fun j hj ↦ ?_⟩
      rcases halone.holding_from htrans hj with hold | ⟨-, -, hnone⟩
      · obtain rfl := h.alone j i hold hclean.holding
        obtain ⟨next, hj, -⟩ := hj
        rw [htasks, Table.lookup_erase_eq, if_pos rfl] at hj
        cases hj
      · exact hnone i hclean.holding
  · refine .inr ⟨honce.route_none htrans hreq hroute, fun j hj ↦ ?_⟩
    rcases halone.holding_from htrans hj with hold | ⟨-, ⟨c, hc⟩, -⟩
    · exact hnone j hold
    · rw [hroute] at hc
      cases hc

theorem Single.step {e : String} {s s' : State S} {a : Action S} (h : Single e s)
    (hs : Reachable server s) (honce : ReceivesOnce server e s a)
    (halone : ReadsRouteAlone e s a) (hstep : Server.step server s a = some s') :
    Single e s' := by
  have htrans := step_transition hstep
  refine ⟨fun i j ↦ h.alone_step halone htrans, ?_⟩
  rcases htrans.answerers_eq e with heq | ⟨i, response, c, enc, ht, heq, hclean⟩
  · rw [heq]
    rcases h.answered with hnil | ⟨i, hone, hreq, hi⟩
    · exact .inl hnil
    · exact .inr ⟨i, hone, hreq.of_suffix htrans.log_suffix,
        h.answered_step hs honce halone hstep hreq hi⟩
  · -- the call that answers holds the route, so no other call has answered
    have hholding : Holding s e i := ⟨_, ht, rfl⟩
    rw [heq]
    rcases h.answered with hnil | ⟨k, -, -, hclean' | ⟨-, hnone⟩⟩
    · rw [hnil]
      have hreq := hs.requested_of_holding hholding
      exact .inr ⟨i, rfl, hreq.of_suffix htrans.log_suffix, .inl hclean⟩
    · obtain rfl := h.alone k i hclean'.holding hholding
      obtain ⟨next, hk, hnext⟩ := hclean'
      cases hk.symm.trans ht
      cases hnext
    · exact absurd hholding (hnone i)

theorem single_of_run {e : String} {as : List (Action S)} {s : State S}
    (hrun : run (step server) .init as = some s)
    (honce : Always (step server) (ReceivesOnce server e) .init as)
    (halone : Always (step server) (ReadsRouteAlone e) .init as) : Single e s := by
  have hinit : Single e (.init : State S) := by
    refine ⟨?_, .inl rfl⟩
    rintro i j ⟨next, hi, -⟩
    cases hi
  exact (run_invariant_of_always (fun s ↦ Reachable server s ∧ Single e s)
    (fun s a s' h hP hstep ↦ ⟨h.1.step hstep, h.2.step h.1 hP.1 hP.2 hstep⟩)
    ⟨.init, hinit⟩ (honce.and halone) hrun).2

theorem Single.oneAnswer {e : String} {s : State S} (h : Single e s)
    (hs : Reachable server s) : OneAnswer e s.log := by
  refine ⟨?_, fun i response ↦ hs.outcomes.ok i e response⟩
  rcases h.answered with hnil | ⟨i, hone, -⟩
  · rw [hnil]
    exact Nat.zero_le 1
  · rw [hone]
    exact le_refl 1

/-- If the request arrives once, and calls for it read its route one after the other, then it
has one answer. -/
theorem one_answer {e : String} {as : List (Action S)} {s : State S}
    (hrun : run (step server) .init as = some s)
    (honce : Always (step server) (ReceivesOnce server e) .init as)
    (halone : Always (step server) (ReadsRouteAlone e) .init as) : OneAnswer e s.log := by
  have hs : Reachable server s := ⟨as, hrun⟩
  exact (single_of_run hrun honce halone).oneAnswer hs

/-- A request, its answer, and another call for it. -/
def answeredOnceRun : List (Action Symbolic.sdk) :=
  [.receive (Symbolic.message "A" 0 [] toolCall),
    .call (.sendResponse "A/25910/0" emptyResponse),
    .resume 0 (Symbolic.ambient 3), .resume 0 (Symbolic.ambient 3),
    .resume 0 (Symbolic.ambient 3), .resume 0 (Symbolic.ambient 3),
    .resume 0 (Symbolic.ambient 3),
    .call (.sendResponse "A/25910/0" emptyResponse), .resume 1 (Symbolic.ambient 4)]

def answeredOnceState : State Symbolic.sdk :=
  (run (step openServer) .init answeredOnceRun).get rfl

theorem receivesOnce_cons {as : List (Action Symbolic.sdk)}
    (has : ∀ a ∈ as, ∀ event, a ≠ .receive event) :
    Always (step openServer) (ReceivesOnce openServer "A/25910/0") .init
      (.receive (Symbolic.message "A" 0 [] toolCall) :: as) := by
  constructor
  · rintro r - - - ⟨r', hr', -⟩
    cases hr'
  · intro s _
    refine Always.of_mem fun a ha m ↦ ?_
    cases a with
    | receive event => exact absurd rfl (has _ ha event)
    | _ => trivial

theorem readsRouteAlone_answeredOnceRun :
    Always (step openServer) (ReadsRouteAlone "A/25910/0") .init answeredOnceRun := by
  refine ⟨trivial, ?_⟩
  rintro _ ⟨⟩
  refine ⟨trivial, ?_⟩
  rintro _ ⟨⟩
  constructor
  · -- the only call under way is the one that reads
    rintro response c - - j ⟨next, hj, hnext⟩
    rw [State.lookup_call] at hj
    split at hj
    · cases hj
      cases hnext
    · cases hj
  rintro _ ⟨⟩
  refine ⟨by rintro response c ⟨⟩, ?_⟩
  rintro _ ⟨⟩
  refine ⟨by rintro response c ⟨⟩, ?_⟩
  rintro _ ⟨⟩
  refine ⟨by rintro response c ⟨⟩, ?_⟩
  rintro _ ⟨⟩
  refine ⟨by rintro response c ⟨⟩, ?_⟩
  rintro _ ⟨⟩
  refine ⟨trivial, ?_⟩
  rintro _ ⟨⟩
  refine ⟨?_, fun _ _ ↦ trivial⟩
  rintro response c - ⟨⟩

theorem one_answer_answeredOnceState : OneAnswer "A/25910/0" answeredOnceState.log := by
  have hrun : run (step openServer) .init answeredOnceRun = some answeredOnceState := rfl
  exact one_answer hrun (receivesOnce_cons (by simp)) readsRouteAlone_answeredOnceRun

/-- A request, and two calls that read its route before either removes it. -/
def racingRun : List (Action Symbolic.sdk) :=
  [.receive (Symbolic.message "A" 0 [] toolCall),
    .call (.sendResponse "A/25910/0" emptyResponse),
    .call (.sendResponse "A/25910/0" emptyResponse),
    .resume 0 (Symbolic.ambient 3), .resume 1 (Symbolic.ambient 4),
    .resume 0 (Symbolic.ambient 3), .resume 1 (Symbolic.ambient 4),
    .resume 0 (Symbolic.ambient 3), .resume 1 (Symbolic.ambient 4),
    .resume 0 (Symbolic.ambient 3), .resume 1 (Symbolic.ambient 4),
    .resume 0 (Symbolic.ambient 3), .resume 1 (Symbolic.ambient 4)]

def racingState : State Symbolic.sdk := (run (step openServer) .init racingRun).get rfl

/-- Two calls can answer one request, and both return `Ok`. -/
theorem answered_twice :
    run (step openServer) .init racingRun = some racingState ∧
      Always (step openServer) (ReceivesOnce openServer "A/25910/0") .init racingRun ∧
      answerers "A/25910/0" racingState.log = [1, 0] ∧
      .returned 0 (.ok ()) ∈ racingState.log ∧ .returned 1 (.ok ()) ∈ racingState.log ∧
      ¬ OneAnswer "A/25910/0" racingState.log := by
  have hanswers : answerers "A/25910/0" racingState.log = [1, 0] := rfl
  refine ⟨rfl, receivesOnce_cons (by simp), hanswers, .tail _ (.head _), .head _, ?_⟩
  rintro ⟨hle, -⟩
  rw [hanswers] at hle
  exact absurd hle (by decide)

end ContextVM.Server
