import ContextVM.Transport.Server.Steps

/-!
# What the log says about a call

A call of `send_response` reads a route, then a session, and publishes.  These are three
moments of the run, and between them the maps can change.  The log lets one speak of each of
them: `routeMoment i` and `sessionMoment i` are the logs as they were when the call `i` read
the route and the session.

* `Reachable.explained`: what a call publishes is determined by what it has read;
* `each_foundClient`, `each_foundSession`: what holds of the maps in every reachable state
  held of what a call read, at the moment it read it.
-/

namespace ContextVM.Server

open Lib NostrServerTransport

variable {S : Sdk} {server : NostrServerTransport S}

/-! ## The observations of one call -/

/-- The call an observation belongs to. -/
def Obs.call? : Obs S → Option Nat
  | .forwarded .. => none
  | .called i _ | .foundClient i .. | .foundSession i .. | .snapshot i _ | .responded i ..
  | .notified i _ | .returned i _ => some i

/-- How the call `i` was made. -/
def Obs.called? (i : Nat) : Obs S → Option Operation
  | .called j op => if j = i then some op else none
  | _ => none

/-- The route the call `i` read. -/
def Obs.foundClient? (i : Nat) : Obs S → Option (String × String)
  | .foundClient j e c => if j = i then some (e, c) else none
  | _ => none

/-- The session the call `i` read. -/
def Obs.foundSession? (i : Nat) : Obs S → Option (String × ClientSession)
  | .foundSession j c session => if j = i then some (c, session) else none
  | _ => none

/-- The log at the moment the call `i` read the route. -/
def routeMoment (i : Nat) (log : List (Obs S)) : Option (List (Obs S)) :=
  (rewind (Obs.foundClient? i) log).map Prod.snd

/-- The log at the moment the call `i` read the session. -/
def sessionMoment (i : Nat) (log : List (Obs S)) : Option (List (Obs S)) :=
  (rewind (Obs.foundSession? i) log).map Prod.snd

theorem routeMoment_suffix {i : Nat} {log h : List (Obs S)} (hm : routeMoment i log = some h) :
    h <:+ log := by
  obtain ⟨_, hread, rfl⟩ := Option.map_eq_some_iff.1 hm
  exact rewind_suffix hread

theorem Obs.called?_of_call? {i : Nat} (o : Obs S) (h : o.call? ≠ some i) :
    o.called? i = none := by
  cases o <;> simp_all [Obs.call?, Obs.called?]

theorem Obs.foundClient?_of_call? {i : Nat} (o : Obs S) (h : o.call? ≠ some i) :
    o.foundClient? i = none := by
  cases o <;> simp_all [Obs.call?, Obs.foundClient?]

theorem Obs.foundSession?_of_call? {i : Nat} (o : Obs S) (h : o.call? ≠ some i) :
    o.foundSession? i = none := by
  cases o <;> simp_all [Obs.call?, Obs.foundSession?]

theorem Obs.IsNotifying.call?_eq {s : State S} {i : Nat} {o : Obs S}
    (h : o.IsNotifying s i) : o.call? = some i := by
  cases o <;> simp_all [Obs.IsNotifying, Obs.call?]

/-! ## The calls under way -/

/-- The action is one of the call `i`: it makes the call, or its next step. -/
def Action.IsOf (i : Nat) (s : State S) : Action S → Prop
  | .call _ => s.calls = i
  | .resume j _ | .snapshot j _ => j = i
  | _ => False

/-- What a step makes known of a call, the call's own action makes known. -/
theorem Transition.log_isOf {s s' : State S} {a : Action S} (h : Transition server s a s') :
    ∃ os : List (Obs S), s'.log = os ++ s.log ∧
      ∀ o ∈ os, ∀ i, o.call? = some i → a.IsOf i s := by
  cases h with
  | tracked event r => exact ⟨[.forwarded event r], rfl, by simp [Obs.call?]⟩
  | called op => exact ⟨[.called s.calls op], rfl, by simp [Obs.call?, Action.IsOf]⟩
  | foundClient i amb e response c =>
      exact ⟨[.foundClient i e c], rfl, by simp [Obs.call?, Action.IsOf]⟩
  | foundSession i amb e response c session =>
      exact ⟨[.foundSession i c session], rfl, by simp [Obs.call?, Action.IsOf]⟩
  | responded i amb e response c enc p =>
      exact ⟨[.responded i e p], rfl, by simp [Obs.call?, Action.IsOf]⟩
  | cleanedRoute i | clearedRoutes i =>
      exact ⟨[.returned i (.ok ())], rfl, by simp [Obs.call?, Action.IsOf]⟩
  | failed i amb e next err =>
      exact ⟨[.returned i (.error err)], rfl, by simp [Obs.call?, Action.IsOf]⟩
  | notifying a i task s' ha ht hn hnot =>
      obtain ⟨os, hlog, hos⟩ := hnot.log
      refine ⟨os, hlog, fun o ho j hj ↦ ?_⟩
      obtain rfl : i = j := Option.some.inj ((hos o ho).call?_eq.symm.trans hj)
      rcases ha with ⟨amb, rfl⟩ | ⟨cs, rfl⟩ <;> rfl
  | _ => exact ⟨[], rfl, by simp⟩

theorem Task.isResponse_of_isNotification {task : Task} (h : task.isNotification = true) :
    task.isResponse = false ∧ task.isClose = false := by
  cases task <;> first | exact ⟨rfl, rfl⟩ | cases h

/-- A call under way was under way before the step, as a call of the same kind, or it has just
been made. -/
theorem Transition.task_before {s s' : State S} {a : Action S} (h : Transition server s a s')
    {j : Nat} {task : Task} (hj : s'.tasks.lookup j = some task) :
    (∃ task', s.tasks.lookup j = some task' ∧ task'.isResponse = task.isResponse ∧
      task'.isClose = task.isClose) ∨
    ∃ op, a = .call op ∧ s.Admits op ∧ s' = s.call op ∧ j = s.calls ∧ task = .start op := by
  have hgoto : ∀ {i : Nat} {old new : Task}, s.tasks.lookup i = some old →
      (s.tasks.insert i new).lookup j = some task → old.isResponse = new.isResponse →
      old.isClose = new.isClose → ∃ task', s.tasks.lookup j = some task' ∧
        task'.isResponse = task.isResponse ∧ task'.isClose = task.isClose := by
    intro i old new hi hj hresp hclose
    rw [Table.lookup_insert_eq] at hj
    split at hj
    · next hji =>
        cases hj
        exact ⟨old, hji ▸ hi, hresp, hclose⟩
    · exact ⟨task, hj, rfl, rfl⟩
  have hfinish : ∀ {i : Nat}, (s.tasks.erase i).lookup j = some task →
      ∃ task', s.tasks.lookup j = some task' ∧
        task'.isResponse = task.isResponse ∧ task'.isClose = task.isClose := by
    exact fun hj ↦ ⟨task, (Table.lookup_erase_eq_some.1 hj).2, rfl, rfl⟩
  cases h with
  | called op hop =>
      rw [State.lookup_call] at hj
      split at hj
      · next hji =>
          cases hj
          exact .inr ⟨op, rfl, hop, rfl, hji, rfl⟩
      · exact .inl ⟨task, hj, rfl, rfl⟩
  | notifying a i old s' ha hi hn hnot =>
      left
      by_cases hji : j = i
      · subst hji
        obtain ⟨hr, hc⟩ := Task.isResponse_of_isNotification hn
        obtain ⟨hr', hc'⟩ := Task.isResponse_of_isNotification (hnot.own task hj)
        exact ⟨old, hi, by rw [hr, hr'], by rw [hc, hc']⟩
      · exact ⟨task, hnot.others j hji ▸ hj, rfl, rfl⟩
  | foundClient i amb e response c ht | foundSession i amb e response c session ht
  | responded i amb e response c enc p ht | cleanedSession i amb e c ht
  | clearedSessions i amb ht => exact .inl (hgoto ht hj rfl rfl)
  | failed | cleanedRoute | clearedRoutes => exact .inl (hfinish hj)
  | _ => exact .inl ⟨task, hj, rfl, rfl⟩

/-- A call stays where it is unless the action is its own. -/
theorem Transition.lookup_tasks_eq {s s' : State S} {a : Action S}
    (h : Transition server s a s') {i : Nat} (ha : ¬ a.IsOf i s) :
    s'.tasks.lookup i = s.tasks.lookup i := by
  cases h with
  | called op => exact (State.lookup_call ..).trans (if_neg (Ne.symm ha))
  | foundClient | foundSession | responded | cleanedSession | clearedSessions =>
      exact (State.lookup_goto ..).trans (if_neg (Ne.symm ha))
  | cleanedRoute | clearedRoutes | failed =>
      exact (State.lookup_finish ..).trans (if_neg (Ne.symm ha))
  | notifying a j task s' hact ht hn hnot =>
      apply hnot.others
      rintro rfl
      rcases hact with ⟨amb, rfl⟩ | ⟨cs, rfl⟩ <;> exact ha rfl
  | _ => rfl

theorem Transition.calls_le {s s' : State S} {a : Action S} (h : Transition server s a s') :
    s.calls ≤ s'.calls := by
  cases h with
  | called op hop => exact Nat.le_succ _
  | notifying a i task s' ha ht hn hnot => exact hnot.calls.ge
  | _ => exact le_refl _

/-- The name of the next call is new. -/
theorem Reachable.task_lt_calls {s : State S} (hs : Reachable server s) :
    ∀ i task, s.tasks.lookup i = some task → i < s.calls := by
  apply hs.induct (fun s ↦ ∀ i task, s.tasks.lookup i = some task → i < s.calls)
  · intro i task hi
    cases hi
  · intro s a s' _ ih htrans i task hi
    rcases htrans.task_before hi with ⟨task', hi', -⟩ | ⟨op, -, -, rfl, rfl, -⟩
    · exact lt_of_lt_of_le (ih i task' hi') htrans.calls_le
    · exact Nat.lt_succ_self _

/-- `close` is called when no other call is under way. -/
theorem State.Admits.lookup_eq_none {s : State S} (h : s.Admits .close) (i : Nat) :
    s.tasks.lookup i = none := by
  have hkeys : s.tasks.keys = [] := h
  rw [AList.lookup_eq_none, AList.mem_keys, hkeys]
  exact List.not_mem_nil

/-- No call is made while the transport is being closed. -/
theorem State.Admits.isClose_eq {s : State S} {op : Operation} (h : s.Admits op) {i : Nat}
    {task : Task} (hi : s.tasks.lookup i = some task) : task.isClose = false := by
  cases op with
  | close =>
      rw [h.lookup_eq_none] at hi
      cases hi
  | _ => exact h ⟨i, task⟩ (AList.mem_lookup_iff.1 hi)

/-- While the transport is being closed no other call is under way. -/
theorem Reachable.close_alone {s : State S} (hs : Reachable server s) :
    ∀ i j task task', s.tasks.lookup i = some task → task.isClose = true →
      s.tasks.lookup j = some task' → j = i := by
  refine hs.induct (fun s ↦ ∀ i j task task', s.tasks.lookup i = some task →
    task.isClose = true → s.tasks.lookup j = some task' → j = i) ?_ ?_
  · intro i j task task' hi
    cases hi
  · intro s a s' _ ih htrans i j task task' hi hclose hj
    rcases htrans.task_before hi with ⟨told, hiold, -, hc⟩ | ⟨op, rfl, hop, rfl, rfl, rfl⟩
    · rcases htrans.task_before hj with ⟨told', hjold, -⟩ | ⟨op, rfl, hop, rfl, rfl, rfl⟩
      · exact ih i j told told' hiold (hc.trans hclose) hjold
      · rw [hop.isClose_eq hiold] at hc
        rw [← hc] at hclose
        cases hclose
    · cases op <;> cases hclose
      rcases htrans.task_before hj with ⟨told', hjold, -⟩ | ⟨-, -, -, -, rfl, -⟩
      · rw [hop.lookup_eq_none] at hjold
        cases hjold
      · rfl

/-! ## What a call has read -/

/-- What the log says about the call `i` of `send_response` at each of its steps. -/
def Recorded (log : List (Obs S)) (i : Nat) (e : String) : ResponseStep → Prop
  | .findClient response => latest (Obs.called? i) log = some (.sendResponse e response)
  | .findSession response c =>
    latest (Obs.called? i) log = some (.sendResponse e response) ∧
      latest (Obs.foundClient? i) log = some (e, c)
  | .publish restored c isEncrypted => ∃ response session,
    latest (Obs.called? i) log = some (.sendResponse e response) ∧
      latest (Obs.foundClient? i) log = some (e, c) ∧
      latest (Obs.foundSession? i) log = some (c, session) ∧
      restored = session.restore e response ∧ isEncrypted = session.isEncrypted
  | _ => True

/-- What the call `i` publishes is what it makes of what it has read. -/
def Explained (server : NostrServerTransport S) (log : List (Obs S)) (i : Nat) (e : String)
    (p : Publication S) : Prop :=
  ∃ response c session amb, latest (Obs.called? i) log = some (.sendResponse e response) ∧
    latest (Obs.foundClient? i) log = some (e, c) ∧
    latest (Obs.foundSession? i) log = some (c, session) ∧
    server.publishResponse amb e c (session.restore e response) session.isEncrypted = .ok p

/-- What other calls make known is no matter to the call `i`. -/
theorem Recorded.append {log os : List (Obs S)} {i : Nat} {e : String} {next : ResponseStep}
    (h : Recorded log i e next) (hos : ∀ o ∈ os, o.call? ≠ some i) :
    Recorded (os ++ log) i e next := by
  have hcalled : latest (Obs.called? i) (os ++ log) = latest (Obs.called? i) log :=
    latest_append_of_none fun o ho ↦ o.called?_of_call? (hos o ho)
  have hclient : latest (Obs.foundClient? i) (os ++ log) = latest (Obs.foundClient? i) log :=
    latest_append_of_none fun o ho ↦ o.foundClient?_of_call? (hos o ho)
  have hsession : latest (Obs.foundSession? i) (os ++ log) =
      latest (Obs.foundSession? i) log :=
    latest_append_of_none fun o ho ↦ o.foundSession?_of_call? (hos o ho)
  cases next <;> simp only [Recorded, hcalled, hclient, hsession] <;> exact h

/-- Every response of the log is explained by what precedes it. -/
def ResponsesExplained (server : NostrServerTransport S) (log : List (Obs S)) : Prop :=
  Each (fun o h ↦ ∀ i e p, o = .responded i e p → Explained server h i e p) log

/-- Observations that are no responses have nothing to explain. -/
theorem ResponsesExplained.append {log : List (Obs S)} (h : ResponsesExplained server log)
    (os : List (Obs S)) (hos : ∀ o ∈ os, ∀ i e p, o ≠ .responded i e p) :
    ResponsesExplained server (os ++ log) :=
  Each.append_of_forall h fun o ho _ i e p heq ↦ absurd heq (hos o ho i e p)

/-- The log is right about every call under way, and explains every response. -/
structure CallsRecorded (server : NostrServerTransport S) (s : State S) : Prop where
  task : ∀ i e next, s.tasks.lookup i = some (.response e next) → Recorded s.log i e next
  responded : ResponsesExplained server s.log

/-- A step of the call `i`: the other calls are where they were. -/
theorem CallsRecorded.of_step {s s' : State S} (h : CallsRecorded server s) (i : Nat)
    (os : List (Obs S)) (hlog : s'.log = os ++ s.log) (hos : ∀ o ∈ os, o.call? = some i)
    (hothers : ∀ j, j ≠ i → s'.tasks.lookup j = s.tasks.lookup j)
    (hown : ∀ e next, s'.tasks.lookup i = some (.response e next) → Recorded s'.log i e next)
    (hresp : ResponsesExplained server s'.log) : CallsRecorded server s' := by
  refine ⟨fun j e next hj ↦ ?_, hresp⟩
  by_cases hji : j = i
  · subst hji
    exact hown e next hj
  · rw [hlog]
    refine (h.task j e next (hothers j hji ▸ hj)).append ?_
    intro o ho hoj
    rw [hos o ho] at hoj
    exact hji (Option.some.inj hoj).symm

/-- A step that belongs to no call. -/
theorem CallsRecorded.of_tasks_eq {s s' : State S} (h : CallsRecorded server s)
    (os : List (Obs S)) (hlog : s'.log = os ++ s.log) (hos : ∀ o ∈ os, o.call? = none)
    (htasks : s'.tasks = s.tasks) : CallsRecorded server s' := by
  constructor
  · intro i e next hi
    rw [hlog]
    refine (h.task i e next (htasks ▸ hi)).append ?_
    intro o ho
    rw [hos o ho]
    nofun
  · rw [hlog]
    apply h.responded.append os
    rintro o ho i e p rfl
    cases hos _ ho

/-- A step of the call `i` that leads to `task`. -/
theorem CallsRecorded.of_goto {s s' : State S} (h : CallsRecorded server s) (i : Nat)
    (os : List (Obs S)) (task : Task) (hlog : s'.log = os ++ s.log)
    (hos : ∀ o ∈ os, o.call? = some i) (htasks : s'.tasks = s.tasks.insert i task)
    (hown : ∀ e next, task = .response e next → Recorded s'.log i e next)
    (hresp : ResponsesExplained server s'.log) : CallsRecorded server s' := by
  refine h.of_step i os hlog hos ?_ ?_ hresp
  · intro j hj
    rw [htasks, Table.lookup_insert_eq, if_neg hj]
  · intro e next hnext
    rw [htasks, Table.lookup_insert_eq, if_pos rfl, Option.some.injEq] at hnext
    exact hown e next hnext

/-- A step in which the call `i` returns. -/
theorem CallsRecorded.of_finish {s s' : State S} (h : CallsRecorded server s) (i : Nat)
    (result : Except Error Unit) (hlog : s'.log = .returned i result :: s.log)
    (htasks : s'.tasks = s.tasks.erase i) : CallsRecorded server s' := by
  refine h.of_step i [.returned i result] hlog (by simp [Obs.call?]) ?_ ?_ ?_
  · intro j hj
    rw [htasks, Table.lookup_erase_eq, if_neg hj]
  · intro e next hnext
    rw [htasks, Table.lookup_erase_eq, if_pos rfl] at hnext
    cases hnext
  · rw [hlog]
    exact h.responded.append [.returned i result] (by simp)

theorem CallsRecorded.transition {s s' : State S} {a : Action S} (h : CallsRecorded server s)
    (htrans : Transition server s a s') : CallsRecorded server s' := by
  cases htrans with
  | refused event why => exact h
  | tracked event r => exact h.of_tasks_eq [.forwarded event r] rfl (by simp [Obs.call?]) rfl
  | called op hop =>
      refine h.of_goto s.calls [.called s.calls op] (.start op) rfl (by simp [Obs.call?]) rfl
        ?_ (h.responded.append [_] (by simp))
      intro e next hnext
      cases op <;> cases hnext
      exact latest_cons_of_some (by simp [Obs.called?]) _
  | foundClient i amb e response c ht hc =>
      refine h.of_goto i [.foundClient i e c] _ rfl (by simp [Obs.call?]) rfl ?_
        (h.responded.append [_] (by simp))
      rintro e next ⟨⟩
      have hrec := h.task i e _ ht
      exact ⟨(latest_cons_of_none rfl _).trans hrec,
        latest_cons_of_some (by simp [Obs.foundClient?]) _⟩
  | foundSession i amb e response c session ht hs =>
      refine h.of_goto i [.foundSession i c session] _ rfl (by simp [Obs.call?]) rfl ?_
        (h.responded.append [_] (by simp))
      rintro e next ⟨⟩
      obtain ⟨hcalled, hclient⟩ := h.task i e _ ht
      exact ⟨response, session, (latest_cons_of_none rfl _).trans hcalled,
        (latest_cons_of_none rfl _).trans hclient,
        latest_cons_of_some (by simp [Obs.foundSession?]) _, rfl, rfl⟩
  | responded i amb e restored c enc p ht hp =>
      obtain ⟨response, session, hcalled, hclient, hsession, rfl, rfl⟩ := h.task i e _ ht
      refine h.of_goto i [.responded i e p] _ rfl (by simp [Obs.call?]) rfl ?_
        ⟨?_, h.responded⟩
      · rintro e next ⟨⟩
        trivial
      · rintro i e p ⟨⟩
        exact ⟨response, c, session, amb, hcalled, hclient, hsession, hp⟩
  | cleanedSession i amb e c ht =>
      refine h.of_goto i [] _ rfl (by simp) rfl ?_ h.responded
      rintro e next ⟨⟩
      trivial
  | cleanedRoute i amb e ht => exact h.of_finish i _ rfl rfl
  | failed i amb e next err ht hn => exact h.of_finish i _ rfl rfl
  | notifying a i task s' ha ht hn hnot =>
      obtain ⟨os, hlog, hos⟩ := hnot.log
      refine h.of_step i os hlog (fun o ho ↦ (hos o ho).call?_eq) hnot.others ?_ ?_
      · intro e next hnext
        cases hnot.own _ hnext
      · rw [hlog]
        apply h.responded.append os
        rintro o ho j e p rfl
        cases hos _ ho
  | clearedSessions i amb ht =>
      refine h.of_goto i [] _ rfl (by simp) rfl ?_ h.responded
      rintro e next ⟨⟩
  | clearedRoutes i amb ht => exact h.of_finish i _ rfl rfl
  | cleanup => exact h.of_tasks_eq [] rfl (by simp) rfl
  | elapsed d => exact h.of_tasks_eq [] rfl (by simp) rfl

theorem Reachable.callsRecorded {s : State S} (h : Reachable server s) :
    CallsRecorded server s := by
  refine h.induct (CallsRecorded server) ⟨?_, trivial⟩ ?_
  · intro i e next hi
    cases hi
  · intro s a s' _ hrec htrans
    exact hrec.transition htrans

/-- A response was made of what its call had read. -/
theorem Reachable.explained {s : State S} (hs : Reachable server s) {newer h : List (Obs S)}
    {i : Nat} {e : String} {p : Publication S}
    (hlog : s.log = newer ++ .responded i e p :: h) : Explained server h i e p := by
  have hresp := hs.callsRecorded.responded
  rw [ResponsesExplained, hlog] at hresp
  exact hresp.at i e p rfl

/-! ## What was read of the maps -/

/-- What holds of the routes in every reachable state holds of every route that was read, at
the moment it was read. -/
theorem Reachable.each_foundClient (F : String → String → List IncomingRequest → Prop)
    (hF : ∀ s : State S, Reachable server s → ∀ e c, s.eventToClient.lookup e = some c →
      F e c (requests s.log)) {s : State S} (hs : Reachable server s) :
    Each (fun o h ↦ ∀ i e c, o = .foundClient i e c → F e c (requests h)) s.log := by
  apply hs.induct (fun s ↦ Each _ s.log) trivial
  intro s a s' hs hE htrans
  cases htrans with
  | foundClient i amb e response c ht hc =>
      refine ⟨?_, hE⟩
      rintro i e c ⟨⟩
      exact hF s hs e c hc
  | notifying a i task s' ha ht hn hnot =>
      obtain ⟨os, hlog, hos⟩ := hnot.log
      rw [hlog]
      apply hE.append_of_forall
      rintro o ho h j e c rfl
      cases hos _ ho
  | refused | cleanup | elapsed | cleanedSession | clearedSessions => exact hE
  | _ => exact ⟨by simp, hE⟩

/-- The same of the sessions. -/
theorem Reachable.each_foundSession (F : String → ClientSession → List IncomingRequest → Prop)
    (hF : ∀ s : State S, Reachable server s → ∀ c session,
      s.sessions.lookup c = some session → F c session (requests s.log)) {s : State S}
    (hs : Reachable server s) :
    Each (fun o h ↦ ∀ i c session, o = .foundSession i c session →
      F c session (requests h)) s.log := by
  apply hs.induct (fun s ↦ Each _ s.log) trivial
  intro s a s' hs hE htrans
  cases htrans with
  | foundSession i amb e response c session ht hsession =>
      refine ⟨?_, hE⟩
      rintro i c session ⟨⟩
      exact hF s hs c session hsession
  | notifying a i task s' ha ht hn hnot =>
      obtain ⟨os, hlog, hos⟩ := hnot.log
      rw [hlog]
      clear hlog
      induction os with
      | nil => exact hE
      | cons o os ih =>
          have hos' : ∀ o ∈ os, o.IsNotifying s i := fun o ho ↦ hos o (.tail _ ho)
          rw [List.cons_append, each_cons]
          refine ⟨?_, ih hos'⟩
          rintro j c session rfl
          rw [requests_append_notifying hos']
          exact hF s hs c session (hos _ (.head _)).2
  | refused | cleanup | elapsed | cleanedSession | clearedSessions => exact hE
  | _ => exact ⟨by simp, hE⟩

end ContextVM.Server
