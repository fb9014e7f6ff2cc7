import ContextVM.Transport.Server.Delivery

/-!
# A response that fails leaves no trace

Every step of `send_response` that can fail comes before every removal, and a call that has
published can only succeed.  So a call that returns an error has written neither map.  More
than that: delete the actions of the call from the run, and number the later calls anew.
What is left is a run too, and it ends in the same maps and has published the same messages.
-/

namespace ContextVM.Server

open Lib NostrServerTransport
open Symbolic (toolCall emptyResponse)

variable {S : Sdk} {server : NostrServerTransport S}

/-! ## What a call of `send_response` can return -/

/-- No call is made twice. -/
theorem Reachable.called_unique {s : State S} (hs : Reachable server s) :
    ∀ i op op', .called i op ∈ s.log → .called i op' ∈ s.log → op = op' := by
  refine hs.induct (fun s ↦ ∀ i op op', .called i op ∈ s.log → .called i op' ∈ s.log →
    op = op') (fun _ _ _ h ↦ absurd h List.not_mem_nil) ?_
  intro s a s' hs ih htrans i op op' hop hop'
  have hold : i ≠ s.calls → op = op' := fun hi ↦
    ih i op op' ((htrans.log_called hop).resolve_right hi)
      ((htrans.log_called hop').resolve_right hi)
  by_cases hi : i = s.calls
  · subst hi
    -- the call is new, so the step is the one that makes it
    have hfresh : ∀ op, .called s.calls op ∉ s.log := fun op hmem ↦
      absurd (hs.outcomes.fresh _ hmem _ rfl) (Nat.lt_irrefl _)
    cases htrans with
    | called op₀ hadm =>
        rcases List.mem_cons.1 hop with h | h
        · rcases List.mem_cons.1 hop' with h' | h'
          · cases h
            cases h'
            rfl
          · exact absurd h' (hfresh _)
        · exact absurd h (hfresh _)
    | notifying a j task s' ha ht hn hnot =>
        obtain ⟨os, hlog, hos⟩ := hnot.log
        rcases List.mem_append.1 (hlog ▸ hop) with h | h
        · cases hos _ h
        · exact absurd h (hfresh _)
    | refused | cleanup | elapsed | cleanedSession | clearedSessions =>
        exact absurd hop (hfresh _)
    | _ =>
        rcases List.mem_cons.1 hop with h | h
        · cases h
        · exact absurd h (hfresh _)
  · exact hold hi

/-- A call under way has been made, and is of the kind it was made as. -/
theorem Reachable.called_of_task {s : State S} (hs : Reachable server s) :
    ∀ i task, s.tasks.lookup i = some task →
      ∃ op, .called i op ∈ s.log ∧ (Task.start op).isResponse = task.isResponse := by
  refine hs.induct (fun s ↦ ∀ i task, s.tasks.lookup i = some task →
    ∃ op, .called i op ∈ s.log ∧ (Task.start op).isResponse = task.isResponse) ?_ ?_
  · rintro i task ⟨⟩
  · intro s a s' _ ih htrans i task ht
    rcases htrans.task_before ht with ⟨told, htold, hkind, -⟩ | ⟨op, -, -, rfl, rfl, rfl⟩
    · obtain ⟨op, hmem, hop⟩ := ih i told htold
      exact ⟨op, htrans.log_suffix.subset hmem, hop.trans hkind⟩
    · exact ⟨op, List.mem_cons_self, rfl⟩

/-- A result that the log tells of is not new, or belongs to a call that has just ended or
that sends notifications. -/
theorem Transition.returned_from {s s' : State S} {a : Action S}
    (h : Transition server s a s') {i : Nat} {r : Except Error Unit}
    (hmem : .returned i r ∈ s'.log) : .returned i r ∈ s.log ∨
      ∃ task, s.tasks.lookup i = some task ∧
        (∀ task', s'.tasks.lookup i = some task' → task'.isResponse = false) ∧
        ∀ err, r = .error err → ∀ e next, task = .response e next → next.isCleanup = false := by
  have hgone : ∀ {s₀ : State S} {r₀ : Except Error Unit} {task' : Task},
      (s₀.finish i r₀).tasks.lookup i = some task' → task'.isResponse = false := by
    intro s₀ r₀ task' ht
    rw [State.lookup_finish_self] at ht
    cases ht
  refine (h.logs hmem).imp_right fun hnew ↦ ?_
  cases hnew with
  | failed _ amb e next err ht hn =>
      refine ⟨_, ht, fun _ ↦ hgone, ?_⟩
      rintro _ - e' next' ⟨⟩
      exact hn
  | cleanedRoute _ amb e ht =>
      refine ⟨_, ht, fun _ ↦ hgone, ?_⟩
      rintro err ⟨⟩
  | clearedRoutes _ amb ht =>
      refine ⟨_, ht, fun _ ↦ hgone, ?_⟩
      rintro err ⟨⟩
  | notifying _ j task _ _ _ ht hn hnot ho =>
      obtain rfl : i = j := ho
      refine ⟨task, ht, fun task' ht' ↦ ?_, ?_⟩
      · exact (Task.isResponse_of_isNotification (hnot.own task' ht')).1
      · rintro err - e next rfl
        cases hn

/-- A call of `send_response` returns once, and after it has published it does not fail. -/
structure Settled (s : State S) : Prop where
  returned : ∀ i r task, .returned i r ∈ s.log → s.tasks.lookup i = some task →
    task.isResponse = false
  underWay : ∀ i e task, i ∈ answerers e s.log → s.tasks.lookup i = some task →
    CleaningUp s e i
  answered : ∀ i e err, i ∈ answerers e s.log → .returned i (.error err) ∉ s.log

theorem Settled.step {s s' : State S} {a : Action S} (h : Settled s) (hs : Reachable server s)
    (hstep : Server.step server s a = some s') : Settled s' := by
  have htrans := step_transition hstep
  have hs' := hs.step hstep
  have hreturned : ∀ i r task, .returned i r ∈ s'.log → s'.tasks.lookup i = some task →
      task.isResponse = false := by
    intro i r task hr ht
    rcases htrans.returned_from hr with hr | ⟨-, -, hend, -⟩
    · rcases htrans.task_before ht with ⟨told, htold, hkind, -⟩ | ⟨op, -, -, -, rfl, -⟩
      · exact hkind ▸ h.returned i r told hr htold
      · exact absurd (hs.outcomes.fresh _ hr _ rfl) (Nat.lt_irrefl _)
    · exact hend task ht
  have hold : ∀ i e task, i ∈ answerers e s.log → s'.tasks.lookup i = some task →
      CleaningUp s' e i := by
    intro i e task hi ht
    rcases htrans.task_before ht with ⟨told, htold, -⟩ | ⟨op, -, -, -, rfl, -⟩
    · rcases cleaningUp_until hs hstep (h.underWay i e told hi htold) with hclean | ⟨-, htasks⟩
      · exact hclean
      · rw [htasks, AList.lookup_erase] at ht
        cases ht
    · obtain ⟨p, hmem⟩ := mem_answerers.1 hi
      exact absurd (hs.outcomes.fresh _ hmem _ rfl) (Nat.lt_irrefl _)
  have hnew : ∀ i e, i ∈ answerers e s'.log → i ∈ answerers e s.log ∨ CleaningUp s' e i := by
    intro i e hi
    rcases htrans.answerers_eq e with heq | ⟨j, response, c, enc, htj, heq, hclean⟩
    · exact .inl (heq ▸ hi)
    · rcases List.mem_cons.1 (heq ▸ hi) with rfl | hi
      · exact .inr hclean
      · exact .inl hi
  refine ⟨hreturned, fun i e task hi ht ↦ ?_, fun i e err hi hr ↦ ?_⟩
  · exact (hnew i e hi).elim (fun hi ↦ hold i e task hi ht) fun hclean ↦ hclean
  · rcases hnew i e hi with hi | ⟨next, ht, -⟩
    · rcases htrans.returned_from hr with hr | ⟨task, ht, -, hfail⟩
      · exact h.answered i e err hi hr
      · obtain ⟨next, ht', hclean⟩ := h.underWay i e task hi ht
        cases ht.symm.trans ht'
        rw [hfail err rfl e next rfl] at hclean
        cases hclean
    · cases hreturned i _ _ hr ht

theorem Reachable.settled {s : State S} (hs : Reachable server s) : Settled s := by
  refine Reaches.induct _ hs Settled ⟨?_, ?_, ?_⟩ fun _ _ _ hm h hstep ↦ h.step hm hstep
  · intro i r task hr
    exact absurd hr List.not_mem_nil
  · intro i e task hi
    exact absurd hi List.not_mem_nil
  · intro i e err hi
    exact absurd hi List.not_mem_nil

theorem Transition.calls_eq {s s' : State S} {a : Action S} (h : Transition server s a s')
    (ha : ∀ op, a ≠ .call op) : s'.calls = s.calls := by
  cases h with
  | called op hop => exact absurd rfl (ha op)
  | notifying a i task s' hact ht hn hnot => exact hnot.calls
  | _ => rfl

/-! ## A run without one of its calls -/

/-- The number of the call `j` when the call `i` is left out. -/
def leave (i j : Nat) : Nat := if j ≤ i then j else j - 1

/-- The number that the call `j` of a run without the call `i` has in the run with it. -/
def back (i j : Nat) : Nat := if j < i then j else j + 1

theorem eq_leave_iff {i j k : Nat} (hj : j ≠ i) : k = leave i j ↔ back i k = j := by
  unfold leave back
  split <;> split <;> omega

theorem back_ne (i k : Nat) : back i k ≠ i := by
  unfold back
  split <;> omega

/-- Give the calls other numbers. -/
def Obs.rename (f : Nat → Nat) : Obs S → Obs S
  | .forwarded event r => .forwarded event r
  | .called i op => .called (f i) op
  | .foundClient i e c => .foundClient (f i) e c
  | .foundSession i c session => .foundSession (f i) c session
  | .snapshot i cs => .snapshot (f i) cs
  | .responded i e p => .responded (f i) e p
  | .notified i p => .notified (f i) p
  | .returned i r => .returned (f i) r

/-- An observation of the run without the call `i`. -/
def Obs.withoutCall (i : Nat) (o : Obs S) : Option (Obs S) :=
  if o.call? = some i then none else some (o.rename (leave i))

theorem Obs.withoutCall_of_ne {i : Nat} {o : Obs S} (ho : o.call? ≠ some i) :
    o.withoutCall i = some (o.rename (leave i)) := if_neg ho

/-- The actions without those of the call `i`.  Before them `n` calls have been made. -/
def withoutCall (i : Nat) : Nat → List (Action S) → List (Action S)
  | _, [] => []
  | n, .call op :: as =>
    if n = i then withoutCall i (n + 1) as else .call op :: withoutCall i (n + 1) as
  | n, .resume j amb :: as =>
    if j = i then withoutCall i n as else .resume (leave i j) amb :: withoutCall i n as
  | n, .snapshot j cs :: as =>
    if j = i then withoutCall i n as else .snapshot (leave i j) cs :: withoutCall i n as
  | n, a :: as => a :: withoutCall i n as

/-- The messages that have been published, newest first. -/
def Obs.publication? : Obs S → Option (Publication S)
  | .responded _ _ p | .notified _ p => some p
  | _ => none

def published (log : List (Obs S)) : List (Publication S) := log.filterMap Obs.publication?

/-- The state `t` is `s` but for the call `i`, of which it knows nothing. -/
structure Without (i : Nat) (s t : State S) : Prop where
  sessions : t.sessions = s.sessions
  eventToClient : t.eventToClient = s.eventToClient
  now : t.now = s.now
  calls : t.calls = leave i s.calls
  tasks : ∀ j, t.tasks.lookup j = s.tasks.lookup (back i j)
  log : t.log = s.log.filterMap (Obs.withoutCall i)
  /-- The call `i` has published nothing. -/
  silent : ∀ o ∈ s.log, o.call? = some i → o.publication? = none

namespace Without

variable {i j : Nat} {s t : State S}

theorem lookup_leave (h : Without i s t) (hj : j ≠ i) :
    t.tasks.lookup (leave i j) = s.tasks.lookup j := by
  rw [h.tasks, (eq_leave_iff hj).1 rfl]

/-! What another call does is done in the run without the call `i` as well. -/

theorem observe (h : Without i s t) (o : Obs S) (ho : o.call? ≠ some i) :
    Without i (s.observe o) (t.observe (o.rename (leave i))) where
  sessions := h.sessions
  eventToClient := h.eventToClient
  now := h.now
  calls := h.calls
  tasks := h.tasks
  log := by
    show o.rename (leave i) :: t.log = (o :: s.log).filterMap (Obs.withoutCall i)
    rw [List.filterMap_cons_some (Obs.withoutCall_of_ne ho), h.log]
  silent o' ho' hi := by
    rcases List.mem_cons.1 ho' with rfl | ho'
    · exact absurd hi ho
    · exact h.silent o' ho' hi

theorem goto (h : Without i s t) (hj : j ≠ i) (task : Task) :
    Without i (s.goto j task) (t.goto (leave i j) task) where
  sessions := h.sessions
  eventToClient := h.eventToClient
  now := h.now
  calls := h.calls
  tasks k := by
    rw [State.lookup_goto, State.lookup_goto, h.tasks]
    exact if_congr (eq_leave_iff hj) rfl rfl
  log := h.log
  silent := h.silent

theorem finish (h : Without i s t) (hj : j ≠ i) (result : Except Error Unit) :
    Without i (s.finish j result) (t.finish (leave i j) result) where
  sessions := h.sessions
  eventToClient := h.eventToClient
  now := h.now
  calls := h.calls
  tasks k := by
    rw [State.lookup_finish, State.lookup_finish, h.tasks]
    exact if_congr (eq_leave_iff hj) rfl rfl
  log := by
    have ho : (Obs.returned j result : Obs S).call? ≠ some i := fun heq ↦
      hj (Option.some.inj heq)
    exact (h.observe _ ho).log
  silent := by
    have ho : (Obs.returned j result : Obs S).call? ≠ some i := fun heq ↦
      hj (Option.some.inj heq)
    exact (h.observe _ ho).silent

theorem setSessions (h : Without i s t) (sessions : Table String ClientSession) :
    Without i { s with sessions } { t with sessions } :=
  ⟨rfl, h.eventToClient, h.now, h.calls, h.tasks, h.log, h.silent⟩

theorem setRoutes (h : Without i s t) (eventToClient : Table String String) :
    Without i { s with eventToClient } { t with eventToClient } :=
  ⟨h.sessions, rfl, h.now, h.calls, h.tasks, h.log, h.silent⟩

theorem track (h : Without i s t) (event : S.Event) (r : IncomingRequest) :
    Without i (s.track event r) (t.track event r) := by
  have hobs := h.observe (.forwarded event r) (by simp [Obs.call?])
  refine ⟨?_, ?_, h.now, h.calls, h.tasks, hobs.log, hobs.silent⟩
  · rw [State.track, State.track, h.sessions, h.now]
  · rw [State.track, State.track, h.eventToClient]

theorem cleanup (h : Without i s t) : Without i (s.cleanup server) (t.cleanup server) := by
  refine ⟨?_, ?_, h.now, h.calls, h.tasks, h.log, h.silent⟩
  · simp only [State.cleanup, h.sessions, h.eventToClient, h.now]
  · simp only [State.cleanup, h.sessions, h.eventToClient, h.now]

/-- A call reads nothing of the other calls. -/
theorem resume (h : Without i s t) (hj : j ≠ i) (amb : Ambient S) (task : Task) :
    Option.Rel (Without i) (Server.resume server amb s j task)
      (Server.resume server amb t (leave i j) task) := by
  have hne : some j ≠ some i := fun heq ↦ hj (Option.some.inj heq)
  cases task with
  | response e next =>
      cases next with
      | findClient response =>
          simp only [Server.resume, h.eventToClient]
          cases findClient s.eventToClient e with
          | ok c => exact .some ((h.observe (.foundClient j e c) hne).goto hj _)
          | error err => exact .some (h.finish hj _)
      | findSession response c =>
          simp only [Server.resume, h.sessions]
          cases responseSession s.sessions c with
          | ok session => exact .some ((h.observe (.foundSession j c session) hne).goto hj _)
          | error err => exact .some (h.finish hj _)
      | publish response c enc =>
          simp only [Server.resume]
          cases server.publishResponse amb e c response enc with
          | ok p => exact .some ((h.observe (.responded j e p) hne).goto hj _)
          | error err => exact .some (h.finish hj _)
      | cleanSession c =>
          simp only [Server.resume, h.sessions]
          exact .some ((h.setSessions _).goto hj _)
      | cleanRoute =>
          simp only [Server.resume, h.eventToClient]
          exact .some ((h.setRoutes _).finish hj _)
  | notification c n correlated next =>
      cases next with
      | findSession =>
          simp only [Server.resume, h.sessions]
          cases notificationSession s.sessions c with
          | ok session => exact .some ((h.observe (.foundSession j c session) hne).goto hj _)
          | error err => exact .some (h.finish hj _)
      | publish enc =>
          simp only [Server.resume]
          cases server.publishNotification amb c n correlated enc with
          | ok p => exact .some ((h.observe (.notified j p) hne).finish hj _)
          | error err => exact .some (h.finish hj _)
  | snapshot n => exact .none
  | broadcast n clients next =>
      cases clients with
      | nil => exact .some (h.finish hj _)
      | cons c cs =>
          cases next with
          | findSession =>
              simp only [Server.resume, h.sessions]
              cases notificationSession s.sessions c with
              | ok session => exact .some ((h.observe (.foundSession j c session) hne).goto hj _)
              | error err => exact .some (h.goto hj _)
          | publish enc =>
              simp only [Server.resume]
              cases server.publishNotification amb c n none enc with
              | ok p => exact .some ((h.observe (.notified j p) hne).goto hj _)
              | error err => exact .some (h.goto hj _)
  | clearSessions => exact .some ((h.setSessions _).goto hj _)
  | clearRoutes => exact .some ((h.setRoutes _).finish hj _)

/-- The borrows that permit a call permit it without the call `i`. -/
theorem admits (h : Without i s t) {op : Operation} (hop : s.Admits op) : t.Admits op := by
  have hentry : ∀ e ∈ t.tasks.entries, s.tasks.lookup (back i e.1) = some e.2 := fun e he ↦
    (h.tasks e.1).symm.trans (AList.mem_lookup_iff.2 he)
  cases op with
  | close =>
      show t.tasks.keys = []
      rw [List.eq_nil_iff_forall_not_mem]
      intro k hk
      rw [← AList.mem_keys, ← AList.lookup_isSome, h.tasks, hop.lookup_eq_none] at hk
      cases hk
  | _ => exact fun e he ↦ hop.isClose_eq (hentry e he)

theorem call (h : Without i s t) (hi : s.calls ≠ i) (op : Operation) :
    Without i (s.call op) (t.call op) where
  sessions := h.sessions
  eventToClient := h.eventToClient
  now := h.now
  calls := by
    show t.calls + 1 = leave i (s.calls + 1)
    rw [h.calls]
    unfold leave
    split <;> split <;> omega
  tasks k := by
    rw [State.lookup_call, State.lookup_call, h.tasks, h.calls]
    exact if_congr (eq_leave_iff hi) rfl rfl
  log := by
    have ho : (Obs.called s.calls op : Obs S).call? ≠ some i := fun heq ↦
      hi (Option.some.inj heq)
    rw [show (t.call op).log = .called t.calls op :: t.log from rfl, h.calls]
    exact (h.observe _ ho).log
  silent := by
    have ho : (Obs.called s.calls op : Obs S).call? ≠ some i := fun heq ↦
      hi (Option.some.inj heq)
    exact (h.observe _ ho).silent

/-- A step of another call, or of none. -/
theorem step (h : Without i s t) {a : Action S} {s' : State S}
    (hstep : Server.step server s a = some s') (ha : ∀ amb, a ≠ .resume i amb)
    (ha' : ∀ cs, a ≠ .snapshot i cs) (hcall : ∀ op, a = .call op → s.calls ≠ i) :
    ∃ a' t', (∀ as, withoutCall i s.calls (a :: as) = a' :: withoutCall i s'.calls as) ∧
      Server.step server t a' = some t' ∧ Without i s' t' := by
  have hcalls := (step_transition hstep).calls_eq
  cases a with
  | receive event =>
      refine ⟨.receive event, ?_⟩
      simp only [Server.step] at hstep ⊢
      cases hacc : server.accept event with
      | ok r =>
          simp only [hacc, Option.some.injEq] at hstep ⊢
          subst hstep
          exact ⟨_, fun _ ↦ rfl, rfl, h.track event r⟩
      | error why =>
          simp only [hacc, Option.some.injEq] at hstep ⊢
          subst hstep
          exact ⟨_, fun _ ↦ rfl, rfl, h⟩
  | call op =>
      simp only [Server.step, Option.ite_none_right_eq_some, Option.some.injEq] at hstep
      obtain ⟨hop, rfl⟩ := hstep
      have hi := hcall op rfl
      exact ⟨.call op, t.call op, fun as ↦ if_neg hi, if_pos (h.admits hop), h.call hi op⟩
  | resume j amb =>
      have hj : j ≠ i := fun heq ↦ ha amb (heq ▸ rfl)
      obtain ⟨task, ht, hstep⟩ := Option.bind_eq_some_iff.1 hstep
      have hrel : Option.Rel (Without i) (Server.resume server amb s j task)
        (Server.resume server amb t (leave i j) task) := h.resume hj amb task
      rw [hstep] at hrel
      cases hres : Server.resume server amb t (leave i j) task with
      | none =>
          rw [hres] at hrel
          cases hrel
      | some t' =>
          rw [hres] at hrel
          cases hrel with
          | some hrel =>
              refine ⟨.resume (leave i j) amb, t', fun as ↦ ?_, ?_, hrel⟩
              · rw [hcalls (by simp)]
                exact if_neg hj
              · exact Option.bind_eq_some_iff.2 ⟨task, (h.lookup_leave hj).trans ht, hres⟩
  | snapshot j cs =>
      have hj : j ≠ i := fun heq ↦ ha' cs (heq ▸ rfl)
      rw [hcalls (by simp)]
      simp only [Server.step] at hstep
      split at hstep
      · next n ht =>
          simp only [Option.ite_none_right_eq_some, Option.some.injEq] at hstep
          obtain ⟨hperm, rfl⟩ := hstep
          have hne : some j ≠ some i := fun heq ↦ hj (Option.some.inj heq)
          refine ⟨.snapshot (leave i j) cs, _, fun as ↦ if_neg hj, ?_,
            (h.observe (.snapshot j cs) hne).goto hj _⟩
          simp only [Server.step, h.lookup_leave hj, ht, h.sessions, if_pos hperm]
          rfl
      · cases hstep
  | cleanup =>
      cases hstep
      exact ⟨.cleanup, _, fun _ ↦ rfl, rfl, h.cleanup⟩
  | elapse d =>
      cases hstep
      exact ⟨.elapse d, _, fun _ ↦ rfl, rfl, h.sessions, h.eventToClient,
        congrArg (· + d) h.now, h.calls, h.tasks, h.log, h.silent⟩

end Without

theorem Obs.publication?_rename (f : Nat → Nat) (o : Obs S) :
    (o.rename f).publication? = o.publication? := by
  cases o <;> rfl

/-- Both runs have published the same messages. -/
theorem Without.published_eq {i : Nat} {s t : State S} (h : Without i s t) :
    published t.log = published s.log := by
  rw [published, h.log, List.filterMap_filterMap]
  refine List.filterMap_congr fun o ho ↦ ?_
  by_cases hi : o.call? = some i
  · rw [Obs.withoutCall, if_pos hi, h.silent o ho hi]
    rfl
  · rw [Obs.withoutCall_of_ne hi]
    exact o.publication?_rename (leave i)

/-! ## The steps of a call that fails -/

/-- The call `i` has made a step that shows only in its own place and in the log. -/
structure Traceless (i : Nat) (s s' : State S) : Prop where
  sessions : s'.sessions = s.sessions
  eventToClient : s'.eventToClient = s.eventToClient
  now : s'.now = s.now
  calls : leave i s'.calls = leave i s.calls
  others : ∀ j, j ≠ i → s'.tasks.lookup j = s.tasks.lookup j
  log : ∃ os : List (Obs S), s'.log = os ++ s.log ∧
    ∀ o ∈ os, o.call? = some i ∧ o.publication? = none

/-- A run without the call `i` stays where it is when the call makes such a step. -/
theorem Without.traceless {i : Nat} {s s' t : State S} (h : Without i s t)
    (hstep : Traceless i s s') : Without i s' t := by
  obtain ⟨os, hlog, hos⟩ := hstep.log
  refine ⟨h.sessions.trans hstep.sessions.symm, h.eventToClient.trans hstep.eventToClient.symm,
    h.now.trans hstep.now.symm, h.calls.trans hstep.calls.symm, fun j ↦ ?_, ?_, fun o ho hi ↦ ?_⟩
  · rw [h.tasks, hstep.others _ (back_ne i j)]
  · have hnone : os.filterMap (Obs.withoutCall i) = [] :=
      List.filterMap_eq_nil_iff.2 fun o ho ↦ if_pos (hos o ho).1
    rw [hlog, List.filterMap_append, hnone, h.log]
    rfl
  · rcases List.mem_append.1 (hlog ▸ ho) with ho | ho
    · exact (hos o ho).2
    · exact h.silent o ho hi

/-- The step with which the call `i` is made. -/
theorem State.call_traceless (s : State S) (op : Operation) : Traceless s.calls s (s.call op) where
  sessions := rfl
  eventToClient := rfl
  now := rfl
  calls := by
    show leave s.calls (s.calls + 1) = leave s.calls s.calls
    unfold leave
    split <;> split <;> omega
  others j hj := (s.lookup_call j op).trans (if_neg hj)
  log := ⟨[.called s.calls op], rfl, by simp [Obs.call?, Obs.publication?]⟩

/-- A step of `send_response` that neither publishes nor follows a publication. -/
theorem Transition.traceless {s s' : State S} {i : Nat} {amb : Ambient S}
    (h : Transition server s (.resume i amb) s')
    (hkind : ∀ task, s.tasks.lookup i = some task → task.isResponse = true)
    (hclean : ∀ e, ¬ CleaningUp s e i) (hans : ∀ e, i ∉ answerers e s'.log) :
    Traceless i s s' := by
  cases h with
  | foundClient i amb e response c ht hc =>
      exact ⟨rfl, rfl, rfl, rfl, fun j hj ↦ (State.lookup_goto ..).trans (if_neg hj),
        [.foundClient i e c], rfl, by simp [Obs.call?, Obs.publication?]⟩
  | foundSession i amb e response c session ht hs =>
      exact ⟨rfl, rfl, rfl, rfl, fun j hj ↦ (State.lookup_goto ..).trans (if_neg hj),
        [.foundSession i c session], rfl, by simp [Obs.call?, Obs.publication?]⟩
  | failed i amb e next err ht hn =>
      exact ⟨rfl, rfl, rfl, rfl, fun j hj ↦ (State.lookup_finish ..).trans (if_neg hj),
        [.returned i (.error err)], rfl, by simp [Obs.call?, Obs.publication?]⟩
  | responded i amb e response c enc p ht hp =>
      exact absurd (mem_answerers.2 ⟨p, List.mem_cons_self⟩) (hans e)
  | cleanedSession i amb e c ht => exact absurd ⟨_, ht, rfl⟩ (hclean e)
  | cleanedRoute i amb e ht => exact absurd ⟨_, ht, rfl⟩ (hclean e)
  | notifying a j task s' ha ht hn hnot =>
      have hresponse : task.isResponse = false := (Task.isResponse_of_isNotification hn).1
      have ht' : s.tasks.lookup i = some task := by
        rcases ha with ⟨_, ⟨⟩⟩ | ⟨_, ⟨⟩⟩
        exact ht
      have hkind := hkind task ht'
      rw [hresponse] at hkind
      cases hkind
  | clearedSessions i amb ht => cases hkind _ ht
  | clearedRoutes i amb ht => cases hkind _ ht

/-! ## The run without a call that failed -/

/-- The call `i` of `send_response` has returned an error. -/
structure FailedResponse (i : Nat) (e : String) (response : JsonRpcMessage) (err : Error)
    (s : State S) : Prop where
  called : .called i (.sendResponse e response) ∈ s.log
  returned : .returned i (.error err) ∈ s.log

theorem FailedResponse.of_suffix {i : Nat} {e : String} {response : JsonRpcMessage}
    {err : Error} {s s' : State S} (h : FailedResponse i e response err s)
    (hsuf : s.log <:+ s'.log) : FailedResponse i e response err s' :=
  ⟨hsuf.subset h.called, hsuf.subset h.returned⟩

section

variable {i : Nat} {e : String} {response : JsonRpcMessage} {err : Error} {m m' s : State S}
  {a : Action S} {as : List (Action S)}

/-- Before it fails, the call has not published. -/
theorem FailedResponse.not_answered (h : FailedResponse i e response err s)
    (hs : Reachable server s) (hsuf : m.log <:+ s.log) (e' : String) :
    i ∉ answerers e' m.log := fun hi ↦
  hs.settled.answered i e' err (mem_answerers_of_suffix hsuf hi) h.returned

theorem FailedResponse.isResponse (h : FailedResponse i e response err s)
    (hs : Reachable server s) (hm : Reachable server m) (hsuf : m.log <:+ s.log) :
    ∀ task, m.tasks.lookup i = some task → task.isResponse = true := by
  intro task ht
  obtain ⟨op, hmem, hkind⟩ := hm.called_of_task i task ht
  obtain rfl := hs.called_unique i _ _ (hsuf.subset hmem) h.called
  exact hkind.symm

/-- A step of the failing call leaves no trace. -/
theorem FailedResponse.traceless (h : FailedResponse i e response err s)
    (hs : Reachable server s) (hm : Reachable server m) (hstep : step server m a = some m')
    (hsuf : m'.log <:+ s.log) (ha : a.IsOf i m) : Traceless i m m' := by
  have hsuf₀ : m.log <:+ s.log := (step_transition hstep).log_suffix.trans hsuf
  have hkind := h.isResponse hs hm hsuf₀
  cases a with
  | call op =>
      simp only [step, Option.ite_none_right_eq_some, Option.some.injEq] at hstep
      obtain ⟨-, rfl⟩ := hstep
      obtain rfl : m.calls = i := ha
      exact m.call_traceless op
  | resume j amb =>
      obtain rfl : j = i := ha
      refine (step_transition hstep).traceless hkind (fun e' hclean ↦ ?_) (h.not_answered hs hsuf)
      exact h.not_answered hs hsuf₀ e' (hm.outcomes.cleanup j e' hclean)
  | snapshot j cs =>
      obtain rfl : j = i := ha
      simp only [step] at hstep
      split at hstep
      · next n ht => cases hkind _ ht
      · cases hstep
  | _ => cases ha

/-- What can be run with the failing call can be run without it, with the same effect. -/
theorem FailedResponse.run_without (h : FailedResponse i e response err s)
    (hs : Reachable server s) (hm : Reachable server m)
    (hrun : run (step server) m as = some s) {t : State S} (hw : Without i m t) :
    ∃ t', run (step server) t (withoutCall i m.calls as) = some t' ∧ Without i s t' := by
  induction as generalizing m t with
  | nil =>
      cases hrun
      exact ⟨t, rfl, hw⟩
  | cons a as ih =>
      obtain ⟨m', hstep, hrest⟩ := (run_cons_eq_some _).1 hrun
      have htrans := step_transition hstep
      have hsuf := run_log_suffix hrest
      have hm' := hm.step hstep
      by_cases ha : a.IsOf i m
      · have htrace := h.traceless hs hm hstep hsuf ha
        obtain ⟨t', ht', hw'⟩ := ih hm' hrest (hw.traceless htrace)
        refine ⟨t', ?_, hw'⟩
        rw [← ht']
        congr 1
        cases a with
        | call op =>
            obtain rfl : m.calls = i := ha
            simp only [step, Option.ite_none_right_eq_some, Option.some.injEq] at hstep
            obtain ⟨-, rfl⟩ := hstep
            exact if_pos rfl
        | resume j amb =>
            rw [htrans.calls_eq (by simp)]
            exact if_pos ha
        | snapshot j cs =>
            rw [htrans.calls_eq (by simp)]
            exact if_pos ha
        | _ => cases ha
      · obtain ⟨a', t', hcut, hstep', hw'⟩ := hw.step hstep (by rintro amb rfl; exact ha rfl)
          (by rintro cs rfl; exact ha rfl) (by rintro op rfl hi; exact ha hi)
        obtain ⟨t'', ht'', hw''⟩ := ih hm' hrest hw'
        refine ⟨t'', ?_, hw''⟩
        rw [hcut]
        exact (run_cons_eq_some _).2 ⟨t', hstep', ht''⟩

end

/-- A call of `send_response` that returns an error has written neither map.  The run can be
made without it, whatever else is under way, and what is done afterwards, a retry for
instance, publishes the same messages and leaves the same maps. -/
theorem failed_response_atomic {as : List (Action S)} {s : State S} {i : Nat} {e : String}
    {response : JsonRpcMessage} {err : Error} (hrun : run (step server) .init as = some s)
    (hfail : FailedResponse i e response err s) :
    (∀ pre a post m m', as = pre ++ a :: post → run (step server) .init pre = some m →
      step server m a = some m' → a.IsOf i m →
        m'.sessions = m.sessions ∧ m'.eventToClient = m.eventToClient) ∧
    ∃ t, run (step server) .init (withoutCall i 0 as) = some t ∧ Without i s t ∧
      ∀ bs s', run (step server) s bs = some s' →
        ∃ t', run (step server) t (withoutCall i s.calls bs) = some t' ∧ Without i s' t' ∧
          t'.sessions = s'.sessions ∧ t'.eventToClient = s'.eventToClient ∧
          published t'.log = published s'.log := by
  have hs : Reachable server s := ⟨as, hrun⟩
  constructor
  · intro pre a post m m' has hpre hstep ha
    have hm : Reachable server m := ⟨pre, hpre⟩
    obtain ⟨m₀, hm₀, hrest⟩ := (run_append_eq_some _).1 (has ▸ hrun)
    obtain rfl : m = m₀ := Option.some.inj (hpre.symm.trans hm₀)
    obtain ⟨m₁, hm₁, hpost⟩ := (run_cons_eq_some _).1 hrest
    obtain rfl : m' = m₁ := Option.some.inj (hstep.symm.trans hm₁)
    have htrace := hfail.traceless hs hm hstep (run_log_suffix hpost) ha
    exact ⟨htrace.sessions, htrace.eventToClient⟩
  · have hstart : Without i (.init : State S) .init :=
      ⟨rfl, rfl, rfl, rfl, fun _ ↦ rfl, rfl, fun o ho ↦ absurd ho List.not_mem_nil⟩
    obtain ⟨t, ht, hw⟩ := hfail.run_without hs .init hrun hstart
    refine ⟨t, ht, hw, fun bs s' hbs ↦ ?_⟩
    have hs' : Reachable server s' := ⟨as ++ bs, (run_append_eq_some _).2 ⟨s, hrun, hbs⟩⟩
    have hfail' := hfail.of_suffix (run_log_suffix hbs)
    obtain ⟨t', ht', hw'⟩ := hfail'.run_without hs' hs hbs hw
    exact ⟨t', ht', hw', hw'.sessions, hw'.eventToClient, hw'.published_eq⟩

/-- Surroundings in which `send_event` fails. -/
def refusing (time : Nat) : Ambient Symbolic.sdk :=
  { Symbolic.ambient time with relays := .error "refused" }

/-- A request, and an answer that `send_event` fails to send. -/
def refusedRun : List (Action Symbolic.sdk) :=
  [.receive (Symbolic.message "A" 0 [] toolCall),
    .call (.sendResponse "A/25910/0" emptyResponse),
    .resume 0 (refusing 3), .resume 0 (refusing 3), .resume 0 (refusing 3)]

def refusedState : State Symbolic.sdk := (run (step openServer) .init refusedRun).get rfl

/-- The retry. -/
def retryRun : List (Action Symbolic.sdk) :=
  [.call (.sendResponse "A/25910/0" emptyResponse),
    .resume 1 (Symbolic.ambient 4), .resume 1 (Symbolic.ambient 4),
    .resume 1 (Symbolic.ambient 4), .resume 1 (Symbolic.ambient 4),
    .resume 1 (Symbolic.ambient 4)]

def retriedState : State Symbolic.sdk := (run (step openServer) refusedState retryRun).get rfl

theorem failed_response_atomic_refusedState :
    ∃ t t', Without 0 refusedState t ∧ published t.log = [] ∧
      run (step openServer) t (withoutCall 0 refusedState.calls retryRun) = some t' ∧
      published t'.log = published retriedState.log ∧ (published t'.log).length = 1 := by
  have hrun : run (step openServer) .init refusedRun = some refusedState := rfl
  have hfail : FailedResponse 0 "A/25910/0" emptyResponse (.transport "refused") refusedState :=
    ⟨.tail _ (.tail _ (.tail _ (.head _))), .head _⟩
  obtain ⟨-, t, -, hw, hnext⟩ := failed_response_atomic hrun hfail
  have hretry : run (step openServer) refusedState retryRun = some retriedState := rfl
  obtain ⟨t', ht', -, -, -, hpub⟩ := hnext retryRun retriedState hretry
  refine ⟨t, t', hw, ?_, ht', hpub, ?_⟩
  · rw [hw.published_eq]
    rfl
  · rw [hpub]
    rfl

end ContextVM.Server
