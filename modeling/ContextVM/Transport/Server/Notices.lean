import ContextVM.Transport.Server.Broadcast

/-!
# Why a notification goes out

A notification goes to a client because the consumer has addressed it to the client, or
because it is a broadcast and the client has introduced itself (`Reachable.notified_cause`).
-/

namespace ContextVM.Server

open Lib NostrServerTransport

variable {S : Sdk} {server : NostrServerTransport S}

/-- An accepted `notifications/initialized` of the client is in the log. -/
def IntroducedIn (c : String) (log : List (Obs S)) : Prop :=
  ∃ r ∈ requests log, r.clientPubkey = c ∧ r.introduces = true

/-- What the call `i` has been made for, if it sends `n` to the client `c`. -/
inductive Cause (log : List (Obs S)) (i : Nat) (c : String) (n : JsonRpcMessage) : Prop
  | addressed (correlated : Option String)
      (h : .called i (.sendNotification c n correlated) ∈ log)
  | broadcast (h : .called i (.broadcastNotification n) ∈ log) (hc : IntroducedIn c log)

/-- The call `i` has been made for what it goes on to send. -/
def Task.Warranted (log : List (Obs S)) (i : Nat) : Task → Prop
  | .notification c n correlated _ => .called i (.sendNotification c n correlated) ∈ log
  | .snapshot n => .called i (.broadcastNotification n) ∈ log
  | .broadcast n cs _ =>
    .called i (.broadcastNotification n) ∈ log ∧ ∀ c ∈ cs, IntroducedIn c log
  | _ => True

variable {s s' : State S} {a : Action S} {i : Nat} {log log' : List (Obs S)}

theorem IntroducedIn.mono {c : String} (h : IntroducedIn c log) (hsuf : log <:+ log') :
    IntroducedIn c log' := by
  obtain ⟨r, hr, hc⟩ := h
  exact ⟨r, mem_requests_of_suffix hsuf hr, hc⟩

theorem Cause.mono {c : String} {n : JsonRpcMessage} (h : Cause log i c n)
    (hsuf : log <:+ log') : Cause log' i c n := by
  cases h with
  | addressed correlated h => exact .addressed correlated (hsuf.subset h)
  | broadcast h hc => exact .broadcast (hsuf.subset h) (hc.mono hsuf)

theorem Task.Warranted.mono {task : Task} (h : task.Warranted log i) (hsuf : log <:+ log') :
    task.Warranted log' i := by
  cases task with
  | notification c n correlated next => exact hsuf.subset h
  | snapshot n => exact hsuf.subset h
  | broadcast n cs next => exact ⟨hsuf.subset h.1, fun c hc ↦ (h.2 c hc).mono hsuf⟩
  | _ => trivial

/-- A client that is taken as initialized has introduced itself. -/
theorem Reachable.introducedIn (hs : Reachable server s) {c : String} (h : Initialized s c) :
    IntroducedIn c s.log := by
  obtain ⟨session, hl, hinit⟩ := h
  refine hs.induct_sessions (fun c session rs ↦ session.isInitialized = true →
    ∃ r ∈ rs, r.clientPubkey = c ∧ r.introduces = true) ?_ ?_ ?_ c session hl hinit
  · intro now r rs old? hold hinit
    rw [ClientSession.track_isInitialized, Bool.or_eq_true] at hinit
    rcases hinit with hflag | hr
    · cases old? with
      | none => cases hflag
      | some old =>
          obtain ⟨r', hr', h⟩ := hold old rfl hflag
          exact ⟨r', List.mem_cons_of_mem _ hr', h⟩
    · exact ⟨r, List.mem_cons_self, rfl, hr⟩
  · intro c session r rs _ ih hinit
    obtain ⟨r', hr', h⟩ := ih hinit
    exact ⟨r', List.mem_cons_of_mem _ hr', h⟩
  · intro c session e rs ih hinit
    exact ih ((session.forget_isInitialized e).symm.trans hinit)

/-! ## The steps of the calls -/

/-- What a notifying call publishes it has been made for, and it stays so. -/
structure Warrants (s : State S) (i : Nat) (s' : State S) : Prop where
  task : ∀ task, s'.tasks.lookup i = some task → task.Warranted s.log i
  log : ∀ j p, .notified j p ∈ s'.log → .notified j p ∈ s.log ∨
    j = i ∧ ∃ c, S.fromHex c = .ok p.recipient ∧ Cause s.log i c p.message

/-- The call goes on, having published nothing. -/
theorem warrants_goto {task : Task} (os : List (Obs S)) (hw : task.Warranted s.log i)
    (hos : ∀ o ∈ os, ∀ j, Obs.notified? j o = none) :
    Warrants s i (State.goto { s with log := os ++ s.log } i task) := by
  constructor
  · intro task' ht
    rw [State.lookup_goto_self, Option.some.injEq] at ht
    exact ht ▸ hw
  · intro j p hmem
    rcases List.mem_append.1 hmem with hnew | hold
    · have hnone := hos _ hnew j
      rw [Obs.notified?, if_pos rfl] at hnone
      cases hnone
    · exact .inl hold

/-- The call returns, having published nothing. -/
theorem warrants_finish (result : Except Error Unit) : Warrants s i (s.finish i result) := by
  constructor
  · intro task' ht
    rw [State.lookup_finish_self] at ht
    cases ht
  · intro j p hmem
    rcases List.mem_cons.1 hmem with hnew | hold
    · cases hnew
    · exact .inl hold

/-- The call publishes what it has been made for, and goes on or returns. -/
theorem Warrants.observe {p : Publication S} (h : Warrants s i s')
    (hp : ∃ c, S.fromHex c = .ok p.recipient ∧ Cause s.log i c p.message) (t : State S)
    (htasks : t.tasks = s'.tasks)
    (hlog : ∀ o ∈ t.log, o = .notified i p ∨ o ∈ s'.log) : Warrants s i t := by
  constructor
  · intro task ht
    exact h.task task (htasks ▸ ht)
  · intro j q hmem
    rcases hlog _ hmem with hnew | hold
    · cases hnew
      exact .inr ⟨rfl, hp⟩
    · exact h.log j q hold

/-- Who a notification is published for, and what it says. -/
theorem recipient_of_published {amb : Ambient S} {c : String} {n : JsonRpcMessage}
    {correlated : Option String} {enc : Bool} {p : Publication S}
    (h : server.publishNotification amb c n correlated enc = .ok p)
    (hcause : Cause log i c n) : ∃ c, S.fromHex c = .ok p.recipient ∧ Cause log i c p.message := by
  obtain ⟨hmessage, hrecipient, -⟩ := publishNotification_ok h
  exact ⟨c, hrecipient, hmessage ▸ hcause⟩

theorem resume_warrants {amb : Ambient S} {task : Task} (hn : task.isNotification = true)
    (hw : task.Warranted s.log i) (h : resume server amb s i task = some s') :
    Warrants s i s' := by
  cases task with
  | notification c n correlated next =>
      cases next with
      | findSession =>
          simp only [resume] at h
          split at h
          · next session _ =>
              cases h
              exact warrants_goto [.foundSession i c session] hw (by simp [Obs.notified?])
          · cases h
            exact warrants_finish _
      | publish enc =>
          simp only [resume] at h
          split at h
          · next p hp =>
              cases h
              refine (warrants_finish (.ok ())).observe
                (recipient_of_published hp (.addressed correlated hw)) _ rfl ?_
              intro o ho
              simp only [State.finish, State.observe, List.mem_cons] at ho ⊢
              tauto
          · cases h
            exact warrants_finish _
  | snapshot n => cases h
  | broadcast n cs next =>
      obtain ⟨hcalled, hcs⟩ := hw
      cases cs with
      | nil =>
          cases h
          exact warrants_finish _
      | cons c cs =>
          have hrest : (Task.broadcast n cs .findSession).Warranted s.log i :=
            ⟨hcalled, fun c' hc' ↦ hcs c' (List.mem_cons_of_mem _ hc')⟩
          cases next with
          | findSession =>
              simp only [resume] at h
              split at h
              · next session _ =>
                  cases h
                  exact warrants_goto [.foundSession i c session] ⟨hcalled, hcs⟩
                    (by simp [Obs.notified?])
              · cases h
                exact warrants_goto [] hrest (by simp)
          | publish enc =>
              simp only [resume] at h
              split at h
              · next p hp =>
                  cases h
                  refine (warrants_goto [] hrest (by simp)).observe
                    (recipient_of_published hp (.broadcast hcalled (hcs c List.mem_cons_self)))
                    _ rfl ?_
                  intro o ho
                  exact List.mem_cons.1 ho
              · cases h
                exact warrants_goto [] hrest (by simp)
  | _ => cases hn

/-- The snapshot holds clients that have introduced themselves. -/
theorem snapshot_warrants (hs : Reachable server s) {cs : List String}
    (hw : ∀ task, s.tasks.lookup i = some task → task.Warranted s.log i)
    (h : step server s (.snapshot i cs) = some s') : Warrants s i s' := by
  simp only [step] at h
  split at h
  · next n ht =>
      split at h
      · next hperm =>
          cases h
          refine warrants_goto [.snapshot i cs] ⟨hw _ ht, fun c hc ↦ ?_⟩
            (by simp [Obs.notified?])
          exact hs.introducedIn (mem_initializedClients.1 (hperm.mem_iff.1 hc))
      · cases h
  · cases h

theorem Task.warranted_of_not_notification {task : Task} (h : task.isNotification = false) :
    task.Warranted log i := by
  cases task with
  | notification | snapshot | broadcast => cases h
  | _ => trivial

theorem Task.isNotification_eq (task : Task) :
    task.isNotification = (!task.isResponse && !task.isClose) := by
  cases task <;> rfl

theorem Task.start_warranted (op : Operation) (log : List (Obs S)) (i : Nat) :
    (Task.start op).Warranted (.called i op :: log) i := by
  cases op with
  | sendNotification c n correlated => exact .head _
  | broadcastNotification n => exact .head _
  | _ => trivial

/-! ## In every state -/

/-- Every notification that has gone out has its cause, and those under way have theirs. -/
structure Caused (s : State S) : Prop where
  tasks : ∀ i task, s.tasks.lookup i = some task → task.Warranted s.log i
  log : ∀ i p, .notified i p ∈ s.log →
    ∃ c, S.fromHex c = .ok p.recipient ∧ Cause s.log i c p.message

theorem Caused.of_warrants (h : Caused s) {j : Nat} (hw : Warrants s j s')
    (htrans : Transition server s a s')
    (hothers : ∀ i, i ≠ j → s'.tasks.lookup i = s.tasks.lookup i) : Caused s' := by
  have hsuf := htrans.log_suffix
  constructor
  · intro i task ht
    by_cases hi : i = j
    · subst hi
      exact (hw.task task ht).mono hsuf
    · exact (h.tasks i task (hothers i hi ▸ ht)).mono hsuf
  · intro i p hmem
    rcases hw.log i p hmem with hold | ⟨rfl, c, hc, hcause⟩
    · obtain ⟨c, hc, hcause⟩ := h.log i p hold
      exact ⟨c, hc, hcause.mono hsuf⟩
    · exact ⟨c, hc, hcause.mono hsuf⟩

/-- A step that is not that of a notifying call publishes no notification. -/
theorem Caused.of_tasks (h : Caused s) (htrans : Transition server s a s')
    (hnot : ∀ j, ((∃ amb, a = .resume j amb) ∨ ∃ cs, a = .snapshot j cs) →
      ∀ task, s.tasks.lookup j = some task → task.isNotification = false)
    (htasks : ∀ i task, s'.tasks.lookup i = some task → task.Warranted s'.log i) :
    Caused s' := by
  refine ⟨htasks, fun i p hmem ↦ ?_⟩
  rcases htrans.log_notified hmem with hold | ⟨j, task, ht, hn, hact⟩
  · obtain ⟨c, hc, hcause⟩ := h.log i p hold
    exact ⟨c, hc, hcause.mono htrans.log_suffix⟩
  · rw [hnot j hact task ht] at hn
    cases hn

theorem Caused.step (h : Caused s) (hs : Reachable server s)
    (hstep : Server.step server s a = some s') : Caused s' := by
  have htrans := step_transition hstep
  have hsuf := htrans.log_suffix
  cases a with
  | resume j amb =>
      have hothers : ∀ i, i ≠ j → s'.tasks.lookup i = s.tasks.lookup i :=
        fun i hi ↦ htrans.lookup_tasks_eq (Ne.symm hi)
      obtain ⟨task, ht, hres⟩ := Option.bind_eq_some_iff.1 hstep
      cases hn : task.isNotification with
      | true => exact h.of_warrants (resume_warrants hn (h.tasks j task ht) hres) htrans hothers
      | false =>
          refine h.of_tasks htrans ?_ fun i task' ht' ↦ ?_
          · rintro i (⟨amb', ⟨⟩⟩ | ⟨cs, ⟨⟩⟩) old hold
            cases ht.symm.trans hold
            exact hn
          · by_cases hi : i = j
            · subst hi
              -- the call is still no notifying one
              rcases htrans.task_before ht' with ⟨old, hold, hresp, hclose⟩ | ⟨op, ⟨⟩, -⟩
              cases ht.symm.trans hold
              apply Task.warranted_of_not_notification
              rw [Task.isNotification_eq, ← hresp, ← hclose, ← Task.isNotification_eq, hn]
            · exact (h.tasks i task' (hothers i hi ▸ ht')).mono hsuf
  | snapshot j cs =>
      exact h.of_warrants (snapshot_warrants hs (h.tasks j) hstep) htrans
        fun i hi ↦ htrans.lookup_tasks_eq (Ne.symm hi)
  | call op =>
      refine h.of_tasks htrans (by rintro j (⟨amb, ⟨⟩⟩ | ⟨cs, ⟨⟩⟩)) fun i task ht ↦ ?_
      simp only [Server.step, Option.ite_none_right_eq_some, Option.some.injEq] at hstep
      obtain ⟨-, rfl⟩ := hstep
      rw [State.lookup_call] at ht
      split at ht
      · next hi =>
          cases ht
          rw [hi]
          exact Task.start_warranted op s.log s.calls
      · exact (h.tasks i task ht).mono hsuf
  | receive | cleanup | elapse =>
      refine h.of_tasks htrans (by rintro j (⟨amb, ⟨⟩⟩ | ⟨cs, ⟨⟩⟩)) fun i task ht ↦ ?_
      rw [htrans.lookup_tasks_eq id] at ht
      exact (h.tasks i task ht).mono hsuf

theorem Reachable.caused (hs : Reachable server s) : Caused s :=
  Reaches.induct (Server.step server) hs Caused ⟨nofun, nofun⟩ fun _ _ _ hm h hstep ↦
    h.step hm hstep

/-- A notification that has gone out the consumer has addressed to its recipient, or it is a
broadcast and the recipient has introduced itself. -/
theorem notified_cause (hs : Reachable server s) {p : Publication S}
    (hmem : .notified i p ∈ s.log) :
    ∃ c, S.fromHex c = .ok p.recipient ∧ Cause s.log i c p.message :=
  hs.caused.log i p hmem

theorem notified_cause_broadcastState : ∃ p c, .notified 0 p ∈ broadcastState.log ∧
    p.recipient = "B" ∧ Symbolic.sdk.fromHex c = .ok p.recipient ∧
      Cause broadcastState.log 0 c p.message := by
  have hs : Reachable openServer broadcastState :=
    ⟨introducedRun ++ .snapshot 0 ["A", "B"] :: refusedBroadcastRun, rfl⟩
  obtain ⟨c, hc, hcause⟩ := notified_cause hs (.tail _ (.head _))
  exact ⟨_, c, .tail _ (.head _), rfl, hc, hcause⟩

end ContextVM.Server
