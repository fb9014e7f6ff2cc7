import ContextVM.Transport.Server.Answers
import ContextVM.Transport.Server.Initialized
import ContextVM.Transport.Server.Mirror

/-!
# Broadcasts

A broadcast takes a snapshot of the initialized clients and then sends to one after the
other.  Between the snapshot and a client's turn its session can change or go, and the sends
can fail one by one.  `Broadcasting` says where a broadcast can be: between two turns, in one,
or at its end.
-/

namespace ContextVM.Server

open Lib NostrServerTransport
open Symbolic (toolCall initialized)

variable {S : Sdk} {server : NostrServerTransport S}

/-! ## What a broadcast makes known -/

/-- The notifications that the call `i` has published, newest first. -/
def Obs.notified? (i : Nat) : Obs S → Option (Publication S)
  | .notified j p => if j = i then some p else none
  | _ => none

def notifiedBy (i : Nat) (log : List (Obs S)) : List (Publication S) :=
  log.filterMap (Obs.notified? i)

/-- What the call `i` has returned. -/
def Obs.returned? (i : Nat) : Obs S → Option (Except Error Unit)
  | .returned j r => if j = i then some r else none
  | _ => none

def returnsOf (i : Nat) (log : List (Obs S)) : List (Except Error Unit) :=
  log.filterMap (Obs.returned? i)

theorem Obs.notified?_of_call? {i : Nat} (o : Obs S) (h : o.call? ≠ some i) :
    o.notified? i = none := by
  cases o <;> simp_all [Obs.call?, Obs.notified?]

theorem returnsOf_returned (i : Nat) (r : Except Error Unit) (log : List (Obs S)) :
    returnsOf i (.returned i r :: log) = r :: returnsOf i log :=
  List.filterMap_cons_some (if_pos rfl)

theorem Obs.returned?_of_call? {i : Nat} (o : Obs S) (h : o.call? ≠ some i) :
    o.returned? i = none := by
  cases o <;> simp_all [Obs.call?, Obs.returned?]

variable {i : Nat} {n : JsonRpcMessage} {clients : List String} {m s s' : State S}
  {post : List (Action S)} {a : Action S}

/-! ## Before the snapshot -/

/-- No step of a call leads back to the snapshot. -/
theorem resume_ne_snapshot {amb : Ambient S} {task : Task}
    (h : resume server amb s i task = some s') (n' : JsonRpcMessage) :
    s'.tasks.lookup i ≠ some (.snapshot n') := by
  have hgoto : ∀ {t : State S} {next : Task}, (∀ n', next ≠ .snapshot n') →
      (t.goto i next).tasks.lookup i ≠ some (.snapshot n') := by
    intro t next hnext hl
    rw [State.lookup_goto_self] at hl
    exact hnext n' (Option.some.inj hl)
  have hfinish : ∀ {t : State S} {r : Except Error Unit},
      (t.finish i r).tasks.lookup i ≠ some (.snapshot n') := by
    intro t r hl
    rw [State.lookup_finish_self] at hl
    cases hl
  cases task with
  | response e next =>
      cases next <;> simp only [resume] at h <;> (try split at h) <;> cases h <;>
        first | exact hgoto (by simp) | exact hfinish
  | notification c n₀ correlated next =>
      cases next <;> simp only [resume] at h <;> split at h <;> cases h <;>
        first | exact hgoto (by simp) | exact hfinish
  | snapshot n₀ => cases h
  | broadcast n₀ cs next =>
      cases cs with
      | nil =>
          cases h
          exact hfinish
      | cons c cs =>
          cases next <;> simp only [resume] at h <;> split at h <;> cases h <;>
            exact hgoto (by simp)
  | clearSessions =>
      cases h
      exact hgoto (by simp)
  | clearRoutes =>
      cases h
      exact hfinish

/-- All that is known of a broadcast before its snapshot is that it was called. -/
theorem Reachable.called_of_snapshot (hs : Reachable server s) :
    ∀ i n, s.tasks.lookup i = some (.snapshot n) →
      ∀ o ∈ s.log, o.call? = some i → o = .called i (.broadcastNotification n) := by
  refine Reaches.induct _ hs (fun s ↦ ∀ i n, s.tasks.lookup i = some (.snapshot n) →
    ∀ o ∈ s.log, o.call? = some i → o = .called i (.broadcastNotification n)) ?_ ?_
  · rintro i n ⟨⟩
  · intro s a s' hs ih hstep i n ht o ho hi
    have hs : Reachable server s := hs
    have htrans := step_transition hstep
    by_cases ha : a.IsOf i s
    · cases a with
      | call op =>
          obtain rfl : s.calls = i := ha
          simp only [Server.step, Option.ite_none_right_eq_some, Option.some.injEq] at hstep
          obtain ⟨-, rfl⟩ := hstep
          rw [State.lookup_call, if_pos rfl, Option.some.injEq] at ht
          rcases List.mem_cons.1 ho with rfl | ho
          · cases op <;> cases ht
            rfl
          · exact absurd (hs.outcomes.fresh o ho _ hi) (Nat.lt_irrefl _)
      | resume j amb =>
          obtain rfl : j = i := ha
          obtain ⟨task, -, hres⟩ := Option.bind_eq_some_iff.1 hstep
          exact absurd ht (resume_ne_snapshot hres n)
      | snapshot j cs =>
          obtain rfl : j = i := ha
          simp only [Server.step] at hstep
          split at hstep
          · split at hstep
            · cases hstep
              rw [State.lookup_goto_self] at ht
              cases ht
            · cases hstep
          · cases hstep
      | _ => cases ha
    · obtain ⟨os, hlog, hos⟩ := htrans.log_isOf
      rw [htrans.lookup_tasks_eq ha] at ht
      rcases List.mem_append.1 (hlog ▸ ho) with ho | ho
      · exact absurd (hos o ho i hi) ha
      · exact ih i n ht o ho hi

theorem Reachable.silent_of_snapshot (hm : Reachable server m)
    (htask : m.tasks.lookup i = some (.snapshot n)) :
    notifiedBy i m.log = [] ∧ returnsOf i m.log = [] := by
  constructor
  · refine List.filterMap_eq_nil_iff.2 fun o ho ↦ ?_
    by_cases hi : o.call? = some i
    · rw [hm.called_of_snapshot i n htask o ho hi]
      rfl
    · exact o.notified?_of_call? hi
  · refine List.filterMap_eq_nil_iff.2 fun o ho ↦ ?_
    by_cases hi : o.call? = some i
    · rw [hm.called_of_snapshot i n htask o ho hi]
      rfl
    · exact o.returned?_of_call? hi

/-! ## The turns of a broadcast -/

/-- In the run `post` from `m` the turn of the client `c` came, in the state `s`: the
broadcast looked for its session. -/
structure TurnAt (server : NostrServerTransport S) (i : Nat) (n : JsonRpcMessage) (m : State S)
    (post : List (Action S)) (c : String) (s : State S) (rest : List (Action S)) : Prop where
  split : ∃ before amb, post = before ++ .resume i amb :: rest ∧
    run (step server) m before = some s
  task : ∃ cs, s.tasks.lookup i = some (.broadcast n (c :: cs) .findSession)

/-- What came of the turn of a client: nothing if it has no session, and otherwise what comes
of the send that the next step of the call makes. -/
inductive Turn (server : NostrServerTransport S) (i : Nat) (n : JsonRpcMessage) (m : State S)
    (post : List (Action S)) (c : String) : Option (Publication S) → Prop where
  | skipped {s : State S} {rest : List (Action S)} (turn : TurnAt server i n m post c s rest)
      (hs : s.sessions.lookup c = none) : Turn server i n m post c none
  | sent {s : State S} {mid rest : List (Action S)} {session : ClientSession} (amb : Ambient S)
      (turn : TurnAt server i n m post c s (mid ++ .resume i amb :: rest))
      (hs : s.sessions.lookup c = some session)
      (hmid : ∀ amb', .resume i amb' ∉ mid) :
      Turn server i n m post c
        (server.publishNotification amb c n none session.isEncrypted).toOption

theorem TurnAt.concat {c : String} {rest : List (Action S)}
    (h : TurnAt server i n m post c s rest) (a : Action S) :
    TurnAt server i n m (post ++ [a]) c s (rest ++ [a]) := by
  obtain ⟨before, amb, rfl, hrun⟩ := h.split
  exact ⟨⟨before, amb, by simp, hrun⟩, h.task⟩

theorem Turn.concat {c : String} {result : Option (Publication S)}
    (h : Turn server i n m post c result) (a : Action S) :
    Turn server i n m (post ++ [a]) c result := by
  cases h with
  | skipped turn hs => exact .skipped (turn.concat a) hs
  | sent amb turn hs hmid =>
      have hturn := turn.concat a
      rw [List.append_assoc] at hturn
      exact .sent amb hturn hs hmid

def Action.isResume (i : Nat) : Action S → Bool
  | .resume j _ => j = i
  | _ => false

/-- How many steps the call `i` has made. -/
def resumes (i : Nat) (as : List (Action S)) : Nat := as.countP (Action.isResume i)

theorem resumes_concat (i : Nat) (as : List (Action S)) (a : Action S) :
    resumes i (as ++ [a]) = resumes i as + if a.isResume i then 1 else 0 := by
  simp [resumes, List.countP_append, List.countP_singleton]

/-- The clients of `done` have had their turn. -/
structure TurnsTaken (server : NostrServerTransport S) (i : Nat) (n : JsonRpcMessage)
    (m : State S) (post : List (Action S)) (s : State S) (done : List String)
    (results : List (Option (Publication S))) : Prop where
  turns : List.Forall₂ (Turn server i n m post) done results
  sent : notifiedBy i s.log = (results.filterMap id).reverse

/-- Where the broadcast `i` is, after its snapshot. -/
inductive Broadcasting (server : NostrServerTransport S) (i : Nat) (n : JsonRpcMessage)
    (clients : List String) (m : State S) (post : List (Action S)) (s : State S) : Prop where
  | between (done rest : List String) (results : List (Option (Publication S)))
      (split : clients = done ++ rest) (taken : TurnsTaken server i n m post s done results)
      (task : s.tasks.lookup i = some (.broadcast n rest .findSession))
      (open' : returnsOf i s.log = [])
      (steps : resumes i post + 2 * rest.length ≤ 2 * clients.length)
  | reading (done : List String) (c : String) (rest : List String)
      (results : List (Option (Publication S))) (split : clients = done ++ c :: rest)
      (taken : TurnsTaken server i n m post s done results) (session : ClientSession)
      (task : s.tasks.lookup i = some (.broadcast n (c :: rest) (.publish session.isEncrypted)))
      (s₀ : State S) (mid : List (Action S)) (turn : TurnAt server i n m post c s₀ mid)
      (hs : s₀.sessions.lookup c = some session) (hmid : ∀ amb, .resume i amb ∉ mid)
      (open' : returnsOf i s.log = [])
      (steps : resumes i post + 2 * rest.length < 2 * clients.length)
  | returned (results : List (Option (Publication S)))
      (taken : TurnsTaken server i n m post s clients results)
      (task : s.tasks.lookup i = none) (ok : returnsOf i s.log = [.ok ()])
      (steps : resumes i post ≤ 2 * clients.length + 1)

/-- What others do leaves the turns as they are. -/
theorem TurnsTaken.concat {done : List String} {results : List (Option (Publication S))}
    (h : TurnsTaken server i n m post s done results) (a : Action S)
    (hlog : notifiedBy i s'.log = notifiedBy i s.log) :
    TurnsTaken server i n m (post ++ [a]) s' done results :=
  ⟨h.turns.imp fun _ _ ht ↦ ht.concat a, hlog.trans h.sent⟩

/-- One more client has had its turn. -/
theorem TurnsTaken.snoc {done : List String} {results : List (Option (Publication S))}
    (h : TurnsTaken server i n m post s done results) {c : String}
    {result : Option (Publication S)} (hturn : Turn server i n m (post ++ [a]) c result)
    (hlog : notifiedBy i s'.log = result.toList ++ notifiedBy i s.log) :
    TurnsTaken server i n m (post ++ [a]) s' (done ++ [c]) (results ++ [result]) := by
  refine ⟨?_, ?_⟩
  · exact List.rel_append (h.turns.imp fun _ _ ht ↦ ht.concat a) (.cons hturn .nil)
  · rw [hlog, h.sent]
    cases result <;> simp

/-- The step of another task. -/
theorem Broadcasting.of_other (h : Broadcasting server i n clients m post s)
    (hstep : step server s a = some s') (ha : ¬ a.IsOf i s) :
    Broadcasting server i n clients m (post ++ [a]) s' := by
  have htrans := step_transition hstep
  have htask := htrans.lookup_tasks_eq ha
  obtain ⟨os, hos, hcall⟩ := htrans.log_isOf
  have hlog : notifiedBy i s'.log = notifiedBy i s.log := by
    have hnone : os.filterMap (Obs.notified? i) = [] :=
      List.filterMap_eq_nil_iff.2 fun o ho ↦
        o.notified?_of_call? fun hi ↦ ha (hcall o ho i hi)
    rw [notifiedBy, hos, List.filterMap_append, hnone]
    rfl
  have hreturns : returnsOf i s'.log = returnsOf i s.log := by
    have hnone : os.filterMap (Obs.returned? i) = [] :=
      List.filterMap_eq_nil_iff.2 fun o ho ↦
        o.returned?_of_call? fun hi ↦ ha (hcall o ho i hi)
    rw [returnsOf, hos, List.filterMap_append, hnone]
    rfl
  have hnot : a.isResume i = false := by
    cases a with
    | resume j amb => exact decide_eq_false ha
    | _ => rfl
  have hresumes : resumes i (post ++ [a]) = resumes i post := by
    rw [resumes_concat, hnot]
    rfl
  have hmid : ∀ {mid : List (Action S)}, (∀ amb, .resume i amb ∉ mid) →
      ∀ amb, .resume i amb ∉ mid ++ [a] := by
    intro mid hmid amb hmem
    rcases List.mem_append.1 hmem with hmem | hmem
    · exact hmid amb hmem
    · rw [← List.mem_singleton.1 hmem] at ha
      exact ha rfl
  cases h with
  | between done rest results split taken task open' steps =>
      exact .between done rest results split (taken.concat a hlog) (htask.trans task)
        (hreturns.trans open') (hresumes ▸ steps)
  | reading done c rest results split taken session task s₀ mid turn hs hmid₀ open' steps =>
      exact .reading done c rest results split (taken.concat a hlog) session (htask.trans task)
        s₀ (mid ++ [a]) (turn.concat a) hs (hmid hmid₀) (hreturns.trans open') (hresumes ▸ steps)
  | returned results taken task ok steps =>
      exact .returned results (taken.concat a hlog) (htask.trans task) (hreturns.trans ok)
        (hresumes ▸ steps)

/-- The step of the broadcast itself. -/
theorem Broadcasting.of_resume (h : Broadcasting server i n clients m post s)
    (hrun : run (step server) m post = some s) {amb : Ambient S}
    (hstep : step server s (.resume i amb) = some s') :
    Broadcasting server i n clients m (post ++ [.resume i amb]) s' := by
  have hresumes : resumes i (post ++ [.resume i amb]) = resumes i post + 1 := by
    rw [resumes_concat, Action.isResume, decide_eq_true rfl]
    rfl
  have hnow : ∀ {c : String} {cs : List String},
      s.tasks.lookup i = some (.broadcast n (c :: cs) .findSession) →
        TurnAt server i n m (post ++ [.resume i amb]) c s [] := fun ht ↦
    ⟨⟨post, amb, rfl, hrun⟩, _, ht⟩
  cases h with
  | between done rest results split taken task open' steps =>
      simp only [step, task, Option.bind_some] at hstep
      cases rest with
      | nil =>
          cases hstep
          rw [List.append_nil] at split
          subst split
          refine .returned results (taken.concat _ rfl) ?_ ?_ (by omega)
          · exact State.lookup_finish_self ..
          · exact (returnsOf_returned ..).trans (congrArg _ open')
      | cons c cs =>
          simp only [resume] at hstep
          cases hl : notificationSession s.sessions c with
          | error err =>
              simp only [hl, Option.some.injEq] at hstep
              subst hstep
              have hnone : s.sessions.lookup c = none := readSession_error hl
              refine .between (done ++ [c]) cs (results ++ [none]) (by simp [split])
                (taken.snoc (.skipped (hnow task) hnone) rfl) ?_ open' ?_
              · exact State.lookup_goto_self ..
              · simp only [List.length_cons] at steps
                omega
          | ok session =>
              simp only [hl, Option.some.injEq] at hstep
              subst hstep
              refine .reading done c cs results split (taken.concat _ ?_) session ?_ s []
                (hnow task) (readSession_ok.1 hl) (fun _ ↦ List.not_mem_nil) open' ?_
              · exact List.filterMap_cons_none rfl
              · exact State.lookup_goto_self ..
              · simp only [List.length_cons] at steps
                omega
  | reading done c rest results split taken session task s₀ mid turn hs hmid open' steps =>
      simp only [step, task, Option.bind_some, resume] at hstep
      have hturn := turn.concat (.resume i amb)
      have hresult := Turn.sent amb hturn hs hmid
      cases hp : server.publishNotification amb c n none session.isEncrypted with
      | ok p =>
          simp only [hp, Option.some.injEq] at hstep
          subst hstep
          rw [hp] at hresult
          refine .between (done ++ [c]) rest (results ++ [some p]) (by simp [split])
            (taken.snoc hresult ?_) ?_ open' (by omega)
          · exact List.filterMap_cons_some (if_pos rfl)
          · exact State.lookup_goto_self ..
      | error err =>
          simp only [hp, Option.some.injEq] at hstep
          subst hstep
          rw [hp] at hresult
          refine .between (done ++ [c]) rest (results ++ [none]) (by simp [split])
            (taken.snoc hresult rfl) ?_ open' (by omega)
          exact State.lookup_goto_self ..
  | returned results taken task ok steps =>
      simp only [step, task, Option.bind_none] at hstep
      cases hstep

theorem Broadcasting.lt_calls (h : Broadcasting server i n clients m post s)
    (hs : Reachable server s) : i < s.calls := by
  cases h with
  | between done rest results split taken task => exact hs.task_lt_calls i _ task
  | reading done c rest results split taken session task => exact hs.task_lt_calls i _ task
  | returned results taken task ok =>
      have hmem : Except.ok () ∈ returnsOf i s.log := ok ▸ List.mem_singleton_self _
      obtain ⟨o, ho, hr⟩ := List.mem_filterMap.1 hmem
      refine hs.outcomes.fresh o ho i ?_
      by_contra hi
      rw [o.returned?_of_call? hi] at hr
      cases hr

theorem Broadcasting.task_ne_snapshot (h : Broadcasting server i n clients m post s)
    (n' : JsonRpcMessage) : s.tasks.lookup i ≠ some (.snapshot n') := by
  cases h with
  | between done rest results split taken task => simp [task]
  | reading done c rest results split taken session task => simp [task]
  | returned results taken task => simp [task]

/-- Where a broadcast can be after its snapshot. -/
theorem broadcasting_of_run (hm : Reachable server m)
    (htask : m.tasks.lookup i = some (.snapshot n))
    (hsnap : step server m (.snapshot i clients) = some s)
    (hrun : run (step server) s post = some s') :
    Broadcasting server i n clients s post s' := by
  have hs : Reachable server s := hm.step hsnap
  induction post using List.reverseRecOn generalizing s' with
  | nil =>
      cases hrun
      simp only [step, htask, Option.ite_none_right_eq_some, Option.some.injEq] at hsnap
      obtain ⟨-, rfl⟩ := hsnap
      obtain ⟨hsent, hreturns⟩ := hm.silent_of_snapshot htask
      refine .between [] clients [] rfl ⟨.nil, hsent⟩ ?_ hreturns ?_
      · exact State.lookup_goto_self ..
      · simp [resumes]
  | append_singleton post a ih =>
      obtain ⟨s₁, hs₁, hstep⟩ := (run_concat_eq_some _).1 hrun
      have h := ih hs₁
      by_cases ha : a.IsOf i s₁
      · cases a with
        | call op =>
            -- the call has been made already
            have hs₁' : Reachable server s₁ :=
              hs.elim fun as has ↦ ⟨as ++ post, (run_append_eq_some _).2 ⟨s, has, hs₁⟩⟩
            exact absurd ha (h.lt_calls hs₁').ne'
        | resume j amb =>
            obtain rfl : j = i := ha
            exact h.of_resume hs₁ hstep
        | snapshot j cs =>
            obtain rfl : j = i := ha
            simp only [step] at hstep
            split at hstep
            · next n' ht => exact absurd ht (h.task_ne_snapshot n')
            · cases hstep
        | _ => cases ha
      · exact h.of_other hstep ha

/-! ## What a client receives -/

/-- What is known of the notification that a turn has published: it is for the client of the
turn, the published event carries it, and it is encrypted as the mode and the last accepted
message of the client say. -/
structure Delivered (server : NostrServerTransport S) (i : Nat) (n : JsonRpcMessage)
    (m : State S) (post : List (Action S)) (c : String) (p : Publication S) : Prop where
  message : p.message = n
  recipient : S.toHex p.recipient = c
  carries : ∃ amb tags encrypted signed, Sent server.base amb n p.recipient ctxvmMessagesKind
    tags encrypted signed p.event
  encrypted : ∃ s rest last, TurnAt server i n m post c s rest ∧
    lastFrom c (requests s.log) = some last ∧
    (p.event.kind = giftWrapKind ↔
      shouldEncrypt server.config.encryptionMode ctxvmMessagesKind (some last.isEncrypted))

/-- A client with a session is known by the hex form of its key. -/
theorem Reachable.toHex_of_session (hS : S.Lawful) (hs : Reachable server s) {c : String}
    {session : ClientSession} (hl : s.sessions.lookup c = some session) {key : S.PublicKey}
    (hkey : S.fromHex c = .ok key) : S.toHex key = c := by
  obtain ⟨last, hlast, -⟩ := hs.session_mirrors c session hl
  obtain ⟨hmem, rfl⟩ := lastFrom_eq_some hlast
  exact hs.toHex_of_fromHex hS hmem hkey

theorem Turn.delivered (hS : S.Lawful) (hm : Reachable server m) {c : String}
    {p : Publication S} (h : Turn server i n m post c (some p)) :
    Delivered server i n m post c p := by
  generalize hr : some p = result at h
  cases h with
  | skipped turn hs => cases hr
  | @sent s₀ mid rest session amb turn hs hmid =>
      cases hp : server.publishNotification amb c n none session.isEncrypted with
      | error err =>
          rw [hp] at hr
          cases hr
      | ok p' =>
          rw [hp] at hr
          cases hr
          obtain ⟨before, amb₀, -, hbefore⟩ := turn.split
          have hs₀ : Reachable server s₀ :=
            hm.elim fun as has ↦ ⟨as ++ before, (run_append_eq_some _).2 ⟨m, has, hbefore⟩⟩
          obtain ⟨last, hlast, henc⟩ := hs₀.session_mirrors c session hs
          obtain ⟨hmessage, hkey, tags, signed, hsent⟩ := publishNotification_ok hp
          refine ⟨hmessage, hs₀.toHex_of_session hS hs hkey, ⟨amb, tags, _, signed, hsent⟩, s₀, _,
            last, turn, hlast, ?_⟩
          rw [henc]
          exact hsent.kind_eq_giftWrap_iff hS (by decide)

/-! ## The failures of others -/

/-- The state with another log.  No step reads the log. -/
def State.withLog (s : State S) (log : List (Obs S)) : State S := { s with log }

/-- A step that does the same whatever the log is, and adds to it. -/
def LogsBlindly (server : NostrServerTransport S) (amb : Ambient S) (s : State S) (i : Nat)
    (task : Task) (s' : State S) : Prop :=
  ∃ os, s'.log = os ++ s.log ∧
    ∀ log, resume server amb (s.withLog log) i task = some (s'.withLog (os ++ log))

theorem response_withLog {amb : Ambient S} {e : String} {next : ResponseStep}
    (h : resume server amb s i (.response e next) = some s') :
    LogsBlindly server amb s i (.response e next) s' := by
  unfold LogsBlindly
  cases next with
  | findClient response =>
      simp only [resume, State.withLog] at h ⊢
      cases hc : findClient s.eventToClient e with
      | ok c =>
          simp only [hc, Option.some.injEq] at h
          subst h
          exact ⟨[.foundClient i e c], rfl, fun _ ↦ rfl⟩
      | error err =>
          simp only [hc, Option.some.injEq] at h
          subst h
          exact ⟨[.returned i (.error err)], rfl, fun _ ↦ rfl⟩
  | findSession response c =>
      simp only [resume, State.withLog] at h ⊢
      cases hc : responseSession s.sessions c with
      | ok session =>
          simp only [hc, Option.some.injEq] at h
          subst h
          exact ⟨[.foundSession i c session], rfl, fun _ ↦ rfl⟩
      | error err =>
          simp only [hc, Option.some.injEq] at h
          subst h
          exact ⟨[.returned i (.error err)], rfl, fun _ ↦ rfl⟩
  | publish response c enc =>
      simp only [resume, State.withLog] at h ⊢
      cases hc : server.publishResponse amb e c response enc with
      | ok p =>
          simp only [hc, Option.some.injEq] at h
          subst h
          exact ⟨[.responded i e p], rfl, fun _ ↦ rfl⟩
      | error err =>
          simp only [hc, Option.some.injEq] at h
          subst h
          exact ⟨[.returned i (.error err)], rfl, fun _ ↦ rfl⟩
  | cleanSession c =>
      cases h
      exact ⟨[], rfl, fun _ ↦ rfl⟩
  | cleanRoute =>
      cases h
      exact ⟨[.returned i (.ok ())], rfl, fun _ ↦ rfl⟩

theorem notification_withLog {amb : Ambient S} {c : String} {n₀ : JsonRpcMessage}
    {correlated : Option String} {next : NotificationStep}
    (h : resume server amb s i (.notification c n₀ correlated next) = some s') :
    LogsBlindly server amb s i (.notification c n₀ correlated next) s' := by
  unfold LogsBlindly
  cases next with
  | findSession =>
      simp only [resume, State.withLog] at h ⊢
      cases hc : notificationSession s.sessions c with
      | ok session =>
          simp only [hc, Option.some.injEq] at h
          subst h
          exact ⟨[.foundSession i c session], rfl, fun _ ↦ rfl⟩
      | error err =>
          simp only [hc, Option.some.injEq] at h
          subst h
          exact ⟨[.returned i (.error err)], rfl, fun _ ↦ rfl⟩
  | publish enc =>
      simp only [resume, State.withLog] at h ⊢
      cases hc : server.publishNotification amb c n₀ correlated enc with
      | ok p =>
          simp only [hc, Option.some.injEq] at h
          subst h
          exact ⟨[.returned i (.ok ()), .notified i p], rfl, fun _ ↦ rfl⟩
      | error err =>
          simp only [hc, Option.some.injEq] at h
          subst h
          exact ⟨[.returned i (.error err)], rfl, fun _ ↦ rfl⟩

/-- A broadcast at one of its clients. -/
theorem broadcast_withLog {amb : Ambient S} {n₀ : JsonRpcMessage} {c : String}
    {cs : List String} {next : NotificationStep}
    (h : resume server amb s i (.broadcast n₀ (c :: cs) next) = some s') :
    LogsBlindly server amb s i (.broadcast n₀ (c :: cs) next) s' := by
  unfold LogsBlindly
  cases next with
  | findSession =>
      simp only [resume, State.withLog] at h ⊢
      cases hc : notificationSession s.sessions c with
      | ok session =>
          simp only [hc, Option.some.injEq] at h
          subst h
          exact ⟨[.foundSession i c session], rfl, fun _ ↦ rfl⟩
      | error err =>
          simp only [hc, Option.some.injEq] at h
          subst h
          exact ⟨[], rfl, fun _ ↦ rfl⟩
  | publish enc =>
      simp only [resume, State.withLog] at h ⊢
      cases hc : server.publishNotification amb c n₀ none enc with
      | ok p =>
          simp only [hc, Option.some.injEq] at h
          subst h
          exact ⟨[.notified i p], rfl, fun _ ↦ rfl⟩
      | error err =>
          simp only [hc, Option.some.injEq] at h
          subst h
          exact ⟨[], rfl, fun _ ↦ rfl⟩

theorem resume_withLog {amb : Ambient S} {task : Task}
    (h : resume server amb s i task = some s') : LogsBlindly server amb s i task s' := by
  cases task with
  | response e next => exact response_withLog h
  | notification c n₀ correlated next => exact notification_withLog h
  | snapshot n₀ => cases h
  | broadcast n₀ cs next =>
      cases cs with
      | nil =>
          cases h
          exact ⟨[.returned i (.ok ())], rfl, fun _ ↦ rfl⟩
      | cons c cs => exact broadcast_withLog h
  | clearSessions =>
      cases h
      exact ⟨[], rfl, fun _ ↦ rfl⟩
  | clearRoutes =>
      cases h
      exact ⟨[.returned i (.ok ())], rfl, fun _ ↦ rfl⟩

theorem step_withLog (h : step server s a = some s') : ∃ os, s'.log = os ++ s.log ∧
    ∀ log, step server (s.withLog log) a = some (s'.withLog (os ++ log)) := by
  cases a with
  | receive event =>
      simp only [step] at h ⊢
      cases hacc : server.accept event with
      | ok r =>
          simp only [hacc, Option.some.injEq] at h
          subst h
          exact ⟨[.forwarded event r], rfl, fun _ ↦ rfl⟩
      | error why =>
          simp only [hacc, Option.some.injEq] at h
          subst h
          exact ⟨[], rfl, fun _ ↦ rfl⟩
  | call op =>
      simp only [step, Option.ite_none_right_eq_some, Option.some.injEq] at h
      obtain ⟨hop, rfl⟩ := h
      refine ⟨[.called s.calls op], rfl, fun log ↦ if_pos ?_⟩
      cases op <;> exact hop
  | resume j amb =>
      obtain ⟨task, ht, h⟩ := Option.bind_eq_some_iff.1 h
      obtain ⟨os, hlog, hall⟩ := resume_withLog h
      exact ⟨os, hlog, fun log ↦ Option.bind_eq_some_iff.2 ⟨task, ht, hall log⟩⟩
  | snapshot j cs =>
      simp only [step] at h
      split at h
      · next n₀ ht =>
          simp only [Option.ite_none_right_eq_some, Option.some.injEq] at h
          obtain ⟨hperm, rfl⟩ := h
          refine ⟨[.snapshot j cs], rfl, fun log ↦ ?_⟩
          simp only [step, State.withLog, ht]
          exact if_pos hperm
      · cases h
  | cleanup =>
      cases h
      exact ⟨[], rfl, fun _ ↦ rfl⟩
  | elapse d =>
      cases h
      exact ⟨[], rfl, fun _ ↦ rfl⟩

/-- The notifications of the call `i` to a client, newest first. -/
def receivedFrom (S : Sdk) (i : Nat) (c : String) (log : List (Obs S)) : List (Publication S) :=
  (notifiedBy i log).filter fun p ↦ S.toHex p.recipient = c

theorem receivedFrom_append (i : Nat) (c : String) (newer log : List (Obs S)) :
    receivedFrom S i c (newer ++ log) = receivedFrom S i c newer ++ receivedFrom S i c log := by
  simp [receivedFrom, notifiedBy, List.filterMap_append, List.filter_append]

/-- Two runs from `s` that differ only in how the sends of the broadcast `i` to clients other
than `c` turn out. -/
inductive OthersDiffer (server : NostrServerTransport S) (i : Nat) (c : String) :
    State S → List (Action S) → List (Action S) → Prop where
  | nil (s : State S) : OthersDiffer server i c s [] []
  | same {s s' : State S} {a : Action S} {as bs : List (Action S)}
      (hstep : step server s a = some s') (h : OthersDiffer server i c s' as bs) :
      OthersDiffer server i c s (a :: as) (a :: bs)
  | other {s s' : State S} {n : JsonRpcMessage} {c' : String} {cs : List String}
      {isEncrypted : Bool} {amb amb' : Ambient S} {as bs : List (Action S)}
      (ht : s.tasks.lookup i = some (.broadcast n (c' :: cs) (.publish isEncrypted)))
      (hc : c' ≠ c) (hstep : step server s (.resume i amb) = some s')
      (h : OthersDiffer server i c s' as bs) :
      OthersDiffer server i c s (.resume i amb :: as) (.resume i amb' :: bs)

/-- A send of the broadcast to another client, whether it fails or not. -/
theorem send_to_other (server : NostrServerTransport S) {c c' : String} {cs : List String}
    {isEncrypted : Bool}
    (ht : s.tasks.lookup i = some (.broadcast n (c' :: cs) (.publish isEncrypted)))
    (hc : c' ≠ c) (hkey : ∀ key, S.fromHex c' = .ok key → S.toHex key = c') (amb : Ambient S)
    (log : List (Obs S)) :
    ∃ os, step server (s.withLog log) (.resume i amb) =
        some (((s.withLog (os ++ log)).goto i (.broadcast n cs .findSession))) ∧
      receivedFrom S i c os = [] := by
  have ht' : (s.withLog log).tasks.lookup i = _ := ht
  simp only [step, ht', Option.bind_some, resume]
  cases hp : server.publishNotification amb c' n none isEncrypted with
  | error err => exact ⟨[], rfl, rfl⟩
  | ok p =>
      refine ⟨[.notified i p], rfl, ?_⟩
      obtain ⟨-, hrecipient, -⟩ := publishNotification_ok hp
      have hne : S.toHex p.recipient ≠ c := (hkey _ hrecipient).symm ▸ hc
      simp [receivedFrom, notifiedBy, Obs.notified?, hne]

/-- Which sends to other clients fail makes no difference to a client, nor to anything but the
log. -/
theorem OthersDiffer.received {c : String} {as bs : List (Action S)}
    (h : OthersDiffer server i c s as bs)
    (hall : ∀ pre t, run (step server) m pre = some t → Broadcasting server i n clients m pre t)
    (hkey : ∀ c' ∈ clients, ∀ key, S.fromHex c' = .ok key → S.toHex key = c')
    (hs : ∃ pre, run (step server) m pre = some s) (hrun : run (step server) s as = some s')
    {log : List (Obs S)} (hlog : receivedFrom S i c log = receivedFrom S i c s.log) :
    ∃ log', run (step server) (s.withLog log) bs = some (s'.withLog log') ∧
      receivedFrom S i c log' = receivedFrom S i c s'.log := by
  induction h generalizing log with
  | nil s =>
      cases hrun
      exact ⟨log, rfl, hlog⟩
  | @same s s₁ a as bs hstep h ih =>
      obtain ⟨s₂, hs₂, hrest⟩ := (run_cons_eq_some _).1 hrun
      cases hstep.symm.trans hs₂
      obtain ⟨pre, hpre⟩ := hs
      obtain ⟨os, hos, hwith⟩ := step_withLog hstep
      have hs₁ : ∃ pre, run (step server) m pre = some s₁ :=
        ⟨pre ++ [a], (run_concat_eq_some _).2 ⟨s, hpre, hstep⟩⟩
      have hnext : receivedFrom S i c (os ++ log) = receivedFrom S i c s₁.log := by
        rw [hos, receivedFrom_append, receivedFrom_append, hlog]
      obtain ⟨log', hrun', hlog'⟩ := ih hs₁ hrest hnext
      exact ⟨log', (run_cons_eq_some _).2 ⟨_, hwith log, hrun'⟩, hlog'⟩
  | @other s s₁ n' c' cs enc amb amb' as bs ht hc hstep h ih =>
      obtain ⟨s₂, hs₂, hrest⟩ := (run_cons_eq_some _).1 hrun
      cases hstep.symm.trans hs₂
      obtain ⟨pre, hpre⟩ := hs
      have hmem : c' ∈ clients := by
        cases hall pre s hpre with
        | between done rest results split taken task =>
            cases task.symm.trans ht
        | reading done c rest results split taken session task =>
            cases task.symm.trans ht
            simp [split]
        | returned results taken task =>
            cases task.symm.trans ht
      have hs₁ : ∃ pre, run (step server) m pre = some s₁ :=
        ⟨pre ++ [.resume i amb], (run_concat_eq_some _).2 ⟨s, hpre, hstep⟩⟩
      obtain ⟨os, hos, hnone⟩ := send_to_other server ht hc (hkey c' hmem) amb s.log
      obtain ⟨os', hos', hnone'⟩ := send_to_other server ht hc (hkey c' hmem) amb' log
      obtain rfl : s₁ = _ := Option.some.inj (hstep.symm.trans hos)
      have hnext : receivedFrom S i c (os' ++ log) = receivedFrom S i c (os ++ s.log) := by
        rw [receivedFrom_append, receivedFrom_append, hnone, hnone', hlog]
      obtain ⟨log', hrun', hlog'⟩ := ih hs₁ hrest hnext
      exact ⟨log', (run_cons_eq_some _).2 ⟨_, hos', hrun'⟩, hlog'⟩

/-! ## What a broadcast achieves -/

/-- The broadcast `i` of `n` to `clients`, in the state `s` of the run `post` from its
snapshot on. -/
structure BroadcastOutcome (server : NostrServerTransport S) (i : Nat) (n : JsonRpcMessage)
    (clients : List String) (m : State S) (post : List (Action S)) (s : State S) : Prop where
  /-- The clients have their turns in order, and what they have published is all that the
  broadcast has published. -/
  turns : ∃ done rest results, clients = done ++ rest ∧
    List.Forall₂ (fun c result ↦ Turn server i n m post c result ∧
      ∀ p, result = some p → Delivered server i n m post c p) done results ∧
    notifiedBy i s.log = (results.filterMap id).reverse ∧
    (s.tasks.lookup i = none → rest = [])
  /-- It goes on until it returns `Ok`, which takes two steps for each client and one more. -/
  returns : returnsOf i s.log = [.ok ()] ∨
    returnsOf i s.log = [] ∧ resumes i post ≤ 2 * clients.length ∧
      ∀ amb, (step server s (.resume i amb)).isSome
  /-- Which sends to others fail makes no difference to a client. -/
  others : ∀ c post', OthersDiffer server i c m post post' →
    ∃ s', run (step server) m post' = some s' ∧ s'.sessions = s.sessions ∧
      s'.eventToClient = s.eventToClient ∧
      receivedFrom S i c s'.log = receivedFrom S i c s.log

/-- A broadcast reaches the initialized clients, each once, and no others. -/
theorem broadcast_reaches_initialized (hS : S.Lawful) {pre : List (Action S)} {m' : State S}
    (hpre : run (step server) .init pre = some m)
    (htask : m.tasks.lookup i = some (.snapshot n))
    (hsnap : step server m (.snapshot i clients) = some m')
    (hpost : run (step server) m' post = some s) :
    clients.Nodup ∧ (∀ c, c ∈ clients ↔ Introduced server c pre) ∧
      BroadcastOutcome server i n clients m' post s := by
  have hm : Reachable server m := ⟨pre, hpre⟩
  have hm' : Reachable server m' := hm.step hsnap
  have hall : ∀ pre t, run (step server) m' pre = some t →
      Broadcasting server i n clients m' pre t := fun _ _ ↦ broadcasting_of_run hm htask hsnap
  have hperm : clients.Perm (initializedClients m.sessions) := by
    simp only [step, htask, Option.ite_none_right_eq_some] at hsnap
    exact hsnap.1
  have hmem : ∀ c, c ∈ clients ↔ Initialized m c := fun c ↦
    hperm.mem_iff.trans mem_initializedClients
  refine ⟨hperm.nodup_iff.2 (nodup_initializedClients _),
    fun c ↦ (hmem c).trans (initialized_iff_introduced hpre c), ?_, ?_, ?_⟩
  · have hdelivered : ∀ {done results}, List.Forall₂ (Turn server i n m' post) done results →
        List.Forall₂ (fun c result ↦ Turn server i n m' post c result ∧
          ∀ p, result = some p → Delivered server i n m' post c p) done results := by
      intro done results hturns
      refine hturns.imp fun c result ht ↦ ⟨ht, ?_⟩
      rintro p rfl
      exact ht.delivered hS hm'
    cases hall post s hpost with
    | between done rest results split taken task =>
        exact ⟨done, rest, results, split, hdelivered taken.turns, taken.sent, by simp [task]⟩
    | reading done c rest results split taken session task =>
        exact ⟨done, c :: rest, results, split, hdelivered taken.turns, taken.sent,
          by simp [task]⟩
    | returned results taken =>
        exact ⟨clients, [], results, by simp, hdelivered taken.turns, taken.sent, fun _ ↦ rfl⟩
  · cases hall post s hpost with
    | between done rest results split taken task open' steps =>
        refine .inr ⟨open', by omega, fun amb ↦ ?_⟩
        simp only [step, task, Option.bind_some]
        cases rest with
        | nil => rfl
        | cons c cs =>
            simp only [resume]
            cases notificationSession s.sessions c <;> rfl
    | reading done c rest results split taken session task s₀ mid turn hs hmid open' steps =>
        refine .inr ⟨open', by omega, fun amb ↦ ?_⟩
        simp only [step, task, Option.bind_some, resume]
        cases server.publishNotification amb c n none session.isEncrypted <;> rfl
    | returned results taken task ok => exact .inl ok
  · intro c post' hdiffer
    have hkey : ∀ c' ∈ clients, ∀ key, S.fromHex c' = .ok key → S.toHex key = c' := by
      intro c' hc' key hkey
      obtain ⟨session, hl, -⟩ := (hmem c').1 hc'
      exact hm.toHex_of_session hS hl hkey
    obtain ⟨log', hrun, hlog⟩ := hdiffer.received hall hkey ⟨[], rfl⟩ hpost rfl
    exact ⟨s.withLog log', hrun, rfl, rfl, hlog⟩

/-- Two clients introduce themselves, a third sends a request, and a broadcast is called. -/
def introducedRun : List (Action Symbolic.sdk) :=
  [.receive (Symbolic.message "A" 0 [] initialized),
    .receive (Symbolic.message "B" 0 [] initialized),
    .receive (Symbolic.message "C" 0 [] toolCall),
    .call (.broadcastNotification initialized)]

def introducedState : State Symbolic.sdk := (run (step openServer) .init introducedRun).get rfl

def snapshotState : State Symbolic.sdk :=
  (step openServer introducedState (.snapshot 0 ["A", "B"])).get rfl

/-- The copy for the first client cannot be sent. -/
def refusedBroadcastRun : List (Action Symbolic.sdk) :=
  [.resume 0 (Symbolic.ambient 1), .resume 0 { Symbolic.ambient 1 with relays := .error "" },
    .resume 0 (Symbolic.ambient 1), .resume 0 (Symbolic.ambient 1),
    .resume 0 (Symbolic.ambient 1)]

def broadcastState : State Symbolic.sdk :=
  (run (step openServer) snapshotState refusedBroadcastRun).get rfl

theorem broadcast_reaches_initialized_broadcastState :
    Introduced openServer "A" introducedRun ∧
      BroadcastOutcome openServer 0 initialized ["A", "B"] snapshotState refusedBroadcastRun
        broadcastState ∧
      (notifiedBy 0 broadcastState.log).map Publication.recipient = ["B"] := by
  have hpre : run (step openServer) .init introducedRun = some introducedState := rfl
  have hsnap : step openServer introducedState (.snapshot 0 ["A", "B"]) = some snapshotState := rfl
  have hpost : run (step openServer) snapshotState refusedBroadcastRun = some broadcastState := rfl
  obtain ⟨-, hclients, hout⟩ :=
    broadcast_reaches_initialized Symbolic.lawful hpre rfl hsnap hpost
  exact ⟨(hclients "A").1 (.head _), hout, rfl⟩

end ContextVM.Server
