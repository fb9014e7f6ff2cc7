import ContextVM.Transport.Lifecycle

/-!
# The start of an event loop

`start` of a transport returns when it has spawned the event loop.  The loop creates its
receiver in its first step, `client.notifications()`, which is taken whenever the scheduler
gets to the task; and a receiver sees the notifications that are sent after it was created.

A state has the program of the caller, cut into steps, beside the loop and the relay pool.  An
event is known by its place in the order of emission.
-/

namespace ContextVM

open Lib

variable {S : Sdk} {T : Type}

/-- The steps of `startTransport`. -/
def startSteps (answers : Answers S) (relayUrls : List String) (spawned : List Background) :
    List (Call (Transport T) Unit) :=
  BaseTransport.connect answers relayUrls ::
    (do
      let pubkey ← ofExcept (BaseTransport.getPublicKey answers)
      ofExcept (BaseTransport.subscribeForPubkey answers pubkey)) ::
    spawned.map Transport.spawn

theorem inOrder_startSteps (answers : Answers S) (relayUrls : List String)
    (spawned : List Background) :
    inOrder (startSteps answers relayUrls spawned) =
      (startTransport answers relayUrls spawned : Call (Transport T) Unit) := by
  simp [startSteps, startTransport, inOrder, inOrder_map]

/-- The steps of `start` of the transport of an endpoint. -/
def Host.transportSteps (host : Host) (answers : Answers S) (relayUrls : List String) :
    List (Call (Transport host.Tables) Unit) :=
  startSteps answers relayUrls host.spawned

theorem inOrder_transportSteps_gateway (answers : Answers S) (relayUrls : List String) :
    inOrder (Host.gateway.transportSteps answers relayUrls) =
      NostrServerTransport.start answers relayUrls :=
  inOrder_startSteps answers relayUrls _

theorem inOrder_transportSteps_proxy (answers : Answers S) (relayUrls : List String) :
    inOrder (Host.proxy.transportSteps answers relayUrls) =
      NostrClientTransport.start answers relayUrls :=
  inOrder_startSteps answers relayUrls _

namespace Startup

/-- The caller of `start`. -/
inductive Caller (T : Type) where
  | running (rest : List (Call (Transport T) Unit))
  /-- The result, and how many events had been emitted when the call returned. -/
  | returned (result : Except Error Unit) (emitted : Nat)

/-- A receiver of notifications. -/
structure Receiver where
  /-- How many events had been emitted when it was created. -/
  since : Nat
  /-- The place of the event that it receives next. -/
  next : Nat

structure State (S : Sdk) (T : Type) where
  transport : Transport T
  caller : Caller T
  /-- How many event loops ran before the call. -/
  loopsBefore : Nat
  emitted : List S.Event
  /-- The receiver of the event loop that the call spawns. -/
  receiver : Option Receiver

/-- The state in which a call begins, on any transport and after any events. -/
def State.init (t : Transport T) (steps : List (Call (Transport T) Unit))
    (earlier : List S.Event) : State S T where
  transport := t
  caller := .running steps
  loopsBefore := t.tasks.count .eventLoop
  emitted := earlier
  receiver := none

inductive Action (S : Sdk) where
  /-- The caller makes its next step. -/
  | advance
  /-- The event loop makes its first step. -/
  | listen
  | emit (event : S.Event)
  /-- The event loop receives an event. -/
  | receive

def step (s : State S T) : Action S → Option (State S T)
  | .advance =>
    match s.caller with
    | .running [] => some { s with caller := .returned (.ok ()) s.emitted.length }
    | .running (c :: rest) =>
      match exec c s.transport with
      | (.ok (), transport) => some { s with transport, caller := .running rest }
      | (.error e, transport) =>
        some { s with transport, caller := .returned (.error e) s.emitted.length }
    | .returned .. => none
  | .listen =>
    match s.receiver with
    | some _ => none
    | none =>
      if s.loopsBefore < s.transport.tasks.count .eventLoop then
        some { s with receiver := some ⟨s.emitted.length, s.emitted.length⟩ }
      else none
  | .emit event => some { s with emitted := s.emitted ++ [event] }
  | .receive =>
    match s.receiver with
    | none => none
    | some r =>
      if r.next < s.emitted.length then
        some { s with receiver := some { r with next := r.next + 1 } }
      else none

/-- The event in place `k` was emitted after `start` had returned `Ok`. -/
def EmittedAfterStart (s : State S T) (k : Nat) : Prop :=
  ∃ n, s.caller = .returned (.ok ()) n ∧ n ≤ k ∧ k < s.emitted.length

/-- The loop has received the event in place `k`. -/
def Received (s : State S T) (k : Nat) : Prop :=
  ∃ r, s.receiver = some r ∧ r.since ≤ k ∧ k < r.next

/-- The loop has received all that is there for it. -/
def CaughtUp (s : State S T) : Prop :=
  ∃ r, s.receiver = some r ∧ r.next = s.emitted.length

/-- The loop receives the event in place `k`: it has when it has caught up. -/
def Receives (s : State S T) (k : Nat) : Prop :=
  ∀ as s', run step s as = some s' → CaughtUp s' → Received s' k

/-- The step is not the emission of an event after `start` has returned and before the loop has
its receiver. -/
def ListensInTime (s : State S T) (a : Action S) : Prop :=
  ∀ event n, a = .emit event → s.caller = .returned (.ok ()) n → s.receiver.isSome = true

/-! ## What a step does -/

inductive Transition (s : State S T) : Action S → State S T → Prop
  | returned (hc : s.caller = .running []) :
      Transition s .advance { s with caller := .returned (.ok ()) s.emitted.length }
  | advanced (c : Call (Transport T) Unit) (rest : List (Call (Transport T) Unit))
      (transport : Transport T) (hc : s.caller = .running (c :: rest))
      (hexec : exec c s.transport = (.ok (), transport)) :
      Transition s .advance { s with transport, caller := .running rest }
  | failed (c : Call (Transport T) Unit) (rest : List (Call (Transport T) Unit))
      (e : Error) (transport : Transport T) (hc : s.caller = .running (c :: rest)) :
      Transition s .advance
        { s with transport, caller := .returned (.error e) s.emitted.length }
  | listened (hr : s.receiver = none) :
      Transition s .listen
        { s with receiver := some ⟨s.emitted.length, s.emitted.length⟩ }
  | emitted (event : S.Event) :
      Transition s (.emit event) { s with emitted := s.emitted ++ [event] }
  | received (r : Receiver) (hr : s.receiver = some r) (hnext : r.next < s.emitted.length) :
      Transition s .receive { s with receiver := some { r with next := r.next + 1 } }

theorem step_transition {s s' : State S T} {a : Action S} (h : step s a = some s') :
    Transition s a s' := by
  cases a with
  | advance =>
      simp only [step] at h
      split at h
      · next hc =>
          cases h
          exact .returned hc
      · next c rest hc =>
          split at h
          · next transport hexec =>
              cases h
              exact .advanced c rest transport hc hexec
          · next e transport hexec =>
              cases h
              exact .failed c rest e transport hc
      · cases h
  | listen =>
      simp only [step] at h
      split at h
      · cases h
      · next hr =>
          split at h
          · cases h
            exact .listened hr
          · cases h
  | emit event =>
      cases h
      exact .emitted event
  | receive =>
      simp only [step] at h
      split at h
      · cases h
      · next r hr =>
          split at h
          · next hnext =>
              cases h
              exact .received r hr hnext
          · cases h

/-! ## What the loop sees -/

/-- The loop has its receiver, and had it when the event in place `k` was emitted. -/
def Sees (s : State S T) (k : Nat) : Prop :=
  ∃ r, s.receiver = some r ∧ r.since ≤ k

/-- The places that a state records are places of events that have been emitted. -/
structure Behind (s : State S T) : Prop where
  receiver : ∀ r, s.receiver = some r → r.since ≤ s.emitted.length ∧ r.next ≤ s.emitted.length
  caller : ∀ n, s.caller = .returned (.ok ()) n → n ≤ s.emitted.length

theorem Behind.init (steps : List (Call (Transport T) Unit)) (t : Transport T)
    (earlier : List S.Event) : Behind (.init t steps earlier) := by
  constructor
  · rintro r ⟨⟩
  · rintro n ⟨⟩

theorem Transition.behind {s s' : State S T} {a : Action S} (h : Transition s a s')
    (hI : Behind s) : Behind s' := by
  obtain ⟨hreceiver, hcaller⟩ := hI
  cases h with
  | returned =>
      refine ⟨hreceiver, ?_⟩
      rintro n ⟨⟩
      exact Nat.le_refl _
  | advanced | failed =>
      refine ⟨hreceiver, ?_⟩
      rintro n ⟨⟩
  | listened =>
      refine ⟨?_, hcaller⟩
      rintro r ⟨⟩
      exact ⟨Nat.le_refl _, Nat.le_refl _⟩
  | emitted event =>
      have hlen : s.emitted.length ≤ (s.emitted ++ [event]).length := by simp
      constructor
      · intro r hr
        exact ⟨(hreceiver r hr).1.trans hlen, (hreceiver r hr).2.trans hlen⟩
      · exact fun n hn ↦ (hcaller n hn).trans hlen
  | received r hr hnext =>
      refine ⟨?_, hcaller⟩
      rintro _ ⟨⟩
      exact ⟨(hreceiver r hr).1, hnext⟩

/-- Of an event that has been emitted, it does not change any more whether the loop sees it. -/
theorem Transition.sees_iff {s s' : State S T} {a : Action S} (h : Transition s a s') {k : Nat}
    (hk : k < s.emitted.length) : k < s'.emitted.length ∧ (Sees s' k ↔ Sees s k) := by
  cases h with
  | returned | advanced | failed => exact ⟨hk, Iff.rfl⟩
  | listened hr =>
      refine ⟨hk, iff_of_false ?_ ?_⟩
      · rintro ⟨r, hr', hle⟩
        cases hr'
        exact Nat.not_le_of_lt hk hle
      · rintro ⟨r, hr', -⟩
        rw [hr] at hr'
        cases hr'
  | emitted event =>
      refine ⟨?_, Iff.rfl⟩
      rw [List.length_append]
      exact Nat.lt_add_right _ hk
  | received r hr hnext =>
      refine ⟨hk, ?_⟩
      simp [Sees, hr]

theorem sees_iff_of_run {s s' : State S T} {as : List (Action S)}
    (hrun : run step s as = some s') {k : Nat} (hk : k < s.emitted.length) :
    k < s'.emitted.length ∧ (Sees s' k ↔ Sees s k) := by
  refine run_invariant step (I := fun m ↦ k < m.emitted.length ∧ (Sees m k ↔ Sees s k)) ?_
    ⟨hk, Iff.rfl⟩ hrun
  intro m a m' hI hstep
  obtain ⟨hk', hsees⟩ := (step_transition hstep).sees_iff hI.1
  exact ⟨hk', hsees.trans hI.2⟩

/-! ## What the caller has done -/

section

variable {steps : List (Call (Transport T) Unit)} {t : Transport T} {earlier : List S.Event}

/-- The rest of the program does what the whole of it would have done from the beginning.  No
event loop of this call runs unless the program has spawned it. -/
def OnTrack (steps : List (Call (Transport T) Unit)) (t : Transport T) (s : State S T) : Prop :=
  s.loopsBefore = t.tasks.count .eventLoop ∧
    match s.caller with
    | .running rest => exec (inOrder rest) s.transport = exec (inOrder steps) t
    | .returned (.ok ()) _ => exec (inOrder steps) t = (.ok (), s.transport)
    | .returned (.error _) _ => True

theorem Transition.onTrack {s s' : State S T} {a : Action S} (h : Transition s a s')
    (hI : OnTrack steps t s) : OnTrack steps t s' := by
  obtain ⟨hbefore, hcaller⟩ := hI
  refine ⟨by cases h <;> exact hbefore, ?_⟩
  cases h with
  | returned hc =>
      rw [hc] at hcaller
      exact hcaller.symm
  | advanced c rest transport hc hexec =>
      rw [hc] at hcaller
      exact (exec_inOrder_cons_ok hexec rest).symm.trans hcaller
  | failed => trivial
  | listened | emitted | received => exact hcaller

theorem onTrack_of_run {s : State S T} {as : List (Action S)}
    (hrun : run step (.init t steps earlier) as = some s) : OnTrack steps t s :=
  run_invariant step (fun _ _ _ hI hstep ↦ (step_transition hstep).onTrack hI)
    (I := OnTrack steps t) ⟨rfl, rfl⟩ hrun

theorem behind_of_run {s : State S T} {as : List (Action S)}
    (hrun : run step (.init t steps earlier) as = some s) : Behind s :=
  run_invariant step (fun _ _ _ hI hstep ↦ (step_transition hstep).behind hI)
    (I := Behind) (.init steps t earlier) hrun

/-- A loop with a receiver can catch up. -/
theorem exists_caughtUp_of_receiver (d : Nat) : ∀ {s : State S T} {r : Receiver},
    s.receiver = some r → r.next + d = s.emitted.length →
      ∃ as s', run step s as = some s' ∧ CaughtUp s' := by
  induction d with
  | zero => exact fun {s r} hr hd ↦ ⟨[], s, rfl, r, hr, hd⟩
  | succ d ih =>
      intro s r hr hd
      let m : State S T := { s with receiver := some { r with next := r.next + 1 } }
      have hstep : step s .receive = some m := by
        simp only [step, hr]
        exact if_pos (by omega)
      have hd' : r.next + 1 + d = m.emitted.length := by
        simp only [m]
        omega
      obtain ⟨as, s', hrun, hup⟩ := ih (s := m) rfl hd'
      exact ⟨.receive :: as, s', (run_cons_eq_some _).2 ⟨m, hstep, hrun⟩, hup⟩

/-- Once its loop is spawned, the loop can catch up. -/
theorem exists_caughtUp {s : State S T} (hbehind : Behind s)
    (hspawned : s.loopsBefore < s.transport.tasks.count .eventLoop) :
    ∃ as s', run step s as = some s' ∧ CaughtUp s' := by
  cases hr : s.receiver with
  | none =>
      let r : Receiver := ⟨s.emitted.length, s.emitted.length⟩
      refine ⟨[.listen], { s with receiver := some r }, ?_, r, rfl, rfl⟩
      simp [step, hr, hspawned, r]
  | some r =>
      have hle := (hbehind.receiver r hr).2
      exact exists_caughtUp_of_receiver (s.emitted.length - r.next) hr (by omega)

end

/-- Which events the loop receives is settled when they are emitted. -/
theorem receives_iff_sees {s : State S T} (hbehind : Behind s)
    (hspawned : s.loopsBefore < s.transport.tasks.count .eventLoop) {k : Nat}
    (hk : k < s.emitted.length) : Receives s k ↔ Sees s k := by
  constructor
  · intro h
    obtain ⟨as, s', hrun, hup⟩ := exists_caughtUp hbehind hspawned
    obtain ⟨r, hr, hsince, -⟩ := h as s' hrun hup
    exact (sees_iff_of_run hrun hk).2.1 ⟨r, hr, hsince⟩
  · rintro hsees as s' hrun ⟨r, hr, hnext⟩
    obtain ⟨hk', hsees'⟩ := sees_iff_of_run hrun hk
    obtain ⟨r', hr', hsince⟩ := hsees'.2 hsees
    cases hr.symm.trans hr'
    exact ⟨r, hr, hsince, hnext ▸ hk'⟩

/-- An event is seen if the loop has its receiver when the event is emitted. -/
theorem sees_emitted_iff {s : State S T} (hbehind : Behind s) (event : S.Event) :
    Sees { s with emitted := s.emitted ++ [event] } s.emitted.length ↔
      s.receiver.isSome = true := by
  constructor
  · rintro ⟨r, hr, -⟩
    exact Option.isSome_iff_exists.2 ⟨r, hr⟩
  · intro h
    obtain ⟨r, hr⟩ := Option.isSome_iff_exists.1 h
    exact ⟨r, hr, (hbehind.receiver r hr).1⟩

theorem Transition.caller_returned {s s' : State S T} {a : Action S} (h : Transition s a s')
    {n : Nat} (hc : s.caller = .returned (.ok ()) n) : s'.caller = .returned (.ok ()) n := by
  cases h with
  | returned hc' | advanced _ _ _ hc' | failed _ _ _ _ hc' =>
      rw [hc] at hc'
      cases hc'
  | listened | emitted | received => exact hc

theorem caller_returned_of_run {s s' : State S T} {as : List (Action S)}
    (hrun : run step s as = some s') {n : Nat} (hc : s.caller = .returned (.ok ()) n) :
    s'.caller = .returned (.ok ()) n :=
  run_invariant step (I := fun m ↦ m.caller = .returned (.ok ()) n)
    (fun _ _ _ hI hstep ↦ (step_transition hstep).caller_returned hI) hc hrun

/-- A step in time keeps every event seen that was emitted after `start`. -/
theorem Transition.sees_all {s s' : State S T} {a : Action S} (h : Transition s a s')
    (hbehind : Behind s) (hlisten : ListensInTime s a)
    (hI : ∀ k, EmittedAfterStart s k → Sees s k) : ∀ k, EmittedAfterStart s' k → Sees s' k := by
  have hold : ∀ k, EmittedAfterStart s k → Sees s' k := fun k hk ↦ by
    obtain ⟨n, -, -, hlt⟩ := id hk
    exact (h.sees_iff hlt).2.2 (hI k hk)
  rintro k ⟨n, hc, hle, hlt⟩
  cases h with
  | returned hc' =>
      -- nothing has been emitted since the call returned
      cases hc
      exact absurd hlt (Nat.not_lt_of_le hle)
  | advanced | failed => cases hc
  | listened | received => exact hold k ⟨n, hc, hle, hlt⟩
  | emitted event =>
      rw [List.length_append, List.length_singleton] at hlt
      rcases Nat.lt_succ_iff_lt_or_eq.1 hlt with hlt | rfl
      · exact hold k ⟨n, hc, hle, hlt⟩
      · exact (sees_emitted_iff hbehind event).2 (hlisten event n rfl hc)

theorem sees_all_iff {steps : List (Call (Transport T) Unit)} {t : Transport T}
    {earlier : List S.Event} {as : List (Action S)} {s : State S T}
    (hrun : run step (.init t steps earlier) as = some s) :
    (∀ k, EmittedAfterStart s k → Sees s k) ↔
      Always step ListensInTime (.init t steps earlier) as := by
  constructor
  · intro hall
    refine Always.of_forall fun pre a post m has hpre ↦ ?_
    rintro event n rfl hc
    rw [has] at hrun
    obtain ⟨m', hm', hpost⟩ := (run_append_eq_some step).1 hrun
    cases hpre.symm.trans hm'
    obtain ⟨m', hm', hpost⟩ := (run_cons_eq_some step).1 hpost
    cases hm'
    -- the event is the last that has been emitted then
    have hk : m.emitted.length < (m.emitted ++ [event]).length := by simp
    obtain ⟨hks, hsees⟩ := sees_iff_of_run hpost hk
    have hbehind := behind_of_run hpre
    have hseen := hall m.emitted.length
      ⟨n, caller_returned_of_run hpost hc, hbehind.caller n hc, hks⟩
    exact (sees_emitted_iff hbehind event).1 (hsees.1 hseen)
  · intro hlisten
    have h := run_invariant_of_always
      (fun m ↦ Behind m ∧ ∀ k, EmittedAfterStart m k → Sees m k)
      (fun m a m' hI hP hstep ↦ ⟨(step_transition hstep).behind hI.1,
        (step_transition hstep).sees_all hI.1 hP hI.2⟩)
      ⟨.init steps t earlier, by rintro k ⟨n, ⟨⟩, -⟩⟩ hlisten hrun
    exact h.2

/-- In every run, the loop receives all that is emitted after `start` has returned `Ok` exactly
if it has its receiver whenever an event is emitted after that. -/
theorem receives_all_iff (host : Host) (answers : Answers S) (relayUrls : List String)
    (t : Transport host.Tables) (earlier : List S.Event) (as : List (Action S))
    (s : State S host.Tables)
    (hrun : run step (.init t (host.transportSteps answers relayUrls) earlier) as = some s) :
    (∀ k, EmittedAfterStart s k → Receives s k) ↔
      Always step ListensInTime (.init t (host.transportSteps answers relayUrls) earlier) as := by
  rw [← sees_all_iff hrun]
  refine forall_congr' fun k ↦ forall_congr' fun hk ↦ ?_
  obtain ⟨n, hc, -, hlt⟩ := hk
  refine receives_iff_sees (behind_of_run hrun) ?_ hlt
  obtain ⟨hbefore, htrack⟩ := onTrack_of_run hrun
  rw [hc] at htrack
  -- the call has returned `Ok`, so it has spawned the loop
  rw [Host.transportSteps, inOrder_startSteps] at htrack
  have hspawned : 0 < host.spawned.count .eventLoop := by cases host <;> decide
  rw [hbefore, tasks_of_startTransport htrack, List.count_append]
  exact Nat.lt_add_of_pos_right hspawned

/-- A server's call of `start` to which the signer and the relays comply. -/
def serverStart : State Symbolic.sdk ServerTables :=
  .init (.new ⟨∅, ∅⟩) (Host.gateway.transportSteps Lifecycle.compliant []) []

/-- The scheduler gets to the event loop before an event is emitted. -/
def promptSchedule : List (Action Symbolic.sdk) :=
  [.advance, .advance, .advance, .advance, .advance, .listen,
    .emit (Symbolic.message "A" 0 [] Symbolic.toolCall), .receive]

def promptState : State Symbolic.sdk ServerTables := (run step serverStart promptSchedule).get rfl

theorem receives_all_iff_promptState :
    (∀ k, EmittedAfterStart promptState k → Receives promptState k) ↔
      Always step ListensInTime serverStart promptSchedule :=
  receives_all_iff .gateway Lifecycle.compliant [] (.new ⟨∅, ∅⟩) [] promptSchedule promptState rfl

/-- The scheduler gets to the event loop after an event was emitted. -/
def lateSchedule : List (Action Symbolic.sdk) :=
  [.advance, .advance, .advance, .advance, .advance,
    .emit (Symbolic.message "A" 0 [] Symbolic.toolCall), .listen]

def lateState : State Symbolic.sdk ServerTables := (run step serverStart lateSchedule).get rfl

theorem event_missed_after_start :
    ¬ ∀ (S : Sdk) (host : Host) (answers : Answers S) (relayUrls : List String)
      (t : Transport host.Tables) (earlier : List S.Event) (as : List (Action S))
      (s : State S host.Tables),
      run step (.init t (host.transportSteps answers relayUrls) earlier) as = some s →
        ∀ k, EmittedAfterStart s k → Receives s k := by
  intro hall
  have hreceives : Receives lateState 0 :=
    hall Symbolic.sdk .gateway Lifecycle.compliant [] (.new ⟨∅, ∅⟩) [] lateSchedule lateState rfl 0
      ⟨0, rfl, Nat.le_refl 0, Nat.zero_lt_one⟩
  obtain ⟨r, hr, hsince, -⟩ := hreceives [] lateState rfl ⟨⟨1, 1⟩, rfl, rfl⟩
  have hr' : r = ⟨1, 1⟩ := Option.some.inj hr.symm
  rw [hr'] at hsince
  exact absurd hsince (by decide)

end Startup

end ContextVM
