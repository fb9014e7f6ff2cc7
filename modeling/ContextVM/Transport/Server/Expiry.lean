import ContextVM.Lib.Lease
import ContextVM.Lib.Trace
import ContextVM.Transport.Server.Mirror

/-!
# How long sessions live

A session is a lease of its client: every accepted message renews it, and a tick of the cleanup
task takes those that have been idle for longer than `session_timeout`.  Answers leave it alone.
The clock only counts at a tick, so an idle session lives on until the tick after its timeout.

`session_iff` says of every run which clients have a session, and since when they have been
idle; `session_age_le` bounds the age of a session, and with it their number, by the ticks; and
`session_kept` says what a client has to do to keep its session.
-/

namespace ContextVM

namespace ClientSession

theorem track_lastActivity (session : ClientSession) (now : Nat)
    (r : IncomingRequest) : (session.track now r).lastActivity = now := by
  unfold track updateActivity
  cases r.message with
  | request req =>
      simp only [trackRequest]
      cases req.progressToken <;> rfl
  | notification n =>
      simp only []
      split <;> rfl
  | _ => rfl

theorem forget_lastActivity (session : ClientSession) (e : String) :
    (session.forget e).lastActivity = session.lastActivity := by
  unfold forget
  cases session.eventToProgressToken.lookup e <;> rfl

end ClientSession

namespace Server

open Lib NostrServerTransport

variable {S : Sdk} {server : NostrServerTransport S}

/-! ## Sessions as leases -/

/-- What a step means for the leases of the clients. -/
def leaseEvent? (server : NostrServerTransport S) (s : State S) :
    Action S → Option (Lease.Event String)
  | .receive event =>
    match server.accept event with
    | .ok r => some (.renew r.clientPubkey)
    | .error _ => none
  | .resume i _ =>
    match s.tasks.lookup i with
    | some .clearSessions => some .clear
    | _ => none
  | .cleanup => some .sweep
  | .elapse d => some (.elapse d)
  | _ => none

/-- The leases of the clients: when they were last active. -/
def leases (s : State S) : Lease String where
  now := s.now
  renewed c := (s.sessions.lookup c).map fun session ↦ session.lastActivity

/-- What a run means for the leases. -/
def leaseEvents (server : NostrServerTransport S) (as : List (Action S)) :
    List (Lease.Event String) :=
  labels (step server) (leaseEvent? server) .init as

theorem renewed_leases (s : State S) (c : String) : (leases s).renewed c =
    (s.sessions.lookup c).map fun session ↦ session.lastActivity := rfl

theorem leases_ext {s : State S} {l : Lease String} (hnow : s.now = l.now)
    (hrenewed : ∀ c, (s.sessions.lookup c).map (fun session ↦ session.lastActivity) =
      l.renewed c) : leases s = l := by
  cases l with
  | mk now renewed =>
      rw [leases, hnow, funext hrenewed]

theorem leases_congr {s s' : State S} (hsessions : s'.sessions = s.sessions)
    (hnow : s'.now = s.now) : leases s' = leases s := by
  rw [leases, hsessions, hnow, leases]

/-- Of the steps of calls only one of `close` has a label. -/
theorem leaseEvent?_resume {s : State S} {i : Nat} {amb : Ambient S} {task : Task}
    (ht : s.tasks.lookup i = some task) (hne : task ≠ .clearSessions) :
    leaseEvent? server s (.resume i amb) = none := by
  cases task <;> simp_all [leaseEvent?]

/-- A session that is not expired is a lease that is young enough. -/
theorem leases_cleanup (s : State S) : leases (s.cleanup server) =
    Lease.step server.config.sessionTimeout (leases s) .sweep := by
  refine leases_ext rfl fun c ↦ Option.ext fun t ↦ ?_
  have hage : ∀ session : ClientSession,
      session.isExpired s.now server.config.sessionTimeout = false ↔
        s.now - session.lastActivity ≤ server.config.sessionTimeout := fun session ↦ by
    simp [ClientSession.isExpired]
  change Option.map _ ((keptSessions _ _ s.sessions).lookup c) = some t ↔
    (Lease.step server.config.sessionTimeout (leases s) .sweep).renewed c = some t
  simp only [Lease.renewed_sweep, leases, Option.map_eq_some_iff, lookup_keptSessions, hage]
  constructor
  · rintro ⟨session, ⟨hl, hyoung⟩, rfl⟩
    exact ⟨⟨session, hl, rfl⟩, hyoung⟩
  · rintro ⟨⟨session, hl, rfl⟩, hyoung⟩
    exact ⟨session, ⟨hl, hyoung⟩, rfl⟩

/-- The clean-up after a response leaves the time of the last activity. -/
theorem leases_cleanSession {s s' : State S} (e c : String) (hnow : s'.now = s.now)
    (hsessions : s'.sessions = cleanSession e c s.sessions) : leases s' = leases s := by
  refine leases_ext hnow fun c' ↦ ?_
  rw [hsessions, lookup_cleanSession]
  by_cases hc : c' = c
  · rw [if_pos hc, hc, Option.map_map, leases]
    congr 1
    funext session
    exact session.forget_lastActivity e
  · rw [if_neg hc, leases]

/-- A step does to the leases what its label says. -/
theorem leases_step {s s' : State S} {a : Action S} (h : step server s a = some s') :
    leases s' = (leaseEvent? server s a).toList.foldl
      (Lease.step server.config.sessionTimeout) (leases s) := by
  have hnone : leaseEvent? server s a = none → leases s' = leases s →
      leases s' = (leaseEvent? server s a).toList.foldl
        (Lease.step server.config.sessionTimeout) (leases s) := by
    intro hlabel hsame
    rw [hlabel]
    exact hsame
  cases step_transition h with
  | tracked event r hacc =>
      simp only [leaseEvent?, hacc, Option.toList_some, List.foldl_cons, List.foldl_nil]
      refine leases_ext rfl fun c ↦ ?_
      rw [State.lookup_sessions_track]
      by_cases hc : c = r.clientPubkey
      · rw [if_pos hc, hc]
        simp [Lease.step, leases, ClientSession.track_lastActivity]
      · rw [if_neg hc]
        simp [Lease.step, leases, Function.update_of_ne hc]
  | refused event why hacc => exact hnone (by simp [leaseEvent?, hacc]) rfl
  | cleanup => exact leases_cleanup s
  | elapsed d => rfl
  | clearedSessions i amb ht =>
      simp only [leaseEvent?, ht, Option.toList_some, List.foldl_cons, List.foldl_nil]
      exact leases_ext rfl fun c ↦ rfl
  | cleanedSession i amb e c ht =>
      exact hnone (leaseEvent?_resume ht (by simp)) (leases_cleanSession e c rfl rfl)
  | notifying a i task s' ha ht hn hnot =>
      refine hnone ?_ (leases_congr hnot.sessions hnot.now)
      rcases ha with ⟨amb, rfl⟩ | ⟨clients, rfl⟩
      · refine leaseEvent?_resume ht ?_
        rintro rfl
        cases hn
      · rfl
  | called op => exact hnone rfl rfl
  | foundClient i amb e response c ht | foundSession i amb e response c session ht
  | responded i amb e response c enc p ht | cleanedRoute i amb e ht
  | failed i amb e next err ht | clearedRoutes i amb ht =>
      exact hnone (leaseEvent?_resume ht (by simp)) rfl

theorem leases_of_run {as : List (Action S)} {s : State S}
    (hrun : run (step server) .init as = some s) :
    leases s = Lease.after server.config.sessionTimeout .init (leaseEvents server as) :=
  view_of_run (fun _ _ _ ↦ leases_step) hrun

theorem now_eq_clock {as : List (Action S)} {s : State S}
    (hrun : run (step server) .init as = some s) :
    s.now = Lease.clock (leaseEvents server as) := by
  have hnow := congrArg Lease.now (leases_of_run hrun)
  rw [Lease.now_after] at hnow
  exact hnow.trans (Nat.zero_add _)

/-! ## Sessions over runs -/

/-- A client has a session in which it was last active at `t` exactly if a message of it was
accepted then and, since, no other, no tick more than the timeout later, and no `close`. -/
theorem session_iff {as : List (Action S)} {s : State S}
    (hrun : run (step server) .init as = some s) (c : String) (t : Nat) :
    (∃ session, s.sessions.lookup c = some session ∧ session.lastActivity = t) ↔
      Lease.Holds server.config.sessionTimeout c t (leaseEvents server as) := by
  rw [← Lease.renewed_after_iff, ← leases_of_run hrun]
  exact Option.map_eq_some_iff.symm

/-- If a tick comes at least every `interval`, a client has a session for no longer than the
timeout and the interval after its last message; so the sessions are no more than the clients
that were heard in that time. -/
theorem session_age_le {as : List (Action S)} {s : State S}
    (hrun : run (step server) .init as = some s) {interval : Nat}
    (hticks : Lease.Swept interval (leaseEvents server as)) :
    (∀ c session, s.sessions.lookup c = some session →
      s.now ≤ session.lastActivity + server.config.sessionTimeout + interval) ∧
    ∃ earlier recent, leaseEvents server as = earlier ++ recent ∧
      Lease.clock recent ≤ server.config.sessionTimeout + interval ∧
      ∀ c ∈ s.sessions, .renew c ∈ recent := by
  have hleases := leases_of_run hrun
  have hrenewed : ∀ c session, s.sessions.lookup c = some session →
      (Lease.after server.config.sessionTimeout .init (leaseEvents server as)).renewed c =
        some session.lastActivity := by
    intro c session hl
    rw [← hleases, renewed_leases, hl]
    rfl
  constructor
  · intro c session hl
    rw [now_eq_clock hrun]
    exact Lease.age_le hticks (hrenewed c session hl)
  · obtain ⟨earlier, recent, heq, hrecent, hheard⟩ := Lease.exists_renewed_recently hticks
    refine ⟨earlier, recent, heq, hrecent, fun c hc ↦ hheard c ?_⟩
    obtain ⟨session, hl⟩ := Option.isSome_iff_exists.1 (AList.lookup_isSome.2 hc)
    rw [hrenewed c session hl]
    rfl

/-- A client that is heard at least every `session_timeout` keeps its session, until a
`close`. -/
theorem session_kept {as : List (Action S)} {s : State S}
    (hrun : run (step server) .init as = some s) {c : String}
    {earlier later : List (Lease.Event String)}
    (hevents : leaseEvents server as = earlier ++ .renew c :: later) (hclear : .clear ∉ later)
    (hheard : ∀ before stretch, later = before ++ stretch → .renew c ∉ stretch →
      Lease.clock stretch ≤ server.config.sessionTimeout) : c ∈ s.sessions := by
  have hsome : ((Lease.after server.config.sessionTimeout .init
      (earlier ++ .renew c :: later)).renewed c).isSome = true :=
    Lease.isSome_renewed hclear hheard
  rw [← hevents, ← leases_of_run hrun] at hsome
  exact AList.lookup_isSome.1 (by simpa [leases] using hsome)

/-! ## A run -/

/-- A message, and a tick a second later. -/
def idleRun : List (Action Symbolic.sdk) :=
  [.receive (Symbolic.message "A" 0 [] Symbolic.toolCall), .elapse 1, .cleanup]

def idleState : State Symbolic.sdk := (run (step openServer) .init idleRun).get rfl

theorem leaseEvents_idleRun :
    leaseEvents openServer idleRun = [.renew "A", .elapse 1, .sweep] := rfl

theorem session_iff_idleState :
    (∃ session, idleState.sessions.lookup "A" = some session ∧ session.lastActivity = 0) ∧
      ¬ ∃ session, idleState.sessions.lookup "B" = some session ∧ session.lastActivity = 0 := by
  have hrun : run (step openServer) .init idleRun = some idleState := rfl
  refine ⟨(session_iff hrun "A" 0).2 ⟨[], [.elapse 1, .sweep], rfl, rfl, by decide, trivial⟩, ?_⟩
  rw [session_iff hrun "B" 0, leaseEvents_idleRun]
  rintro ⟨earlier, later, heq, -⟩
  have hmem : (.renew "B" : Lease.Event String) ∈ [.renew "A", .elapse 1, .sweep] := by
    rw [heq]
    simp
  exact absurd hmem (by decide)

theorem session_age_le_idleState : ∃ earlier recent,
    leaseEvents openServer idleRun = earlier ++ recent ∧ Lease.clock recent ≤ 300 + 1 ∧
      ∀ c ∈ idleState.sessions, .renew c ∈ recent := by
  have hrun : run (step openServer) .init idleRun = some idleState := rfl
  refine (session_age_le hrun ?_).2
  intro earlier stretch later heq _
  have hclock := congrArg Lease.clock heq
  rw [Lease.clock_append, Lease.clock_append] at hclock
  have htotal : Lease.clock (leaseEvents openServer idleRun) = 1 := rfl
  omega

theorem session_kept_idleState : "A" ∈ idleState.sessions := by
  have hrun : run (step openServer) .init idleRun = some idleState := rfl
  have hevents : leaseEvents openServer idleRun = [] ++ .renew "A" :: [.elapse 1, .sweep] := rfl
  refine session_kept hrun hevents (by decide) fun before stretch heq _ ↦ ?_
  have hclock := congrArg Lease.clock heq
  rw [Lease.clock_append] at hclock
  have htotal : Lease.clock ([.elapse 1, .sweep] : List (Lease.Event String)) = 1 := rfl
  have htimeout : openServer.config.sessionTimeout = 300 := rfl
  omega

end Server

end ContextVM
