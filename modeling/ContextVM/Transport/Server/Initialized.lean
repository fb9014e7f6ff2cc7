import ContextVM.Transport.Server.Steps

/-!
# Initialized clients

The flag that marks the session of a client as initialized is set by the client's
`notifications/initialized` and goes with the session: a session that expires, or that
`close` clears, is created anew without it.  `initialized_iff_introduced` says what the flag
means for the history.
-/

namespace ContextVM

namespace IncomingRequest

/-- The message is the notification with which a client introduces itself. -/
def introduces (r : IncomingRequest) : Bool :=
  match r.message with
  | .notification n => n.method = "notifications/initialized"
  | _ => false

end IncomingRequest

namespace ClientSession

@[simp] theorem track_isInitialized (session : ClientSession) (now : Nat)
    (r : IncomingRequest) :
    (session.track now r).isInitialized = (session.isInitialized || r.introduces) := by
  unfold track IncomingRequest.introduces
  cases r.message with
  | request req =>
      simp only [trackRequest, Bool.or_false]
      cases req.progressToken <;> rfl
  | notification n =>
      by_cases hn : n.method = "notifications/initialized" <;> simp [hn, updateActivity]
  | _ => simp [updateActivity]

@[simp] theorem forget_isInitialized (session : ClientSession) (e : String) :
    (session.forget e).isInitialized = session.isInitialized := by
  unfold forget
  cases session.eventToProgressToken.lookup e <;> rfl

end ClientSession

namespace Server

open Lib NostrServerTransport

variable {S : Sdk} {server : NostrServerTransport S}

/-! ## Who is initialized -/

/-- The client has a session, and its flag is set. -/
def Initialized (s : State S) (c : String) : Prop :=
  ∃ session, s.sessions.lookup c = some session ∧ session.isInitialized = true

theorem mem_initializedClients {s : State S} {c : String} :
    c ∈ initializedClients s.sessions ↔ Initialized s c := by
  simp only [initializedClients, List.mem_map, List.mem_filter]
  constructor
  · rintro ⟨⟨c, session⟩, ⟨hmem, hinit⟩, rfl⟩
    exact ⟨session, AList.mem_lookup_iff.2 hmem, hinit⟩
  · rintro ⟨session, hl, hinit⟩
    exact ⟨⟨c, session⟩, ⟨AList.mem_lookup_iff.1 hl, hinit⟩, rfl⟩

theorem nodup_initializedClients (sessions : Table String ClientSession) :
    (initializedClients sessions).Nodup :=
  (sessions.nodupKeys.sublist List.filter_sublist : List.NodupKeys _)

/-- The action brings an accepted `notifications/initialized` of the client. -/
def Introduces (server : NostrServerTransport S) (c : String) (a : Action S) : Prop :=
  ∃ event r, a = .receive event ∧ server.accept event = .ok r ∧ r.clientPubkey = c ∧
    r.introduces = true

/-- The session of the client after a step is the one before it, with the same flag. -/
def FlagKept (c : String) (s s' : State S) : Prop :=
  ∀ session', s'.sessions.lookup c = some session' →
    ∃ session, s.sessions.lookup c = some session ∧ session'.isInitialized = session.isInitialized

theorem FlagKept.of_eq {c : String} {s s' : State S}
    (h : s'.sessions.lookup c = s.sessions.lookup c) : FlagKept c s s' :=
  fun session' hl ↦ ⟨session', h ▸ hl, rfl⟩

/-- A step that does not bring an accepted message of the client keeps its flag. -/
theorem Transition.flagKept {s s' : State S} {a : Action S} (h : Transition server s a s')
    {c : String} (ha : ∀ event r, a = .receive event → server.accept event = .ok r →
      r.clientPubkey ≠ c) : FlagKept c s s' := by
  cases h with
  | tracked event r hacc =>
      exact .of_eq ((State.lookup_sessions_track ..).trans (if_neg (ha event r rfl hacc).symm))
  | cleanedSession i amb e c' ht =>
      intro session' hl
      have hl : (cleanSession e c' s.sessions).lookup c = some session' := hl
      rw [lookup_cleanSession] at hl
      split at hl
      · next hc =>
          obtain ⟨session, hsession, rfl⟩ := Option.map_eq_some_iff.1 hl
          exact ⟨session, hc ▸ hsession, session.forget_isInitialized e⟩
      · exact ⟨session', hl, rfl⟩
  | cleanup => exact fun session' hl ↦ ⟨session', (lookup_keptSessions.1 hl).1, rfl⟩
  | clearedSessions i amb ht => rintro session' ⟨⟩
  | notifying a i task s' _ ht hn hnot => exact .of_eq (by rw [hnot.sessions])
  | _ => exact .of_eq rfl

/-- A client is initialized after a step if it has just introduced itself, or was initialized
before and still has a session. -/
theorem initialized_step {s s' : State S} {a : Action S}
    (hstep : step server s a = some s') (c : String) :
    Initialized s' c ↔
      Introduces server c a ∨ Initialized s c ∧ (s'.sessions.lookup c).isSome := by
  by_cases ha : ∀ event r, a = .receive event → server.accept event = .ok r →
      r.clientPubkey ≠ c
  · have hkept := (step_transition hstep).flagKept ha
    constructor
    · rintro ⟨session', hl', hinit⟩
      obtain ⟨session, hl, hflag⟩ := hkept session' hl'
      exact .inr ⟨⟨session, hl, hflag ▸ hinit⟩, by rw [hl']; rfl⟩
    · rintro (⟨event, r, rfl, hacc, hc, -⟩ | ⟨⟨session, hl, hinit⟩, hsome⟩)
      · exact absurd hc (ha event r rfl hacc)
      · obtain ⟨session', hl'⟩ := Option.isSome_iff_exists.1 hsome
        obtain ⟨session₀, hl₀, hflag⟩ := hkept session' hl'
        cases hl.symm.trans hl₀
        exact ⟨session', hl', hflag.trans hinit⟩
  · push Not at ha
    obtain ⟨event, r, rfl, hacc, rfl⟩ := ha
    simp only [step, hacc, Option.some.injEq] at hstep
    subst hstep
    have hl := s.lookup_sessions_track event r r.clientPubkey
    rw [if_pos rfl] at hl
    have hintro : Introduces server r.clientPubkey (.receive event) ↔ r.introduces = true := by
      constructor
      · rintro ⟨event', r', ⟨⟩, hacc', -, hr⟩
        cases hacc.symm.trans hacc'
        exact hr
      · exact fun hr ↦ ⟨event, r, rfl, hacc, rfl, hr⟩
    unfold Initialized
    rw [hl, hintro]
    cases s.sessions.lookup r.clientPubkey with
    | none => simp [ClientSession.new]
    | some session => simp [or_comm]

/-! ## Introductions in a run -/

/-- The client has a session in every state of the run. -/
def Lasting (server : NostrServerTransport S) (c : String) (m : State S)
    (as : List (Action S)) : Prop :=
  ∀ pre post s, as = pre ++ post → run (step server) m pre = some s →
    (s.sessions.lookup c).isSome

/-- In this run from the start the client has introduced itself with an accepted
`notifications/initialized`, and has had one and the same session since. -/
def Introduced (server : NostrServerTransport S) (c : String) (as : List (Action S)) : Prop :=
  ∃ pre a post m, as = pre ++ a :: post ∧ Introduces server c a ∧
    run (step server) .init (pre ++ [a]) = some m ∧ Lasting server c m post

theorem introduced_concat {as : List (Action S)} {a : Action S} {s s' : State S} {c : String}
    (hrun : run (step server) .init as = some s) (hstep : step server s a = some s') :
    Introduced server c (as ++ [a]) ↔
      (Introduces server c a ∨ Introduced server c as) ∧ (s'.sessions.lookup c).isSome := by
  have hlast : run (step server) .init (as ++ [a]) = some s' :=
    (run_concat_eq_some _).2 ⟨s, hrun, hstep⟩
  constructor
  · rintro ⟨pre, b, post, m, has, hintro, hm, hlasting⟩
    induction post using List.reverseRecOn with
    | nil =>
        obtain ⟨rfl, ⟨⟩⟩ := List.append_inj' has rfl
        cases hm.symm.trans hlast
        exact ⟨.inl hintro, hlasting [] [] s' rfl rfl⟩
    | append_singleton post b' _ =>
        have has' : as ++ [a] = (pre ++ b :: post) ++ [b'] := by simpa using has
        obtain ⟨rfl, ⟨⟩⟩ := List.append_inj' has' rfl
        have hrest : run (step server) m (post ++ [a]) = some s' := by
          have hall := hlast
          rw [show pre ++ b :: post ++ [a] = (pre ++ [b]) ++ (post ++ [a]) by simp] at hall
          obtain ⟨m', hm', hrest⟩ := (run_append_eq_some _).1 hall
          cases hm.symm.trans hm'
          exact hrest
        refine ⟨.inr ⟨pre, b, post, m, rfl, hintro, hm, fun p q t hpq hp ↦ ?_⟩, ?_⟩
        · exact hlasting p (q ++ [a]) t (by rw [hpq, List.append_assoc]) hp
        · exact hlasting _ [] s' (List.append_nil _).symm hrest
  · rintro ⟨hintro | ⟨pre, b, post, m, rfl, hintro, hm, hlasting⟩, hsome⟩
    · refine ⟨as, a, [], s', rfl, hintro, hlast, fun p q t hpq hp ↦ ?_⟩
      obtain ⟨rfl, rfl⟩ := List.append_eq_nil_iff.1 hpq.symm
      cases hp
      exact hsome
    · refine ⟨pre, b, post ++ [a], m, by simp, hintro, hm, fun p q t hpq hp ↦ ?_⟩
      induction q using List.reverseRecOn with
      | nil =>
          rw [List.append_nil] at hpq
          subst hpq
          have hall : run (step server) .init ((pre ++ [b]) ++ (post ++ [a])) = some t :=
            (run_append_eq_some _).2 ⟨m, hm, hp⟩
          rw [show pre ++ [b] ++ (post ++ [a]) = pre ++ b :: post ++ [a] by simp] at hall
          cases hall.symm.trans hlast
          exact hsome
      | append_singleton q b' _ =>
          have hpq' : post ++ [a] = (p ++ q) ++ [b'] := by rw [hpq, List.append_assoc]
          exact hlasting p q t (List.append_inj' hpq' rfl).1 hp

/-- The initialized clients are those that have introduced themselves since their session was
created. -/
theorem initialized_iff_introduced {as : List (Action S)} {s : State S}
    (hrun : run (step server) .init as = some s) (c : String) :
    Initialized s c ↔ Introduced server c as := by
  induction as using List.reverseRecOn generalizing s with
  | nil =>
      cases hrun
      refine iff_of_false ?_ ?_
      · rintro ⟨session, ⟨⟩, -⟩
      · rintro ⟨pre, a, post, m, has, -⟩
        simp at has
  | append_singleton as a ih =>
      obtain ⟨m, hm, hstep⟩ := (run_concat_eq_some _).1 hrun
      rw [initialized_step hstep, introduced_concat hm hstep, ih hm]
      constructor
      · rintro (hintro | ⟨hintro, hsome⟩)
        · obtain ⟨session, hl, -⟩ := (initialized_step hstep c).2 (.inl hintro)
          exact ⟨.inl hintro, by rw [hl]; rfl⟩
        · exact ⟨.inr hintro, hsome⟩
      · rintro ⟨hintro | hintro, hsome⟩
        · exact .inl hintro
        · exact .inr ⟨hintro, hsome⟩

end Server

end ContextVM
