import ContextVM.Lib.Readers
import ContextVM.Transport.Server.Mirror
import ContextVM.Transport.Restart.System

/-!
# One loop at a time

The event loops are readers of one log, that of the emitted events; those that the server
accepts are the relevant ones.  They are forwarded at most once, and not after a stop, as long
as

* an event that the server accepts is emitted only when no loop listens, or when one loop
  listens and a loop was spawned since the sessions were last cleared;
* the sessions are cleared only when no loop has such an event before it.
-/

namespace ContextVM.Restart

open Lib NostrServerTransport

variable {S : Sdk} {server : NostrServerTransport S} {object : Object}
  {relayUrls : List String}

/-- An event that the server accepts was emitted in place `k`. -/
def Relevant (server : NostrServerTransport S) (emitted : List S.Event) (k : Nat) : Prop :=
  ∃ event r, emitted[k]? = some event ∧ server.accept event = .ok r

/-- No loop has an event before it that the server accepts. -/
def Quiet (server : NostrServerTransport S) (s : State S) : Prop :=
  ∀ l ∈ s.loops, ∀ k, l.next ≤ k → ¬ Relevant server s.emitted k

/-- The condition on the steps of a run. -/
def Orderly (server : NostrServerTransport S) (s : State S) : Action S → Prop
  | .emit event => (∃ r, server.accept event = .ok r) →
      s.loops = [] ∨ (s.loops.length = 1 ∧ s.opened = true)
  | .advance _ => ∀ kind rest, s.call = some ⟨kind, .clearSessions :: rest⟩ → Quiet server s
  | _ => True

/-! ## The events of the loops -/

theorem Relevant.lt {emitted : List S.Event} {k : Nat} (h : Relevant server emitted k) :
    k < emitted.length := by
  obtain ⟨event, r, he, -⟩ := h
  exact (List.getElem?_eq_some_iff.1 he).1

theorem relevant_concat {emitted : List S.Event} {event : S.Event} {k : Nat} :
    Relevant server (emitted ++ [event]) k ↔
      Relevant server emitted k ∨ k = emitted.length ∧ ∃ r, server.accept event = .ok r := by
  unfold Relevant
  rcases Nat.lt_trichotomy k emitted.length with hk | rfl | hk
  · rw [List.getElem?_append_left hk]
    simp [hk.ne]
  · simp
  · have hnone : (emitted ++ [event])[k]? = none := by
      rw [List.getElem?_eq_none_iff, List.length_append]
      exact hk
    have hnone' : emitted[k]? = none := List.getElem?_eq_none hk.le
    simp [hnone, hnone', hk.ne']

/-- The places of the loops. -/
def State.readers (s : State S) : List Nat := s.loops.map Loop.next

/-- The places of the events that were forwarded. -/
def State.delivered (s : State S) : List Nat := s.forwarded.map Prod.fst

theorem readers_setLoop (s : State S) (i : Nat) (l : Loop) :
    (s.setLoop i l).readers = s.readers.set i l.next := List.map_set

theorem readers_getElem {s : State S} {i : Nat} {l : Loop} (h : s.loops[i]? = some l) :
    s.readers[i]? = some l.next := by
  simp [State.readers, h]

/-- A loop that stays where it is. -/
theorem readers_set_self {s : State S} {i : Nat} {l : Loop} (h : s.loops[i]? = some l) :
    s.readers.set i l.next = s.readers := by
  obtain ⟨hi, hl⟩ := List.getElem?_eq_some_iff.1 (readers_getElem h)
  rw [← hl, List.set_getElem_self]

theorem mem_setLoop {s : State S} {i : Nat} {l l' : Loop}
    (h : l' ∈ (s.setLoop i l).loops) : l' ∈ s.loops ∨ l' = l :=
  List.mem_or_eq_of_mem_set h

/-- What holds of the loops and of what they forward. -/
structure Inv (server : NostrServerTransport S) (s : State S) : Prop where
  exclusive : Exclusive (Relevant server s.emitted) s.readers s.delivered
  behind : ∀ l ∈ s.loops, l.next ≤ s.emitted.length
  past : ∀ k ∈ s.delivered, k < s.emitted.length
  /-- A loop is busy only with an event that the server accepts. -/
  busy : ∀ l ∈ s.loops, l.stage ≠ .idle → Relevant server s.emitted l.next
  quiet : s.opened = false → Quiet server s

theorem Inv.init : Inv server (.init : State S) where
  exclusive := .nil
  behind := by simp [State.init]
  past := by simp [State.init, State.delivered]
  busy := by simp [State.init]
  quiet := by simp [State.init, Quiet]

/-- A loop that is busy has been spawned since the sessions were cleared. -/
theorem Inv.opened_of_busy {s : State S} (hI : Inv server s) {l : Loop} (hl : l ∈ s.loops)
    (hstage : l.stage ≠ .idle) : s.opened ≠ false :=
  fun h ↦ hI.quiet h l hl l.next (Nat.le_refl _) (hI.busy l hl hstage)

/-- A loop goes on, or to another stage. -/
theorem Inv.setLoop {s : State S} (hI : Inv server s) {i : Nat} {l l' : Loop}
    (hl : s.loops[i]? = some l) (hnext : l.next ≤ l'.next)
    (hbehind : l'.next ≤ s.emitted.length)
    (hbusy : l'.stage ≠ .idle → Relevant server s.emitted l'.next)
    (hexclusive : Exclusive (Relevant server s.emitted) (s.readers.set i l'.next) s.delivered) :
    Inv server (s.setLoop i l') where
  exclusive := by
    rw [readers_setLoop]
    exact hexclusive
  behind := by
    intro x hx
    rcases mem_setLoop hx with hx | rfl
    · exact hI.behind x hx
    · exact hbehind
  past := hI.past
  busy := by
    intro x hx hstage
    rcases mem_setLoop hx with hx | rfl
    · exact hI.busy x hx hstage
    · exact hbusy hstage
  quiet := by
    intro hopened x hx k hk
    rcases mem_setLoop hx with hx | rfl
    · exact hI.quiet hopened x hx k hk
    · exact hI.quiet hopened l (List.mem_of_getElem? hl) k (hnext.trans hk)

/-- An event is emitted.  If the server accepts it, one loop listens at most. -/
theorem Inv.emit {s : State S} (hI : Inv server s) {event : S.Event}
    (hord : Orderly server s (.emit event)) :
    Inv server { s with emitted := s.emitted ++ [event] } := by
  obtain ⟨hexclusive, hbehind, hpast, hbusy, hquiet⟩ := hI
  have hlen : s.emitted.length ≤ (s.emitted ++ [event]).length := by simp
  constructor
  · refine hexclusive.grow hpast fun k hk ↦ ?_
    rcases relevant_concat.1 hk with hk | ⟨hk, hacc⟩
    · exact .inl hk
    · refine .inr ⟨hk, ?_⟩
      rcases hord hacc with hnil | ⟨hone, -⟩
      · simp [State.readers, hnil]
      · simp [State.readers, hone]
  · exact fun l hl ↦ (hbehind l hl).trans hlen
  · exact fun k hk ↦ (hpast k hk).trans_le hlen
  · exact fun l hl hstage ↦ relevant_concat.2 (.inl (hbusy l hl hstage))
  · intro hopened l hl k hk hrel
    rcases relevant_concat.1 hrel with hrel | ⟨-, hacc⟩
    · exact hquiet hopened l hl k hk hrel
    · -- the loop listens although nothing is open
      rcases hord hacc with hnil | ⟨-, hopened'⟩
      · simp [hnil] at hl
      · cases hopened.symm.trans hopened'

/-- A loop begins to listen.  It has no event before it. -/
theorem Inv.listen {s : State S} (hI : Inv server s) :
    Inv server { s with loops := s.loops ++ [⟨s.emitted.length, .idle⟩] } := by
  obtain ⟨hexclusive, hbehind, hpast, hbusy, hquiet⟩ := hI
  have hmem : ∀ l ∈ s.loops ++ [(⟨s.emitted.length, .idle⟩ : Loop)],
      l ∈ s.loops ∨ l = ⟨s.emitted.length, .idle⟩ := by
    simp
  constructor
  · have hjoin := hexclusive.join fun k hk ↦ hk.lt
    rw [State.readers, List.map_append]
    exact hjoin
  · intro l hl
    rcases hmem l hl with hl | rfl
    · exact hbehind l hl
    · exact Nat.le_refl _
  · exact hpast
  · intro l hl hstage
    rcases hmem l hl with hl | rfl
    · exact hbusy l hl hstage
    · exact absurd rfl hstage
  · intro hopened l hl k hk hrel
    rcases hmem l hl with hl | rfl
    · exact hquiet hopened l hl k hk hrel
    · exact Nat.not_lt_of_le hk hrel.lt

/-- Only the step that clears the sessions ends what a spawned loop has opened. -/
theorem opened_of_opens {opened : Bool} {i : Instr} (h : i.opens opened = false)
    (hi : i ≠ .clearSessions) : opened = false := by
  cases i with
  | clearSessions => exact absurd rfl hi
  | spawn task =>
      cases task with
      | eventLoop => cases h
      | cleanup => exact h
  | _ => exact h

theorem Transition.inv {s s' : State S} {a : Action S}
    (h : Transition server object relayUrls s a s') (hI : Inv server s)
    (hord : Orderly server s a) : Inv server s' := by
  obtain ⟨hexclusive, hbehind, hpast, hbusy, hquiet⟩ := id hI
  cases h with
  | startRefused | startBegun | nothingToStop | stopBegun | failed | cleaned =>
      exact ⟨hexclusive, hbehind, hpast, hbusy, hquiet⟩
  | finished answers kind =>
      cases kind <;> exact ⟨hexclusive, hbehind, hpast, hbusy, hquiet⟩
  | advanced answers kind i rest endpoint hc hexec =>
      refine ⟨hexclusive, hbehind, hpast, hbusy, fun hopened ↦ ?_⟩
      by_cases hi : i = .clearSessions
      · subst hi
        exact hord kind rest hc
      · exact hquiet (opened_of_opens hopened hi)
  | emitted event => exact hI.emit hord
  | listened => exact hI.listen
  | accepted i next event r hl he hacc =>
      refine hI.setLoop hl (Nat.le_refl next)
        (hbehind ⟨next, .idle⟩ (List.mem_of_getElem? hl)) ?_ ?_
      · exact fun _ ↦ ⟨event, r, he, hacc⟩
      · exact (readers_set_self hl).symm ▸ hexclusive
  | refused i next event why hl he hacc =>
      refine hI.setLoop hl (Nat.le_succ next) (List.getElem?_eq_some_iff.1 he).1 ?_ ?_
      · exact fun hstage ↦ absurd rfl hstage
      · exact hexclusive.skip (readers_getElem hl)
  | tracked i now next r hl tables =>
      have hrel : Relevant server s.emitted next := hbusy _ (List.mem_of_getElem? hl) (by simp)
      have hset : Inv server (s.setLoop i ⟨next, .tracked r⟩) :=
        hI.setLoop hl (Nat.le_refl next) hrel.lt.le (fun _ ↦ hrel)
          ((readers_set_self hl).symm ▸ hexclusive)
      exact ⟨hset.exclusive, hset.behind, hset.past, hset.busy, hset.quiet⟩
  | forwarded i next r hl =>
      have hrel : Relevant server s.emitted next := hbusy _ (List.mem_of_getElem? hl) (by simp)
      have hset : Inv server (s.setLoop i ⟨next + 1, .idle⟩) :=
        hI.setLoop hl (Nat.le_succ next) hrel.lt (fun hstage ↦ absurd rfl hstage)
          (hexclusive.skip (readers_getElem hl))
      refine ⟨?_, hset.behind, List.forall_mem_cons.2 ⟨hrel.lt, hpast⟩, hset.busy, hset.quiet⟩
      have hdeliver := hexclusive.deliver (readers_getElem hl) hrel
      rw [← readers_setLoop s i ⟨next + 1, .idle⟩] at hdeliver
      exact hdeliver

/-! ## The steps of the calls -/

/-- What a step does to the flag of the gateway. -/
def Instr.runs (isRunning : Bool) : Instr → Bool
  | .setRunning => true
  | .unsetRunning => false
  | _ => isRunning

/-- What a step does to the maps. -/
def Instr.clears (tables : ServerTables) : Instr → ServerTables
  | .clearSessions => { tables with sessions := ∅ }
  | .clearRoutes => { tables with eventToClient := ∅ }
  | _ => tables

/-- The steps that can fail. -/
def Instr.Fallible : Instr → Prop
  | .connect | .subscribe | .takeReceiver => True
  | _ => False

/-- What a step changes, and whether it can fail. -/
structure Instr.Effect (i : Instr) (s : Endpoint ServerTables)
    (r : Except Error Unit × Endpoint ServerTables) : Prop where
  running : r.2.isRunning = i.runs s.isRunning
  tables : r.2.transport.tables = i.clears s.transport.tables
  fallible : (∃ e, r.1 = .error e) → i.Fallible

theorem Instr.effect (answers : Answers S) (relayUrls : List String) (i : Instr)
    (s : Endpoint ServerTables) : i.Effect s (exec (i.body answers relayUrls) s) := by
  cases i with
  | connect =>
      unfold body Endpoint.onTransport
      rw [exec_zoom]
      obtain ⟨-, h⟩ | ⟨-, e, h⟩ := exec_connect_cases answers relayUrls s.transport <;>
        exact h ▸ ⟨rfl, rfl, fun _ ↦ trivial⟩
  | subscribe =>
      refine ⟨rfl, ?_, fun _ ↦ trivial⟩
      unfold body Endpoint.onTransport
      rw [exec_zoom, exec_bind]
      cases hk : BaseTransport.getPublicKey answers with
      | error e => simp [Instr.clears]
      | ok pubkey => simp [Instr.clears]
  | takeReceiver =>
      unfold body
      rw [exec_bind]
      have htake : exec (Endpoint.onTransport Transport.takeMessageReceiver) s =
        (.ok s.transport.messageRx, { s with transport.messageRx := none }) := rfl
      rw [htake]
      cases s.transport.messageRx <;> exact ⟨rfl, rfl, fun _ ↦ trivial⟩
  | disconnect =>
      unfold body Endpoint.onTransport
      rw [exec_zoom, exec_disconnect]
      exact ⟨rfl, rfl, by simp⟩
  | spawn | setRunning | clearSessions | clearRoutes | unsetRunning =>
      exact ⟨rfl, rfl, by rintro ⟨e, ⟨⟩⟩⟩

/-! ## The order of the steps -/

section

variable {kind : Kind} {i : Instr} {rest : List Instr}

theorem program_spawn (h : .spawn .eventLoop :: rest <:+ program object kind) :
    kind = .start ∧ (object = .gateway → .setRunning ∈ rest) ∧ .spawn .eventLoop ∉ rest := by
  cases object <;> cases kind <;> simp [program, List.suffix_cons_iff] at h <;> simp [h]

theorem program_clearSessions (h : .clearSessions :: rest <:+ program object kind) :
    .clearRoutes ∈ rest := by
  cases object <;> cases kind <;> simp [program, List.suffix_cons_iff] at h <;> simp [h]

theorem program_unsetRunning (h : .unsetRunning :: rest <:+ program object kind) :
    kind = .stop ∧ .clearSessions ∉ rest := by
  cases object <;> cases kind <;> simp [program, List.suffix_cons_iff] at h
  simp [h]

/-- The steps that can fail are steps of `start`.  If the flag is still to be set, so is the loop
still to be spawned. -/
theorem program_fallible (hi : i.Fallible) (h : i :: rest <:+ program object kind) :
    kind = .start ∧ .clearRoutes ∉ i :: rest ∧
      (.setRunning ∈ i :: rest → .spawn .eventLoop ∈ rest) := by
  cases i with
  | connect | subscribe | takeReceiver =>
      cases object <;> cases kind <;> simp [program, List.suffix_cons_iff] at h <;> simp [h]
  | _ => cases hi

end

/-! ## Where the calls are -/

/-- The maps of the transport. -/
def State.tables (s : State S) : ServerTables := s.endpoint.transport.tables

/-- The steps that the call under way is still to make. -/
def State.rest (s : State S) : List Instr := (s.call.map Running.rest).getD []

/-- What holds of the maps and the flags while calls are made. -/
structure Phase (object : Object) (s : State S) : Prop where
  suffix : ∀ kind rest, s.call = some ⟨kind, rest⟩ → rest <:+ program object kind
  sessions : s.opened = false → s.tables.sessions = ∅
  routes : s.opened = false → s.tables.eventToClient = ∅ ∨ .clearRoutes ∈ s.rest
  running : object = .gateway → s.endpoint.isRunning = false →
    s.opened = false ∨ .setRunning ∈ s.rest ∧ .spawn .eventLoop ∉ s.rest
  closing : ∀ rest, s.call = some ⟨.stop, rest⟩ → .clearSessions ∉ rest → s.opened = false
  stopped : ∀ n, s.stopped = some n → s.opened = false ∧ s.tables.eventToClient = ∅ ∧
    s.forwarded.length = n ∧ ∀ rest, s.call ≠ some ⟨.start, rest⟩

theorem Phase.init : Phase object (.init : State S) where
  suffix := by rintro kind rest ⟨⟩
  sessions _ := rfl
  routes _ := .inl rfl
  running _ _ := .inl rfl
  closing := by rintro rest ⟨⟩
  stopped := by rintro n ⟨⟩

/-- Between two calls, a gateway that is not running has been cleared, and so have the routes
if the sessions have. -/
theorem Phase.calm {s : State S} (hP : Phase object s) (hrest : s.rest = []) :
    (s.opened = false → s.tables.eventToClient = ∅) ∧
      (object = .gateway → s.endpoint.isRunning = false → s.opened = false) := by
  have hroutes := hP.routes
  have hrunning := hP.running
  simp only [hrest, List.not_mem_nil, or_false, false_and] at hroutes hrunning
  exact ⟨hroutes, hrunning⟩

/-- A call begins. -/
theorem Phase.begin {s : State S} (hP : Phase object s) (hc : s.call = none) (kind : Kind)
    (hstopped : ∀ n, s.stopped = some n → kind = .stop) : Phase object (s.begin object kind) := by
  obtain ⟨hroutes, hrunning⟩ := hP.calm (by simp [State.rest, hc])
  refine ⟨?_, hP.sessions, fun h ↦ .inl (hroutes h), fun hobject h ↦ .inl (hrunning hobject h),
    ?_, ?_⟩
  · rintro _ _ ⟨⟩
    exact List.suffix_refl _
  · rintro rest hcall hclear
    cases hcall
    cases object <;> simp [program] at hclear
  · intro n hn
    obtain ⟨hopened, htables, hlen, -⟩ := hP.stopped n hn
    refine ⟨hopened, htables, hlen, ?_⟩
    rintro rest ⟨⟩
    cases hstopped n hn

/-- A call returns `Ok`. -/
theorem Phase.finish {s : State S} (hP : Phase object s) (hrest : s.rest = []) (kind : Kind)
    (hclosed : kind = .stop → s.opened = false)
    (hstopped : ∀ n, s.stopped = some n → kind = .stop) : Phase object (s.finish kind) := by
  obtain ⟨hroutes, hrunning⟩ := hP.calm hrest
  cases kind with
  | start =>
      refine ⟨?_, hP.sessions, fun h ↦ .inl (hroutes h), fun hobject h ↦ .inl (hrunning hobject h),
        ?_, ?_⟩
      · rintro kind rest ⟨⟩
      · rintro rest ⟨⟩
      · intro n hn
        cases hstopped n hn
  | stop =>
      have hopened := hclosed rfl
      refine ⟨?_, hP.sessions, fun h ↦ .inl (hroutes h), fun hobject h ↦ .inl (hrunning hobject h),
        ?_, ?_⟩
      · rintro kind rest ⟨⟩
      · rintro rest ⟨⟩
      · rintro n ⟨⟩
        exact ⟨hopened, hroutes hopened, rfl, by rintro rest ⟨⟩⟩

/-- A call returns an error. -/
theorem Phase.failed {s : State S} (hP : Phase object s) {kind : Kind} {i : Instr}
    {rest : List Instr} {endpoint : Endpoint ServerTables}
    (hc : s.call = some ⟨kind, i :: rest⟩) (hi : i.Fallible)
    (hrunning : endpoint.isRunning = s.endpoint.isRunning)
    (htables : endpoint.transport.tables = s.tables) :
    Phase object { s with endpoint, call := none } := by
  obtain ⟨hkind, hroute, hset⟩ := program_fallible hi (hP.suffix kind _ hc)
  have hrest : s.rest = i :: rest := by simp [State.rest, hc]
  refine ⟨?_, ?_, ?_, ?_, ?_, ?_⟩
  · rintro _ _ ⟨⟩
  · intro h
    simpa [State.tables, htables] using hP.sessions h
  · intro h
    have hroutes := hP.routes h
    rw [hrest, or_iff_left hroute] at hroutes
    exact .inl (by simpa [State.tables, htables] using hroutes)
  · intro hobject h
    rcases hP.running hobject (hrunning ▸ h) with hopened | ⟨hin, hout⟩
    · exact .inl hopened
    · rw [hrest] at hin hout
      exact absurd (List.mem_cons_of_mem i (hset hin)) hout
  · rintro _ ⟨⟩
  · intro n hn
    obtain ⟨-, -, -, hstart⟩ := hP.stopped n hn
    subst hkind
    exact absurd hc (hstart _)

theorem Instr.clears_sessions (i : Instr) (tables : ServerTables) :
    (i.clears tables).sessions = if i = .clearSessions then ∅ else tables.sessions := by
  cases i <;> rfl

theorem Instr.clears_routes (i : Instr) (tables : ServerTables) :
    (i.clears tables).eventToClient = if i = .clearRoutes then ∅ else tables.eventToClient := by
  cases i <;> rfl

/-- After a step, nothing is open if it has cleared the sessions, or if nothing was open and it
has not spawned a loop. -/
theorem Instr.opens_eq_false {opened : Bool} {i : Instr} :
    i.opens opened = false ↔
      i = .clearSessions ∨ opened = false ∧ i ≠ .spawn .eventLoop := by
  cases i with
  | spawn task => cases task <;> simp [opens]
  | _ => simp [opens]

theorem Instr.runs_eq_false {isRunning : Bool} {i : Instr} :
    i.runs isRunning = false ↔ i = .unsetRunning ∨ isRunning = false ∧ i ≠ .setRunning := by
  cases i <;> simp [runs]

/-- A call makes a step. -/
theorem Phase.advanced {s : State S} (hP : Phase object s) {kind : Kind} {i : Instr}
    {rest : List Instr} {endpoint : Endpoint ServerTables}
    (hc : s.call = some ⟨kind, i :: rest⟩)
    (hrunning : endpoint.isRunning = i.runs s.endpoint.isRunning)
    (htables : endpoint.transport.tables = i.clears s.tables) :
    Phase object
      { s with endpoint, call := some ⟨kind, rest⟩, opened := i.opens s.opened } := by
  have hsuffix := hP.suffix kind _ hc
  have hrest : s.rest = i :: rest := by simp [State.rest, hc]
  refine ⟨?_, ?_, ?_, ?_, ?_, ?_⟩
  · rintro _ _ ⟨⟩
    exact (List.suffix_cons i rest).trans hsuffix
  · intro h
    have hsessions : endpoint.transport.tables.sessions = ∅ := by
      rw [htables, Instr.clears_sessions]
      rcases Instr.opens_eq_false.1 h with hi | ⟨h, -⟩
      · rw [if_pos hi]
      · rw [hP.sessions h, ite_self]
    exact hsessions
  · intro h
    have hroutes : endpoint.transport.tables.eventToClient = ∅ ∨ .clearRoutes ∈ rest := by
      rw [htables, Instr.clears_routes]
      by_cases hi : i = .clearRoutes
      · exact .inl (if_pos hi)
      · rw [if_neg hi]
        rcases Instr.opens_eq_false.1 h with rfl | ⟨h, -⟩
        · exact .inr (program_clearSessions hsuffix)
        · have hroutes := hP.routes h
          rwa [hrest, List.mem_cons, or_iff_right (Ne.symm hi)] at hroutes
    exact hroutes
  · intro hobject h
    by_cases hspawn : i = .spawn .eventLoop
    · subst hspawn
      obtain ⟨-, hset, hspawned⟩ := program_spawn hsuffix
      exact .inr ⟨hset hobject, hspawned⟩
    · -- no loop was spawned, so it is enough that nothing was open before
      have hkeep : s.opened = false → i.opens s.opened = false := fun h ↦
        Instr.opens_eq_false.2 (.inr ⟨h, hspawn⟩)
      rcases Instr.runs_eq_false.1 (hrunning ▸ h) with rfl | ⟨hrun, hi⟩
      · obtain ⟨rfl, hclear⟩ := program_unsetRunning hsuffix
        exact .inl (hkeep (hP.closing _ hc (by simp [hclear])))
      · rcases hP.running hobject hrun with hopened | ⟨hin, hout⟩
        · exact .inl (hkeep hopened)
        · rw [hrest, List.mem_cons, or_iff_right (Ne.symm hi)] at hin
          rw [hrest] at hout
          exact .inr ⟨hin, fun hmem ↦ hout (List.mem_cons_of_mem i hmem)⟩
  · rintro rest' hcall hclear
    cases hcall
    refine Instr.opens_eq_false.2 (or_iff_not_imp_left.2 fun hi ↦ ⟨?_, ?_⟩)
    · refine hP.closing _ hc fun hmem ↦ ?_
      exact (List.mem_cons.1 hmem).elim (fun h ↦ hi h.symm) hclear
    · rintro rfl
      cases (program_spawn hsuffix).1
  · intro n hn
    obtain ⟨hopened, hroutes, hlen, hstart⟩ := hP.stopped n hn
    have hkind : kind ≠ .start := by
      rintro rfl
      exact hstart _ hc
    have hspawn : i ≠ .spawn .eventLoop := by
      rintro rfl
      exact hkind (program_spawn hsuffix).1
    have hroutes' : endpoint.transport.tables.eventToClient = ∅ := by
      rw [htables, Instr.clears_routes, hroutes, ite_self]
    refine ⟨Instr.opens_eq_false.2 (.inr ⟨hopened, hspawn⟩), hroutes', hlen, ?_⟩
    rintro rest' hcall
    cases hcall
    exact hkind rfl

/-- A cleanup tick.  With no sessions there is nothing to clean up. -/
theorem Phase.cleaned {s : State S} (hP : Phase object s) (now timeout : Nat) :
    Phase object { s with
      endpoint.transport.tables.sessions := keptSessions now timeout s.tables.sessions
      endpoint.transport.tables.eventToClient :=
        Table.eraseAll (expiredKeys now timeout s.tables.sessions) s.tables.eventToClient } := by
  obtain ⟨hsuffix, hsessions, hroutes, hrunning, hclosing, hstopped⟩ := hP
  have hkept : ∀ tables : ServerTables, tables.sessions = ∅ →
      keptSessions now timeout tables.sessions = ∅ ∧
        Table.eraseAll (expiredKeys now timeout tables.sessions) tables.eventToClient =
          tables.eventToClient := by
    rintro tables h
    rw [h]
    exact ⟨rfl, rfl⟩
  refine ⟨hsuffix, fun h ↦ (hkept s.tables (hsessions h)).1, ?_, hrunning, hclosing, ?_⟩
  · intro h
    have hroutes := hroutes h
    rw [← (hkept s.tables (hsessions h)).2] at hroutes
    exact hroutes
  · intro n hn
    obtain ⟨hopened, hroutes, hlen, hstart⟩ := hstopped n hn
    exact ⟨hopened, (hkept s.tables (hsessions hopened)).2.trans hroutes, hlen, hstart⟩

theorem Transition.phase {s s' : State S} {a : Action S}
    (h : Transition server object relayUrls s a s') (hI : Inv server s) (hP : Phase object s) :
    Phase object s' := by
  obtain ⟨hsuffix, hsessions, hroutes, hrunning, hclosing, hstopped⟩ := id hP
  cases h with
  | startRefused hc =>
      exact ⟨hsuffix, hsessions, hroutes, hrunning, hclosing, by rintro n ⟨⟩⟩
  | startBegun hc =>
      have hreopen : Phase object s.reopen :=
        ⟨hsuffix, hsessions, hroutes, hrunning, hclosing, by rintro n ⟨⟩⟩
      exact hreopen.begin hc .start (by rintro n ⟨⟩)
  | nothingToStop hc hobject hr =>
      have hrest : s.rest = [] := by simp [State.rest, hc]
      exact hP.finish hrest .stop (fun _ ↦ (hP.calm hrest).2 hobject hr) (fun _ _ ↦ rfl)
  | stopBegun hc => exact hP.begin hc .stop fun _ _ ↦ rfl
  | finished answers kind hc =>
      refine hP.finish (by simp [State.rest, hc]) kind ?_ ?_
      · rintro rfl
        exact hclosing [] hc List.not_mem_nil
      · intro n hn
        cases kind with
        | start => exact absurd hc ((hstopped n hn).2.2.2 [])
        | stop => rfl
  | advanced answers kind i rest endpoint hc hexec =>
      have heffect := Instr.effect answers relayUrls i s.endpoint
      rw [hexec] at heffect
      exact hP.advanced hc heffect.running heffect.tables
  | failed answers kind i rest e endpoint hc hexec =>
      have heffect := Instr.effect answers relayUrls i s.endpoint
      rw [hexec] at heffect
      have hi := heffect.fallible ⟨e, rfl⟩
      refine hP.failed hc hi ?_ ?_
      · rw [heffect.running]
        cases i <;> first | rfl | cases hi
      · rw [heffect.tables]
        cases i <;> first | rfl | cases hi
  | emitted event => exact ⟨hsuffix, hsessions, hroutes, hrunning, hclosing, hstopped⟩
  | listened => exact ⟨hsuffix, hsessions, hroutes, hrunning, hclosing, hstopped⟩
  | accepted i next event r hl he hacc =>
      exact ⟨hsuffix, hsessions, hroutes, hrunning, hclosing, hstopped⟩
  | refused i next event why hl he hacc =>
      exact ⟨hsuffix, hsessions, hroutes, hrunning, hclosing, hstopped⟩
  | tracked i now next r hl tables =>
      have hopened := hI.opened_of_busy (List.mem_of_getElem? hl) (by simp)
      refine ⟨hsuffix, fun h ↦ absurd h hopened, fun h ↦ absurd h hopened, hrunning, hclosing, ?_⟩
      exact fun n hn ↦ absurd (hstopped n hn).1 hopened
  | forwarded i next r hl =>
      have hopened := hI.opened_of_busy (List.mem_of_getElem? hl) (by simp)
      refine ⟨hsuffix, hsessions, hroutes, hrunning, hclosing, ?_⟩
      exact fun n hn ↦ absurd (hstopped n hn).1 hopened
  | cleaned now => exact hP.cleaned now _

/-! ## Runs -/

/-- In every orderly run, no event is forwarded twice, and after a stop has returned `Ok` the
maps are empty and nothing is forwarded, until a start is called. -/
theorem forwarded_once_of_orderly (server : NostrServerTransport S) (object : Object)
    (relayUrls : List String) (as : List (Action S)) (s : State S)
    (hrun : run (step server object relayUrls) .init as = some s)
    (horderly : Always (step server object relayUrls) (Orderly server) .init as) :
    (s.forwarded.map Prod.fst).Nodup ∧ ∀ n, s.stopped = some n →
      s.tables.sessions = ∅ ∧ s.tables.eventToClient = ∅ ∧ s.forwarded.length = n := by
  have h := run_invariant_of_always (fun s ↦ Inv server s ∧ Phase object s)
    (fun s a s' hI hord hstep ↦
      have htrans := step_transition hstep
      ⟨htrans.inv hI.1 hord, htrans.phase hI.1 hI.2⟩)
    ⟨.init, .init⟩ horderly hrun
  refine ⟨h.1.exclusive.nodup, fun n hn ↦ ?_⟩
  obtain ⟨hopened, hroutes, hlen, -⟩ := h.2.stopped n hn
  exact ⟨h.2.sessions hopened, hroutes, hlen⟩

/-- A client's request. -/
def request : Symbolic.sdk.Event := Symbolic.message "A" 0 [] Symbolic.toolCall

/-- The signer and the relays comply with the next step of a call. -/
def go : Action Symbolic.sdk := .advance Lifecycle.compliant

/-- A transport is started, a request is handled, and the transport is closed. -/
def orderlyRun : List (Action Symbolic.sdk) :=
  [.start, go, go, go, go, go, .listen, .emit request, .receive 0, .track 0 0, .forward 0,
    .stop, go, go, go, go]

def closedState : State Symbolic.sdk :=
  (run (step Server.openServer .transport []) .init orderlyRun).get rfl

theorem forwarded_once_of_orderly_closedState :
    (closedState.forwarded.map Prod.fst).Nodup ∧ ∀ n, closedState.stopped = some n →
      closedState.tables.sessions = ∅ ∧ closedState.tables.eventToClient = ∅ ∧
        closedState.forwarded.length = n := by
  refine forwarded_once_of_orderly Server.openServer .transport [] orderlyRun closedState rfl ?_
  refine .cons trivial rfl ?_
  refine .cons (by rintro _ _ ⟨⟩) rfl ?_
  refine .cons (by rintro _ _ ⟨⟩) rfl ?_
  refine .cons (by rintro _ _ ⟨⟩) rfl ?_
  refine .cons (by rintro _ _ ⟨⟩) rfl ?_
  refine .cons (by rintro _ _ ⟨⟩) rfl ?_
  refine .cons trivial rfl ?_
  refine .cons (fun _ ↦ .inr ⟨rfl, rfl⟩) rfl ?_
  refine .cons trivial rfl ?_
  refine .cons trivial rfl ?_
  refine .cons trivial rfl ?_
  refine .cons trivial rfl ?_
  refine .cons (by rintro _ _ ⟨⟩) rfl ?_
  refine .cons ?_ rfl ?_
  · -- the loop is past the only event
    rintro _ _ - l hl k hk hrel
    obtain rfl := List.mem_singleton.1 hl
    exact Nat.not_lt_of_le hk hrel.lt
  refine .cons (by rintro _ _ ⟨⟩) rfl ?_
  exact .cons (by rintro _ _ ⟨⟩) rfl trivial

/-- A gateway is stopped and started again, which returns an error.  Both loops get a request. -/
def twoLoopsRun : List (Action Symbolic.sdk) :=
  [.start, go, go, go, go, go, go, go, .listen, .stop, go, go, go, go, go,
    .start, go, go, go, go, go, go, .listen, .emit request,
    .receive 0, .track 0 0, .forward 0, .receive 1, .track 1 0, .forward 1]

def twoLoopsState : State Symbolic.sdk :=
  (run (step Server.openServer .gateway []) .init twoLoopsRun).get rfl

/-- A gateway is stopped before its loop gets to a request. -/
def lateLoopRun : List (Action Symbolic.sdk) :=
  [.start, go, go, go, go, go, go, go, .listen, .emit request, .stop, go, go, go, go, go,
    .receive 0, .track 0 0, .forward 0]

def lateLoopState : State Symbolic.sdk :=
  (run (step Server.openServer .gateway []) .init lateLoopRun).get rfl

/-- An event is forwarded twice, and one is forwarded after a stop. -/
theorem forwarded_twice_and_late :
    (¬ ∀ (S : Sdk) (server : NostrServerTransport S) (object : Object) (relayUrls : List String)
      (as : List (Action S)) (s : State S),
      run (step server object relayUrls) .init as = some s →
        (s.forwarded.map Prod.fst).Nodup) ∧
    ¬ ∀ (S : Sdk) (server : NostrServerTransport S) (object : Object) (relayUrls : List String)
      (as : List (Action S)) (s : State S),
      run (step server object relayUrls) .init as = some s → ∀ n, s.stopped = some n →
        s.tables.sessions = ∅ ∧ s.tables.eventToClient = ∅ ∧ s.forwarded.length = n := by
  constructor
  · intro hall
    have hnodup := hall Symbolic.sdk Server.openServer .gateway [] twoLoopsRun twoLoopsState rfl
    exact absurd hnodup (by decide)
  · intro hall
    obtain ⟨-, -, hlen⟩ := hall Symbolic.sdk Server.openServer .gateway [] lateLoopRun
      lateLoopState rfl 0 rfl
    exact absurd hlen (by decide)

end ContextVM.Restart
