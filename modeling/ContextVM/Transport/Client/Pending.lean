import ContextVM.Transport.Client.Calls
import ContextVM.Transport.Client.Correlation

/-!
# The pending set

The pending set is there so that a response can be told from one that nobody asked for.  Two
things are laid on it.

* A response is forwarded only if it answers a request that has not been answered
  (`Solicited`).
* The set holds the ids of exactly the requests that await an answer (`Awaited`).

The code keeps neither, since it looks at the kind of a message nowhere: `send` registers
the id of whatever it publishes, the loop lets a response pass that has no tag, and any
message with a tag takes the id off the set.  What holds without regard to kinds is
counted by `Counted`: messages with the tag `e` are forwarded as often as a call has
registered `e`, at most, and once less while `e` is pending.
-/

namespace ContextVM.Client

open Lib NostrClientTransport
open Symbolic (toolCall emptyResponse initialized)

variable {S : Sdk} {client : NostrClientTransport S}

/-! ## Requests and answers in the log -/

/-- The call that registered the id `e`. -/
def Obs.registered? (e : String) : Obs S → Option Nat
  | .registered i eventId => if eventId = e then some i else none
  | _ => none

/-- The calls that have registered the id `e`. -/
def registrations (e : String) (log : List (Obs S)) : List Nat :=
  log.filterMap (Obs.registered? e)

/-- The call that published a request whose event has the id `e`. -/
def Obs.request? (e : String) : Obs S → Option Nat
  | .published i message event =>
    if message.isRequest = true ∧ S.idToHex event.id = e then some i else none
  | _ => none

/-- The requests with the id `e`, by the calls that have published them. -/
def requesters (e : String) (log : List (Obs S)) : List Nat := log.filterMap (Obs.request? e)

/-- Responses are answers, and error responses are. -/
def IsAnswer (message : JsonRpcMessage) : Prop :=
  message.isResponse = true ∨ message.isError = true

instance (message : JsonRpcMessage) : Decidable (IsAnswer message) :=
  inferInstanceAs (Decidable (_ ∨ _))

/-- The answer with the tag `e` that was forwarded. -/
def Obs.answer? (e : String) : Obs S → Option JsonRpcMessage
  | .forwarded _ eTag message =>
    if eTag = some e ∧ IsAnswer message then some message else none
  | _ => none

/-- The answers with the tag `e` that have been forwarded. -/
def answers (e : String) (log : List (Obs S)) : List JsonRpcMessage :=
  log.filterMap (Obs.answer? e)

theorem mem_registrations {e : String} {i : Nat} {log : List (Obs S)} :
    i ∈ registrations e log ↔ .registered i e ∈ log := by
  simp only [registrations, List.mem_filterMap]
  constructor
  · rintro ⟨o, ho, hi⟩
    cases o <;> simp only [Obs.registered?, reduceCtorEq, Option.ite_none_right_eq_some,
      Option.some.injEq] at hi
    obtain ⟨rfl, rfl⟩ := hi
    exact ho
  · intro h
    exact ⟨_, h, if_pos rfl⟩

theorem mem_requesters {e : String} {i : Nat} {log : List (Obs S)} :
    i ∈ requesters e log ↔ ∃ message event, .published i message event ∈ log ∧
      message.isRequest = true ∧ S.idToHex event.id = e := by
  simp only [requesters, List.mem_filterMap]
  constructor
  · rintro ⟨o, ho, hi⟩
    cases o <;> simp only [Obs.request?, reduceCtorEq, Option.ite_none_right_eq_some,
      Option.some.injEq] at hi
    obtain ⟨hreq, rfl⟩ := hi
    exact ⟨_, _, ho, hreq⟩
  · rintro ⟨message, event, h, hreq⟩
    exact ⟨_, h, if_pos hreq⟩

/-- An answer is a delivery. -/
theorem length_answers_le (e : String) (log : List (Obs S)) :
    (answers e log).length ≤ (deliveries e log).length := by
  induction log with
  | nil => exact le_refl 0
  | cons o log ih =>
      rw [deliveries_cons, List.length_append, answers, List.filterMap_cons]
      cases ho : o.answer? e with
      | none => exact le_trans ih (Nat.le_add_right _ _)
      | some message =>
          have hdelivered : (o.delivered? e).isSome := by
            cases o <;> simp only [Obs.answer?, reduceCtorEq, Option.ite_none_right_eq_some]
              at ho
            simp [Obs.delivered?, ho.1.1]
          obtain ⟨message', hm'⟩ := Option.isSome_iff_exists.1 hdelivered
          rw [hm', List.length_cons]
          exact Nat.succ_le_succ ih

/-! ## The steps of a call of `send` -/

/-- The log and the calls under way agree on what was published and registered. -/
structure Sends (s : State S) : Prop where
  /-- A call that is about to register an id has published a message under it, -/
  publishes : ∀ i x, s.tasks.lookup i = some (.register x) →
    ∃ message event, .published i message event ∈ s.log ∧ S.idToHex event.id = x
  /-- and a call under way has registered nothing. -/
  waits : ∀ i task x, s.tasks.lookup i = some task → .registered i x ∉ s.log
  /-- What was published is registered, or about to be. -/
  registers : ∀ i message event, .published i message event ∈ s.log →
    s.tasks.lookup i = some (.register (S.idToHex event.id)) ∨
      .registered i (S.idToHex event.id) ∈ s.log
  registered : ∀ i x, .registered i x ∈ s.log →
    ∃ message event, .published i message event ∈ s.log ∧ S.idToHex event.id = x

/-- Steps that neither publish nor register. -/
theorem Sends.frame {s s' : State S} (h : Sends s) (os : List (Obs S))
    (hlog : s'.log = os ++ s.log) (hos : ∀ o ∈ os, ∀ j, o.sentId? j = none)
    (hregister : ∀ j x, s'.tasks.lookup j = some (.register x) ↔
      s.tasks.lookup j = some (.register x))
    (htask : ∀ j task, s'.tasks.lookup j = some task →
      (∃ task', s.tasks.lookup j = some task') ∨ ∀ x, .registered j x ∉ s.log) :
    Sends s' := by
  have hsub : ∀ o ∈ s.log, o ∈ s'.log := fun o ho ↦ by
    rw [hlog]
    exact List.mem_append_right _ ho
  have hmem : ∀ o ∈ s'.log, ∀ j x, o.sentId? j = some x → o ∈ s.log :=
    fun o ho j x hx ↦ mem_of_sentId hos (hlog ▸ ho) hx
  refine ⟨fun i x hi ↦ ?_, fun i task x hi hreg ↦ ?_, fun i message event hpub ↦ ?_,
    fun i x hreg ↦ ?_⟩
  · obtain ⟨message, event, hpub, hid⟩ := h.publishes i x ((hregister i x).1 hi)
    exact ⟨message, event, hsub _ hpub, hid⟩
  · have hreg := hmem _ hreg i x (if_pos rfl)
    rcases htask i task hi with ⟨task', hi'⟩ | hnot
    · exact h.waits i task' x hi' hreg
    · exact hnot x hreg
  · rcases h.registers i message event (hmem _ hpub i _ (if_pos rfl)) with hi | hreg
    · exact .inl ((hregister i _).2 hi)
    · exact .inr (hsub _ hreg)
  · obtain ⟨message, event, hpub, hid⟩ := h.registered i x (hmem _ hreg i x (if_pos rfl))
    exact ⟨message, event, hsub _ hpub, hid⟩

/-- A call that has neither published nor registered ends. -/
theorem Sends.finish {s s' : State S} (h : Sends s) {i : Nat} {message : JsonRpcMessage}
    (ht : s.tasks.lookup i = some (.publish message)) (os : List (Obs S))
    (hlog : s'.log = os ++ s.log) (hos : ∀ o ∈ os, ∀ j, o.sentId? j = none)
    (htasks : s'.tasks = s.tasks.erase i) : Sends s' := by
  apply h.frame os hlog hos
  · intro j x
    rw [htasks, Table.lookup_erase_eq]
    by_cases hj : j = i
    · subst hj
      rw [if_pos rfl, ht]
      exact iff_of_false nofun nofun
    · rw [if_neg hj]
  · intro j task hj
    rw [htasks] at hj
    exact .inl ⟨task, (Table.lookup_erase_eq_some.1 hj).2⟩

theorem Sends.publish {s : State S} (h : Sends s) {i : Nat} {message : JsonRpcMessage}
    (ht : s.tasks.lookup i = some (.publish message)) (event : S.Event) :
    Sends (s.publish i message (S.idToHex event.id) event) where
  publishes j x hj := by
    rw [State.lookup_publish] at hj
    split at hj
    · next hji =>
        cases hj
        exact ⟨message, event, hji ▸ List.mem_cons_self, rfl⟩
    · obtain ⟨message', event', hpub, hid⟩ := h.publishes j x hj
      exact ⟨message', event', List.mem_cons_of_mem _ hpub, hid⟩
  waits j task x hj hreg := by
    have hreg : .registered j x ∈ s.log := by simpa [State.publish] using hreg
    rw [State.lookup_publish] at hj
    split at hj
    · next hji => exact h.waits i _ x ht (hji ▸ hreg)
    · exact h.waits j task x hj hreg
  registers j message' event' hpub := by
    rw [State.lookup_publish]
    rcases List.mem_cons.1 hpub with heq | hpub
    · cases heq
      exact .inl (if_pos rfl)
    · rcases h.registers j message' event' hpub with hj | hreg
      · have hji : j ≠ i := by
          rintro rfl
          rw [ht] at hj
          cases hj
        exact .inl ((if_neg hji).trans hj)
      · exact .inr (List.mem_cons_of_mem _ hreg)
  registered j x hreg := by
    have hreg : .registered j x ∈ s.log := by simpa [State.publish] using hreg
    obtain ⟨message', event', hpub, hid⟩ := h.registered j x hreg
    exact ⟨message', event', List.mem_cons_of_mem _ hpub, hid⟩

theorem Sends.register {s : State S} (h : Sends s) {i : Nat} {x : String}
    (ht : s.tasks.lookup i = some (.register x)) :
    Sends ((s.register i x).finish i (.ok ())) := by
  have hlog : ∀ o ∈ s.log, o ∈ ((s.register i x).finish i (.ok ())).log := fun o ho ↦
    List.mem_cons_of_mem _ (List.mem_cons_of_mem _ ho)
  have hreg : ∀ j y, .registered j y ∈ ((s.register i x).finish i (.ok ())).log →
      (j = i ∧ y = x) ∨ .registered j y ∈ s.log := by
    intro j y hmem
    simpa [State.finish, State.register] using hmem
  have hpub : ∀ j message event,
      .published j message event ∈ ((s.register i x).finish i (.ok ())).log →
        .published j message event ∈ s.log := by
    intro j message event hmem
    simpa [State.finish, State.register] using hmem
  have htasks : ∀ j task, ((s.register i x).finish i (.ok ())).tasks.lookup j = some task →
      j ≠ i ∧ s.tasks.lookup j = some task := fun j task hj ↦
    Table.lookup_erase_eq_some.1 hj
  refine ⟨fun j y hj ↦ ?_, fun j task y hj hmem ↦ ?_, fun j message event hmem ↦ ?_,
    fun j y hmem ↦ ?_⟩
  · obtain ⟨message, event, hmem, hid⟩ := h.publishes j y (htasks j _ hj).2
    exact ⟨message, event, hlog _ hmem, hid⟩
  · obtain ⟨hji, hj⟩ := htasks j task hj
    rcases hreg j y hmem with ⟨heq, -⟩ | hmem
    · exact hji heq
    · exact h.waits j task y hj hmem
  · rcases h.registers j message event (hpub j message event hmem) with hj | hold
    · by_cases hji : j = i
      · subst hji
        cases ht.symm.trans hj
        exact .inr (List.mem_cons_of_mem _ List.mem_cons_self)
      · left
        rw [State.lookup_finish, if_neg hji]
        exact hj
    · exact .inr (hlog _ hold)
  · rcases hreg j y hmem with ⟨rfl, rfl⟩ | hmem
    · obtain ⟨message, event, hmem, hid⟩ := h.publishes j y ht
      exact ⟨message, event, hlog _ hmem, hid⟩
    · obtain ⟨message, event, hmem, hid⟩ := h.registered j y hmem
      exact ⟨message, event, hlog _ hmem, hid⟩

theorem Sends.transition {s s' : State S} {a : Action S} (h : Sends s) (hone : OneId s)
    (htrans : Transition client s a s') : Sends s' := by
  cases htrans with
  | called message =>
      obtain ⟨hnone, hfresh⟩ := hone.fresh s.calls le_rfl
      apply h.frame [.called s.calls message] rfl (by simp [Obs.sentId?])
      · intro j x
        rw [State.lookup_call]
        by_cases hj : j = s.calls
        · rw [if_pos hj, hj, hnone]
          constructor
          · rintro ⟨⟩
          · rintro ⟨⟩
        · rw [if_neg hj]
      · intro j task hj
        rw [State.lookup_call] at hj
        split at hj
        · next heq =>
            refine .inr fun x hreg ↦ ?_
            have hnone' := hfresh _ (heq ▸ hreg)
            simp [Obs.sentId?] at hnone'
        · exact .inl ⟨task, hj⟩
  | emulated i amb message response ht =>
      exact h.finish ht [.returned i (.ok ()), .emulated i response] rfl
        (by simp [Obs.sentId?]) rfl
  | returned i amb message result ht =>
      exact h.finish ht [.returned i result] rfl (by simp [Obs.sentId?]) rfl
  | published i amb message eventId event ht hp =>
      obtain ⟨rfl, -⟩ := publish_ok hp
      exact h.publish ht event
  | registered i amb eventId ht => exact h.register ht
  | refused => exact h
  | forwarded t message hl hm =>
      exact h.frame [.forwarded t.event t.eTag message] rfl (by simp [Obs.sentId?])
        (fun _ _ ↦ Iff.rfl) fun _ task hj ↦ .inl ⟨task, hj⟩
  | taken | unparsed =>
      exact h.frame [] rfl (by simp) (fun _ _ ↦ Iff.rfl) fun _ task hj ↦ .inl ⟨task, hj⟩

theorem Reachable.sends {s : State S} (hs : Reachable client s) : Sends s := by
  refine Reaches.induct (Client.step client) hs Sends ⟨nofun, nofun, nofun, nofun⟩ ?_
  intro m a m' hm h hstep
  exact h.transition (Reachable.oneId hm) (step_transition hstep)

/-! ## Counting -/

@[simp] theorem registrations_cons (e : String) (o : Obs S) (log : List (Obs S)) :
    registrations e (o :: log) = (o.registered? e).toList ++ registrations e log := by
  unfold registrations
  cases h : o.registered? e <;> simp [h]

/-- What a step other than a registration makes known registers nothing. -/
theorem Transition.registrations_eq {s s' : State S} {a : Action S}
    (h : Transition client s a s') (e : String) :
    registrations e s'.log = registrations e s.log ∨
      ∃ i x, s.tasks.lookup i = some (.register x) ∧
        s' = (s.register i x).finish i (.ok ()) := by
  cases h with
  | registered i amb eventId ht => exact .inr ⟨i, eventId, ht, rfl⟩
  | refused | taken | unparsed => exact .inl rfl
  | _ =>
      left
      simp [State.call, State.finish, State.observe, State.publish, State.forward,
        Obs.registered?]

/-- A call registers an id once. -/
theorem Reachable.nodup_registrations {s : State S} (hs : Reachable client s) (e : String) :
    (registrations e s.log).Nodup := by
  refine Reaches.induct (Client.step client) hs (fun s ↦ (registrations e s.log).Nodup)
    List.nodup_nil ?_
  intro m a m' hm ih hstep
  rcases (step_transition hstep).registrations_eq e with heq | ⟨i, x, ht, rfl⟩
  · rw [heq]
    exact ih
  · show (registrations e (.returned i (.ok ()) :: .registered i x :: m.log)).Nodup
    rw [registrations_cons, registrations_cons]
    by_cases hx : x = e
    · subst hx
      simp only [Obs.registered?, if_true, Option.toList_none, Option.toList_some,
        List.nil_append, List.singleton_append, List.nodup_cons]
      refine ⟨fun hmem ↦ ?_, ih⟩
      exact (Reachable.sends hm).waits i _ x ht (mem_registrations.1 hmem)
    · simpa [Obs.registered?, hx] using ih

/-- The messages with the tag `e` that were forwarded, and the one that may still be, are no
more than the registrations of `e`. -/
structure Counted (s : State S) : Prop where
  loop : ∀ t e, s.loop = some t → t.eTag = some e → e ∈ s.pendingRequests
  deliveries : ∀ e, (deliveries e s.log).length + (if e ∈ s.pendingRequests then 1 else 0) ≤
    (registrations e s.log).length

/-- Steps that write neither the pending set nor anything that counts. -/
theorem Counted.frame {s s' : State S} (h : Counted s)
    (hpending : s'.pendingRequests = s.pendingRequests)
    (hloop : ∀ t, s'.loop = some t → s.loop = some t ∨
      ∀ e, t.eTag = some e → e ∈ s.pendingRequests)
    (hdeliveries : ∀ e, Client.deliveries e s'.log = Client.deliveries e s.log)
    (hregistrations : ∀ e, registrations e s'.log = registrations e s.log) : Counted s' := by
  refine ⟨fun t e ht htag ↦ ?_, fun e ↦ ?_⟩
  · rw [hpending]
    rcases hloop t ht with hold | hnew
    · exact h.loop t e hold htag
    · exact hnew e htag
  · rw [hpending, hdeliveries, hregistrations]
    exact h.deliveries e

theorem Counted.transition {s s' : State S} {a : Action S} (h : Counted s)
    (htrans : Transition client s a s') : Counted s' := by
  cases htrans with
  | registered i amb x ht =>
      refine ⟨fun t e hl htag ↦ Finset.mem_insert_of_mem (h.loop t e hl htag), fun e ↦ ?_⟩
      have hbound := h.deliveries e
      by_cases hx : x = e
      · subst hx
        simp only [State.finish, State.register, deliveries_cons, registrations_cons,
          Obs.delivered?, Obs.registered?, if_true, Finset.mem_insert_self, Option.toList_none,
          Option.toList_some, List.append_nil, List.nil_append, List.singleton_append,
          List.length_cons]
        omega
      · have hne : e ≠ x := Ne.symm hx
        simpa [State.finish, State.register, Obs.delivered?, Obs.registered?, hx, hne]
          using hbound
  | forwarded t message hl hm =>
      refine ⟨by rintro t' e ⟨⟩, fun e ↦ ?_⟩
      have hbound := h.deliveries e
      cases htag : t.eTag with
      | none =>
          simpa [State.forward, cleanUp, htag, Obs.delivered?, Obs.registered?] using hbound
      | some x =>
          by_cases hx : x = e
          · -- the message counts, and its id is no longer pending
            subst hx
            rw [if_pos (h.loop t x hl htag)] at hbound
            simpa [State.forward, cleanUp, htag, Obs.delivered?, Obs.registered?] using hbound
          · have hne : e ≠ x := Ne.symm hx
            simpa [State.forward, cleanUp, htag, hx, hne, Obs.delivered?, Obs.registered?]
              using hbound
  | refused => exact h
  | taken event content eTag hl htake =>
      refine h.frame rfl ?_ (fun _ ↦ rfl) fun _ ↦ rfl
      rintro t ⟨⟩
      exact .inr (take_ok.1 htake).2
  | unparsed t hl hm =>
      refine h.frame rfl ?_ (fun _ ↦ rfl) fun _ ↦ rfl
      rintro t' ⟨⟩
  | _ =>
      refine h.frame rfl (fun t ht ↦ .inl ht) (fun e ↦ ?_) fun e ↦ ?_
      · simp [State.call, State.finish, State.observe, State.publish, Obs.delivered?]
      · simp [State.call, State.finish, State.observe, State.publish, Obs.registered?]

theorem Reachable.counted {s : State S} (hs : Reachable client s) : Counted s :=
  hs.induct Counted ⟨nofun, fun _ ↦ le_refl 0⟩ fun _ _ _ h htrans ↦ h.transition htrans

/-! ## Solicited answers -/

/-- An answer that is forwarded has the tag of a request, and fewer answers to requests of that
id have been forwarded than requests published. -/
def SolicitedAt (o : Obs S) (before : List (Obs S)) : Prop :=
  ∀ event eTag message, o = .forwarded event eTag message → IsAnswer message →
    ∃ e, eTag = some e ∧ (answers e before).length < (requesters e before).length

/-- Every answer that was forwarded was solicited when it was. -/
def Solicited (log : List (Obs S)) : Prop := Each SolicitedAt log

/-- The answer that the loop is about to forward has a tag, and no message but requests has
been published under the id in that tag. -/
def AnswersRequest (s : State S) : Action S → Prop
  | .deliver => ∀ t message, s.loop = some t →
      nostrEventToMcpMessage S t.content = some message → IsAnswer message →
        ∃ e, t.eTag = some e ∧ ∀ i sent event, .published i sent event ∈ s.log →
          S.idToHex event.id = e → sent.isRequest = true
  | _ => True

/-- If only requests have the id `e`, the calls that registered it have published requests. -/
theorem Reachable.length_registrations_le {s : State S} (hs : Reachable client s) {e : String}
    (honly : ∀ i sent event, .published i sent event ∈ s.log → S.idToHex event.id = e →
      sent.isRequest = true) :
    (registrations e s.log).length ≤ (requesters e s.log).length := by
  refine ((hs.nodup_registrations e).subperm ?_).length_le
  intro i hi
  obtain ⟨sent, event, hpub, hid⟩ := hs.sends.registered i e (mem_registrations.1 hi)
  exact mem_requesters.2 ⟨sent, event, hpub, honly i sent event hpub hid, hid⟩

/-- A step that forwards nothing solicits nothing. -/
theorem Solicited.append {log : List (Obs S)} (h : Solicited log) (os : List (Obs S))
    (hos : ∀ o ∈ os, ∀ event eTag message, o ≠ .forwarded event eTag message) :
    Solicited (os ++ log) :=
  h.append_of_forall fun o ho _ event eTag message heq ↦
    absurd heq (hos o ho event eTag message)

theorem Solicited.step {s s' : State S} {a : Action S} (h : Solicited s.log)
    (hs : Reachable client s) (ha : AnswersRequest s a) (htrans : Transition client s a s') :
    Solicited s'.log := by
  cases htrans with
  | forwarded t message hl hm =>
      refine ⟨?_, h⟩
      rintro event eTag message' ⟨⟩ hanswer
      obtain ⟨e, htag, honly⟩ := ha t message hl hm hanswer
      refine ⟨e, htag, ?_⟩
      -- the tag is pending, so one registration is still to be answered
      have hbound := hs.counted.deliveries e
      rw [if_pos (hs.counted.loop t e hl htag)] at hbound
      calc (answers e s.log).length
          ≤ (deliveries e s.log).length := length_answers_le e s.log
        _ < (registrations e s.log).length := hbound
        _ ≤ (requesters e s.log).length := hs.length_registrations_le honly
  | refused | taken | unparsed => exact h
  | emulated i amb message response ht =>
      exact h.append [.returned i (.ok ()), .emulated i response] (by simp)
  | registered i amb x ht =>
      exact h.append [.returned i (.ok ()), .registered i x] (by simp)
  | _ => exact h.append [_] (by simp)

/-- Requests of an id are answered at most as often as they were published. -/
theorem Solicited.length_answers_le {log : List (Obs S)} (h : Solicited log) (e : String) :
    (answers e log).length ≤ (requesters e log).length := by
  induction log with
  | nil => exact le_refl 0
  | cons o log ih =>
      have hmore : (requesters e log).length ≤ (requesters e (o :: log)).length :=
        ((List.sublist_cons_self o log).filterMap _).length_le
      cases ho : o.answer? e with
      | none =>
          rw [answers, List.filterMap_cons_none ho]
          exact (ih h.2).trans hmore
      | some message =>
          rw [answers, List.filterMap_cons_some ho, List.length_cons]
          cases o <;> simp only [Obs.answer?, reduceCtorEq, Option.ite_none_right_eq_some]
            at ho
          obtain ⟨⟨rfl, hanswer⟩, -⟩ := ho
          obtain ⟨e', he, hlt⟩ := h.1 _ _ _ rfl hanswer
          cases he
          exact lt_of_lt_of_le hlt hmore

/-- In a run in which every answer that the loop is about to forward is to a request, the
forwarded answers are solicited, and there is at most one for each request. -/
theorem answers_solicited {as : List (Action S)} {s : State S}
    (hrun : run (step client) .init as = some s)
    (ha : Always (step client) AnswersRequest .init as) :
    Solicited s.log ∧ ∀ e, (answers e s.log).length ≤ (requesters e s.log).length := by
  have hkeep := run_invariant_of_always (fun s ↦ Reachable client s ∧ Solicited s.log)
    (fun s a s' h ha hstep ↦ ⟨h.1.step hstep, h.2.step h.1 ha (step_transition hstep)⟩)
    ⟨.init, trivial⟩ ha hrun
  exact ⟨hkeep.2, hkeep.2.length_answers_le⟩

/-- The client of `awaitingState` gets its answer. -/
def answeredRun : List (Action Symbolic.sdk) :=
  awaitingRun ++ [.receive (about 1 emptyResponse), .deliver]

def answeredState : State Symbolic.sdk := (run (step plainClient) .init answeredRun).get rfl

theorem published_awaitingState {i : Nat} {sent : JsonRpcMessage} {event : Symbolic.sdk.Event}
    (hpub : .published i sent event ∈ awaitingState.log) : sent.isRequest = true := by
  have hlog : awaitingState.log = [.returned 0 (.ok ()), .registered 0 "A/25910/0",
    .published 0 toolCall (Symbolic.message "A" 0 [.publicKey "server"] toolCall),
    .called 0 toolCall] := rfl
  simp only [hlog, List.mem_cons, reduceCtorEq, Obs.published.injEq, List.not_mem_nil, or_false,
    false_or] at hpub
  rw [hpub.2.1]
  rfl

/-- A condition on the steps of `answeredRun`, step by step. -/
theorem always_answeredRun {P : State Symbolic.sdk → Action Symbolic.sdk → Prop}
    (hcall : ∀ m, P m (.call toolCall))
    (hpublish : P (State.init.call toolCall) (.resume 0 (Symbolic.ambient 0)))
    (hregister : ∀ m, step plainClient m (.resume 0 (Symbolic.ambient 0)) =
      some awaitingState → P m (.resume 0 (Symbolic.ambient 0)))
    (hreceive : ∀ m, P m (.receive (about 1 emptyResponse)))
    (hdeliver : ∀ t, (t : Taken Symbolic.sdk).eTag = some "A/25910/0" →
      t.content = (about 1 emptyResponse).content →
        P { awaitingState with loop := some t } .deliver) :
    Always (step plainClient) P .init answeredRun := by
  refine ⟨hcall _, fun _ h₁ ↦ ?_⟩
  cases h₁
  refine ⟨hpublish, fun _ h₂ ↦ ?_⟩
  cases h₂
  refine ⟨hregister _ rfl, fun _ h₃ ↦ ?_⟩
  cases h₃
  refine ⟨hreceive _, fun _ h₄ ↦ ?_⟩
  cases h₄
  exact ⟨hdeliver ⟨about 1 emptyResponse, _, _⟩ rfl rfl, fun _ _ ↦ trivial⟩

theorem answers_solicited_answeredState :
    answers "A/25910/0" answeredState.log = [emptyResponse] ∧ Solicited answeredState.log := by
  have hrun : run (step plainClient) .init answeredRun = some answeredState := rfl
  refine ⟨rfl, (answers_solicited hrun ?_).1⟩
  apply always_answeredRun
  · exact fun _ ↦ trivial
  · trivial
  · exact fun _ _ ↦ trivial
  · exact fun _ ↦ trivial
  · rintro t htag - t' message ⟨⟩ - -
    exact ⟨_, htag, fun i sent event hpub _ ↦ published_awaitingState hpub⟩

/-- A response that has no tag is forwarded, though the client has sent no request. -/
theorem unsolicited_response_forwarded :
    ¬ ∀ (S : Sdk) (_ : S.Lawful) (client : NostrClientTransport S) (as : List (Action S))
      (s : State S), run (step client) .init as = some s → Solicited s.log := by
  intro h
  have hsolicited := h Symbolic.sdk Symbolic.lawful plainClient
    [.receive (Symbolic.message "server" 0 [] emptyResponse), .deliver] _ rfl
  obtain ⟨e, he, -⟩ := hsolicited.1 _ _ _ rfl (.inl rfl)
  cases he

/-! ## The requests that await an answer -/

/-- What an observation says about the id `e`: a call has registered it, or it is answered. -/
def Obs.about? (e : String) (o : Obs S) : Option (Option Nat) :=
  match o.registered? e, o.answer? e with
  | some i, _ => some (some i)
  | none, some _ => some none
  | none, none => none

/-- A request with the id `e` was published, its call has registered the id, and no answer with
the tag `e` has been forwarded since. -/
def Awaited (e : String) (log : List (Obs S)) : Prop :=
  ∃ i message event, .published i message event ∈ log ∧ message.isRequest = true ∧
    S.idToHex event.id = e ∧ latest (Obs.about? e) log = some (some i)

theorem Awaited.registered {e : String} {i : Nat} {log : List (Obs S)}
    (h : latest (Obs.about? e) log = some (some i)) : .registered i e ∈ log := by
  obtain ⟨⟨b, older⟩, hrewind, rfl⟩ := Option.map_eq_some_iff.1 h
  obtain ⟨o, newer, ho, rfl, -⟩ := rewind_eq_some hrewind
  apply mem_registrations.1
  have hreg : o.registered? e = some i := by
    unfold Obs.about? at ho
    split at ho <;> simp_all
  exact List.mem_filterMap.2 ⟨o, by simp, hreg⟩

/-- What says nothing about `e`, and publishes nothing for a call that has registered it. -/
theorem awaited_cons {e : String} {o : Obs S} {log : List (Obs S)} (ho : o.about? e = none)
    (hpub : ∀ i message event, o = .published i message event → .registered i e ∉ log) :
    Awaited e (o :: log) ↔ Awaited e log := by
  unfold Awaited
  rw [latest_cons_of_none ho]
  constructor
  · rintro ⟨i, message, event, hmem, hreq, hid, hlatest⟩
    rcases List.mem_cons.1 hmem with heq | hmem
    · exact absurd (Awaited.registered hlatest) (hpub i message event heq.symm)
    · exact ⟨i, message, event, hmem, hreq, hid, hlatest⟩
  · rintro ⟨i, message, event, hmem, hrest⟩
    exact ⟨i, message, event, List.mem_cons_of_mem _ hmem, hrest⟩

/-- The same for observations that publish nothing. -/
theorem awaited_append {e : String} {os log : List (Obs S)}
    (hos : ∀ o ∈ os, o.about? e = none ∧ ∀ i message event, o ≠ .published i message event) :
    Awaited e (os ++ log) ↔ Awaited e log := by
  induction os with
  | nil => exact Iff.rfl
  | cons o os ih =>
      obtain ⟨ho, hpub⟩ := hos o List.mem_cons_self
      rw [List.cons_append, awaited_cons ho fun i message event heq ↦
        absurd heq (hpub i message event)]
      exact ih fun o ho ↦ hos o (List.mem_cons_of_mem _ ho)

/-- The id that a call is about to register is that of a request, and the tagged message that
the loop is about to forward is an answer. -/
def KeepsPending (s : State S) : Action S → Prop
  | .resume i _ => ∀ x sent event, s.tasks.lookup i = some (.register x) →
      .published i sent event ∈ s.log → sent.isRequest = true
  | .deliver => ∀ t e message, s.loop = some t → t.eTag = some e →
      nostrEventToMcpMessage S t.content = some message → IsAnswer message
  | _ => True

/-- The pending set holds the ids of the requests that await an answer. -/
def PendingExact (s : State S) : Prop := ∀ e, e ∈ s.pendingRequests ↔ Awaited e s.log

theorem PendingExact.frame {s s' : State S} (h : PendingExact s) (os : List (Obs S))
    (hpending : s'.pendingRequests = s.pendingRequests) (hlog : s'.log = os ++ s.log)
    (hos : ∀ o ∈ os, ∀ e, o.about? e = none ∧ ∀ i message event,
      o ≠ .published i message event) : PendingExact s' := by
  intro e
  rw [hpending, hlog, awaited_append fun o ho ↦ hos o ho e]
  exact h e

theorem PendingExact.register {s : State S} (h : PendingExact s) (hsends : Sends s) {i : Nat}
    {x : String} (ht : s.tasks.lookup i = some (.register x))
    (hreq : ∀ sent event, .published i sent event ∈ s.log → sent.isRequest = true) :
    PendingExact ((s.register i x).finish i (.ok ())) := by
  intro e
  show e ∈ insert x s.pendingRequests ↔
    Awaited e ([.returned i (.ok ())] ++ .registered i x :: s.log)
  rw [awaited_append (by simp [Obs.about?, Obs.registered?, Obs.answer?]), Finset.mem_insert]
  by_cases hx : e = x
  · subst hx
    refine iff_of_true (.inl rfl) ?_
    obtain ⟨sent, event, hpub, hid⟩ := hsends.publishes i e ht
    refine ⟨i, sent, event, List.mem_cons_of_mem _ hpub, hreq sent event hpub, hid, ?_⟩
    exact latest_cons_of_some (by simp [Obs.about?, Obs.registered?]) _
  · have habout : (Obs.registered (S := S) i x).about? e = none := by
      simp [Obs.about?, Obs.registered?, Obs.answer?, Ne.symm hx]
    rw [awaited_cons habout nofun, or_iff_right hx]
    exact h e

theorem PendingExact.forward {s : State S} (h : PendingExact s) (t : Taken S)
    (message : JsonRpcMessage) (hanswer : ∀ e, t.eTag = some e → IsAnswer message) :
    PendingExact (s.forward t message) := by
  intro e
  show e ∈ cleanUp t.eTag s.pendingRequests ↔
    Awaited e (.forwarded t.event t.eTag message :: s.log)
  by_cases htag : t.eTag = some e
  · -- the answer is the latest thing about its tag
    rw [htag]
    refine iff_of_false (Finset.notMem_erase e _) ?_
    rintro ⟨i, sent, event, -, -, -, hlatest⟩
    have habout : (Obs.forwarded t.event (some e) message).about? e = some none := by
      simp [Obs.about?, Obs.registered?, Obs.answer?, hanswer e htag]
    rw [latest_cons_of_some habout] at hlatest
    cases hlatest
  · have habout : (Obs.forwarded t.event t.eTag message).about? e = none := by
      simp [Obs.about?, Obs.registered?, Obs.answer?, htag]
    rw [awaited_cons habout nofun, ← h e]
    cases htag' : t.eTag with
    | none => exact Iff.rfl
    | some x =>
        have hne : e ≠ x := fun heq ↦ htag (by rw [htag', heq])
        exact Finset.mem_erase.trans (and_iff_right hne)

theorem PendingExact.step {s s' : State S} {a : Action S} (h : PendingExact s)
    (hs : Reachable client s) (ha : KeepsPending s a) (htrans : Transition client s a s') :
    PendingExact s' := by
  have hsilent : ∀ os : List (Obs S), (∀ o ∈ os, (∃ i m, o = .called i m) ∨
      (∃ i m, o = .emulated i m) ∨ ∃ i r, o = .returned i r) →
      ∀ o ∈ os, ∀ e, o.about? e = none ∧ ∀ i message event,
        o ≠ .published i message event := by
    intro os hos o ho e
    rcases hos o ho with ⟨i, m, rfl⟩ | ⟨i, m, rfl⟩ | ⟨i, r, rfl⟩ <;>
      exact ⟨rfl, nofun⟩
  cases htrans with
  | called message => exact h.frame [.called s.calls message] rfl rfl (hsilent _ (by simp))
  | emulated i amb message response ht =>
      exact h.frame [.returned i (.ok ()), .emulated i response] rfl rfl
        (hsilent _ (by simp))
  | returned i amb message result ht =>
      exact h.frame [.returned i result] rfl rfl (hsilent _ (by simp))
  | published i amb message eventId event ht hp =>
      intro e
      show e ∈ s.pendingRequests ↔ Awaited e (.published i message event :: s.log)
      rw [awaited_cons rfl]
      · exact h e
      · rintro j message' event' ⟨⟩
        exact hs.sends.waits i _ e ht
  | registered i amb x ht =>
      exact h.register hs.sends ht fun sent event hpub ↦ ha x sent event ht hpub
  | forwarded t message hl hm =>
      exact h.forward t message fun e htag ↦ ha t e message hl htag hm
  | refused | taken | unparsed => exact h

/-- In a run in which only requests are registered and only answers are correlated, the
pending set holds the ids of the requests that await an answer.  When no call is under way,
every id that was published has been registered. -/
theorem pending_exact {as : List (Action S)} {s : State S}
    (hrun : run (step client) .init as = some s)
    (ha : Always (step client) KeepsPending .init as) :
    PendingExact s ∧ ((∀ i, s.tasks.lookup i = none) → ∀ i message event,
      .published i message event ∈ s.log → .registered i (S.idToHex event.id) ∈ s.log) := by
  have hinit : PendingExact (.init : State S) := by
    refine fun e ↦ iff_of_false (Finset.notMem_empty e) ?_
    rintro ⟨i, message, event, hmem, -⟩
    cases hmem
  have hkeep := run_invariant_of_always (fun s ↦ Reachable client s ∧ PendingExact s)
    (fun s a s' h ha hstep ↦ ⟨h.1.step hstep, h.2.step h.1 ha (step_transition hstep)⟩)
    ⟨.init, hinit⟩ ha hrun
  refine ⟨hkeep.2, fun hidle i message event hpub ↦ ?_⟩
  rcases hkeep.1.sends.registers i message event hpub with htask | hreg
  · rw [hidle i] at htask
    cases htask
  · exact hreg

theorem pending_exact_answeredState :
    "A/25910/0" ∈ awaitingState.pendingRequests ∧
      ("A/25910/0" ∈ answeredState.pendingRequests ↔
        Awaited "A/25910/0" answeredState.log) := by
  have hrun : run (step plainClient) .init answeredRun = some answeredState := rfl
  refine ⟨Finset.mem_insert_self .., (pending_exact hrun ?_).1 _⟩
  apply always_answeredRun
  · exact fun _ ↦ trivial
  · rintro x sent event - hpub
    simp [State.call, State.init] at hpub
  · rintro m hm x sent event - hpub
    exact published_awaitingState ((step_transition hm).log_suffix.subset hpub)
  · exact fun _ ↦ trivial
  · rintro t - hcontent t' e message ⟨⟩ - hm
    rw [hcontent] at hm
    cases hm
    exact .inl rfl

/-- The id of a notification stays in the pending set, though nothing will answer it. -/
theorem notification_pending :
    ¬ ∀ (S : Sdk) (_ : S.Lawful) (client : NostrClientTransport S) (s : State S),
      Reachable client s → (∀ i, s.tasks.lookup i = none) → PendingExact s := by
  intro h
  let sent : List (Action Symbolic.sdk) :=
    [.call initialized, .resume 0 (Symbolic.ambient 0), .resume 0 (Symbolic.ambient 0)]
  have hrun : run (step plainClient) .init sent = some _ := rfl
  have hexact := h Symbolic.sdk Symbolic.lawful plainClient _ ⟨sent, hrun⟩ fun _ ↦ rfl
  obtain ⟨i, message, event, hmem, hreq, -⟩ :=
    (hexact "A/25910/0").1 (Finset.mem_insert_self ..)
  have hlog : Obs.published i message event ∈ [Obs.returned 0 (.ok ()),
    .registered 0 "A/25910/0",
    .published 0 initialized (Symbolic.message "A" 0 [.publicKey "server"] initialized),
    .called 0 initialized] := hmem
  simp only [List.mem_cons, reduceCtorEq, Obs.published.injEq, List.not_mem_nil, or_false,
    false_or] at hlog
  rw [hlog.2.1] at hreq
  cases hreq

end ContextVM.Client
