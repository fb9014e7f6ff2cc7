import ContextVM.Transport.Client.System

/-!
# What the log says about a call of `send`

A call publishes one event and then registers one id.  Other steps come in between, and the
log tells by the number of the call what belongs together: `Reachable.published` says how
the event was made and `Reachable.registered_eq` that the id is that of the event.
-/

namespace ContextVM.Client

open Lib NostrClientTransport

variable {S : Sdk} {client : NostrClientTransport S}

/-- What is known of an event that the client has published. -/
theorem publish_ok {amb : Ambient S} {message : JsonRpcMessage} {eventId : S.EventId}
    {event : S.Event} (h : client.publish amb message = .ok (eventId, event)) :
    eventId = event.id ∧ ∃ signed, Sent client.base amb message client.serverPubkey
      ctxvmMessagesKind (createRecipientTags S client.serverPubkey)
      (shouldEncrypt client.encryptionMode ctxvmMessagesKind none) signed event :=
  BaseTransport.sendMcpMessage_ok h

theorem Reachable.published {s : State S} (hs : Reachable client s) {i : Nat}
    {message : JsonRpcMessage} {event : S.Event} (h : .published i message event ∈ s.log) :
    ∃ amb signed, Sent client.base amb message client.serverPubkey ctxvmMessagesKind
      (createRecipientTags S client.serverPubkey)
      (shouldEncrypt client.encryptionMode ctxvmMessagesKind none) signed event := by
  refine hs.induct (fun s ↦ .published i message event ∈ s.log → _) nofun ?_ h
  intro s a s' ih htrans hmem
  cases htrans with
  | published j amb message' eventId event' ht hp =>
      rcases List.mem_cons.1 hmem with heq | hmem
      · cases heq
        exact ⟨amb, (publish_ok hp).2⟩
      · exact ih hmem
  | refused | taken | unparsed => exact ih hmem
  | _ =>
      apply ih
      simpa [State.call, State.finish, State.register, State.forward, State.observe] using hmem

/-- The id that an observation says the call `i` has published or registered. -/
def Obs.sentId? (i : Nat) : Obs S → Option String
  | .published j _ event => if j = i then some (S.idToHex event.id) else none
  | .registered j eventId => if j = i then some eventId else none
  | _ => none

/-- What tells of an id is not among newer observations that tell of none. -/
theorem mem_of_sentId {log newer : List (Obs S)} (hnewer : ∀ o ∈ newer, ∀ j, o.sentId? j = none)
    {o : Obs S} (ho : o ∈ newer ++ log) {j : Nat} {x : String} (hx : o.sentId? j = some x) :
    o ∈ log := by
  rcases List.mem_append.1 ho with ho | ho
  · exact absurd hx (by simp [hnewer o ho j])
  · exact ho

/-- A call of `send` is about one id. -/
structure OneId (s : State S) : Prop where
  fresh : ∀ i, s.calls ≤ i → s.tasks.lookup i = none ∧ ∀ o ∈ s.log, o.sentId? i = none
  task : ∀ i task, s.tasks.lookup i = some task → ∀ o ∈ s.log, ∀ x, o.sentId? i = some x →
    task = .register x
  unique : ∀ i, ∀ o ∈ s.log, ∀ o' ∈ s.log, ∀ x x', o.sentId? i = some x →
    o'.sentId? i = some x' → x = x'

/-- Steps that say nothing about ids, and at most end a call. -/
theorem OneId.frame {s s' : State S} (h : OneId s) (os : List (Obs S))
    (hcalls : s'.calls = s.calls) (hlog : s'.log = os ++ s.log)
    (htasks : ∀ j task, s'.tasks.lookup j = some task → s.tasks.lookup j = some task)
    (hos : ∀ o ∈ os, ∀ j, o.sentId? j = none) : OneId s' := by
  have hmem : ∀ o ∈ s'.log, ∀ j x, o.sentId? j = some x → o ∈ s.log :=
    fun o ho j x hx ↦ mem_of_sentId hos (hlog ▸ ho) hx
  refine ⟨fun i hi ↦ ⟨?_, fun o ho ↦ ?_⟩, fun i task ht o ho x hx ↦ ?_,
    fun i o ho o' ho' x x' hx hx' ↦ ?_⟩
  · by_contra hsome
    obtain ⟨task, ht⟩ := Option.ne_none_iff_exists'.1 hsome
    exact absurd (htasks i task ht) (by simp [(h.fresh i (hcalls ▸ hi)).1])
  · by_contra hsome
    obtain ⟨x, hx⟩ := Option.ne_none_iff_exists'.1 hsome
    exact hsome ((h.fresh i (hcalls ▸ hi)).2 o (hmem o ho i x hx))
  · exact h.task i task (htasks i task ht) o (hmem o ho i x hx) x hx
  · exact h.unique i o (hmem o ho i x hx) o' (hmem o' ho' i x' hx') x x' hx hx'

/-- A step of the call `i` that makes known the id `x`, the same as before if there was one. -/
theorem OneId.sent {s s' : State S} (h : OneId s) {i : Nat} {old : Task}
    (ht : s.tasks.lookup i = some old) (x : String) (os : List (Obs S))
    (hcalls : s'.calls = s.calls) (hlog : s'.log = os ++ s.log)
    (htasks : ∀ j, j ≠ i → s'.tasks.lookup j = s.tasks.lookup j)
    (htask : ∀ task, s'.tasks.lookup i = some task → task = .register x)
    (hos : ∀ o ∈ os, ∀ j y, o.sentId? j = some y → j = i ∧ y = x)
    (hold : ∀ o ∈ s.log, ∀ y, o.sentId? i = some y → y = x) : OneId s' := by
  have hall : ∀ o ∈ s'.log, ∀ y, o.sentId? i = some y → y = x := by
    intro o ho y hy
    rcases List.mem_append.1 (hlog ▸ ho) with ho | ho
    · exact (hos o ho i y hy).2
    · exact hold o ho y hy
  have hmem : ∀ o ∈ s'.log, ∀ j y, j ≠ i → o.sentId? j = some y → o ∈ s.log := by
    intro o ho j y hj hy
    rcases List.mem_append.1 (hlog ▸ ho) with ho | ho
    · exact absurd (hos o ho j y hy).1 hj
    · exact ho
  have hlt : i < s.calls := by
    by_contra hge
    exact absurd (h.fresh i (Nat.le_of_not_lt hge)).1 (by simp [ht])
  refine ⟨fun j hj ↦ ?_, fun j task hj o ho y hy ↦ ?_, fun j o ho o' ho' y y' hy hy' ↦ ?_⟩
  · have hne : j ≠ i := fun hji ↦ absurd hlt (Nat.not_lt.2 (hji ▸ hcalls ▸ hj))
    obtain ⟨hnone, hlogs⟩ := h.fresh j (hcalls ▸ hj)
    refine ⟨(htasks j hne).trans hnone, fun o ho ↦ ?_⟩
    by_contra hsome
    obtain ⟨y, hy⟩ := Option.ne_none_iff_exists'.1 hsome
    exact hsome (hlogs o (hmem o ho j y hne hy))
  · by_cases hji : j = i
    · subst hji
      rw [htask task hj, hall o ho y hy]
    · exact h.task j task (htasks j hji ▸ hj) o (hmem o ho j y hji hy) y hy
  · by_cases hji : j = i
    · subst hji
      rw [hall o ho y hy, hall o' ho' y' hy']
    · exact h.unique j o (hmem o ho j y hji hy) o' (hmem o' ho' j y' hji hy') y y' hy hy'

/-- A new call has said nothing yet. -/
theorem OneId.called {s : State S} (h : OneId s) (message : JsonRpcMessage) :
    OneId (s.call message) := by
  have hnone : ∀ o ∈ (s.call message).log, ∀ i x, o.sentId? i = some x → o ∈ s.log := by
    intro o ho i x hx
    rcases List.mem_cons.1 ho with rfl | ho
    · cases hx
    · exact ho
  refine ⟨fun i hi ↦ ?_, fun i task ht o ho x hx ↦ ?_, fun i o ho o' ho' x x' hx hx' ↦ ?_⟩
  · obtain ⟨htask, hlogs⟩ := h.fresh i (Nat.le_of_succ_le hi)
    have hne : i ≠ s.calls := Nat.ne_of_gt hi
    refine ⟨(Table.lookup_insert_eq ..).trans ((if_neg hne).trans htask), fun o ho ↦ ?_⟩
    rcases List.mem_cons.1 ho with rfl | ho
    · rfl
    · exact hlogs o ho
  · have ho := hnone o ho i x hx
    have ht : (s.tasks.insert s.calls (.publish message)).lookup i = some task := ht
    rw [Table.lookup_insert_eq] at ht
    split at ht
    · next hi => exact absurd hx (by simp [(h.fresh i hi.ge).2 o ho])
    · exact h.task i task ht o ho x hx
  · exact h.unique i o (hnone o ho i x hx) o' (hnone o' ho' i x' hx') x x' hx hx'

theorem OneId.transition {s s' : State S} {a : Action S} (h : OneId s)
    (htrans : Transition client s a s') : OneId s' := by
  have herase : ∀ i j task, (s.tasks.erase i).lookup j = some task →
      s.tasks.lookup j = some task := fun i j task hj ↦
    (Table.lookup_erase_eq_some.1 hj).2
  cases htrans with
  | called message => exact h.called message
  | emulated i amb message response ht =>
      exact h.frame [.returned i (.ok ()), .emulated i response] rfl rfl (herase i)
        (by simp [Obs.sentId?])
  | returned i amb message result ht =>
      exact h.frame [.returned i result] rfl rfl (herase i) (by simp [Obs.sentId?])
  | published i amb message eventId event ht hp =>
      obtain ⟨rfl, -⟩ := publish_ok hp
      refine h.sent ht (S.idToHex event.id) [.published i message event] rfl rfl
        (fun j hj ↦ ?_) (fun task hj ↦ ?_) ?_ fun o ho y hy ↦ ?_
      · exact (Table.lookup_insert_eq ..).trans (if_neg hj)
      · have hj : (s.tasks.insert i (.register (S.idToHex event.id))).lookup i = some task := hj
        rw [Table.lookup_insert_eq, if_pos rfl] at hj
        exact (Option.some.inj hj).symm
      · simp only [List.mem_singleton, forall_eq, Obs.sentId?, Option.ite_none_right_eq_some,
          Option.some.injEq]
        rintro j y ⟨rfl, rfl⟩
        exact ⟨rfl, rfl⟩
      · cases h.task i _ ht o ho y hy
  | registered i amb eventId ht =>
      refine h.sent ht eventId [.returned i (.ok ()), .registered i eventId] rfl rfl
        (fun j hj ↦ ?_) (fun task hj ↦ ?_) ?_ fun o ho y hy ↦ ?_
      · exact (Table.lookup_erase_eq ..).trans (if_neg hj)
      · have hj : (s.tasks.erase i).lookup i = some task := hj
        rw [Table.lookup_erase_eq, if_pos rfl] at hj
        cases hj
      · simp only [List.mem_cons, List.not_mem_nil, or_false, forall_eq_or_imp, forall_eq,
          Obs.sentId?, reduceCtorEq, false_imp_iff, implies_true, true_and,
          Option.ite_none_right_eq_some, Option.some.injEq]
        rintro j y ⟨rfl, rfl⟩
        exact ⟨rfl, rfl⟩
      · cases h.task i _ ht o ho y hy
        rfl
  | refused => exact h
  | forwarded t message hl hm =>
      exact h.frame [.forwarded t.event t.eTag message] rfl rfl (fun _ _ hj ↦ hj)
        (by simp [Obs.sentId?])
  | taken | unparsed => exact h.frame [] rfl rfl (fun _ _ hj ↦ hj) (by simp)

theorem Reachable.oneId {s : State S} (hs : Reachable client s) : OneId s := by
  refine hs.induct OneId ?_ fun s a s' h htrans ↦ h.transition htrans
  exact ⟨fun i _ ↦ ⟨rfl, nofun⟩, nofun, nofun⟩

/-- The id that a call of `send` registers is that of the event it has published. -/
theorem Reachable.registered_eq {s : State S} (hs : Reachable client s) {i : Nat}
    {message : JsonRpcMessage} {event : S.Event} {e : String}
    (hpub : .published i message event ∈ s.log) (hreg : .registered i e ∈ s.log) :
    e = S.idToHex event.id :=
  hs.oneId.unique i _ hreg _ hpub _ _ (if_pos rfl) (if_pos rfl)

end ContextVM.Client
