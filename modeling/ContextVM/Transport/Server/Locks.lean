import ContextVM.Lib.RwLock
import ContextVM.Transport.Server.Steps
import Mathlib.Data.Fintype.EquivFin

/-!
# The locks of the server

The two maps are under a read/write lock each.  The event loop and the cleanup task take the
lock on the routes while they hold the one on the sessions; the calls of the interface give one
back before they take the other.  A guard is given back where it is dropped: by `drop`, at the
end of a statement, or by a return.

`Locks.program` is what a task of each kind does with the locks.  `step_covered` connects it to
the system: a step of the server goes on along the program of its task, and passes a write lock
on each map that it changes.  `deadlock_free` is about any number of tasks of all kinds, also
about those that the borrows of the interface would keep apart.
-/

namespace ContextVM.Server

open Lib RwLock RwLock.Prog

variable {S : Sdk}

/-- The locks, in the order in which they are nested. -/
inductive LockName where
  | sessions
  | eventToClient
deriving DecidableEq

namespace LockName

def rank : LockName → Nat
  | .sessions => 0
  | .eventToClient => 1

instance : Preorder LockName := Preorder.lift rank

instance : Fintype LockName where
  elems := {.sessions, .eventToClient}
  complete l := by cases l <;> simp

end LockName

namespace Locks

/-! ## The programs of the tasks -/

/-- The event loop, from the check of a message on. -/
def track : Prog LockName :=
  .orElse .again <| -- the message is invalid or unauthorized
  .acquire .sessions .write <|
  .orElse (.release .sessions .again) <|
  -- a request
  .acquire .eventToClient .write <|
  .release .eventToClient <|
  .release .sessions .again

def eventLoop : Prog LockName :=
  .await <| -- `notifications.recv`
  .orElse .done <|
  .orElse .again <| -- no event, or not in this mode
  .orElse track <|
  -- a gift wrap
  .await <| -- `client.signer`
  .orElse .again <|
  .await <| -- `decrypt_gift_wrap_single_layer`
  .orElse .again track

def cleanup : Prog LockName :=
  .await <| -- `interval.tick`
  .acquire .sessions .write <|
  .acquire .eventToClient .write <|
  .release .eventToClient <|
  .release .sessions .again

def cleanRoute : Prog LockName :=
  .acquire .eventToClient .write <|
  .release .eventToClient .done

def cleanSession : Prog LockName :=
  .acquire .sessions .write <|
  .release .sessions cleanRoute

def publishResponse : Prog LockName :=
  .orElse .done <| -- the key or the event id is malformed
  .await <| -- `send_mcp_message`
  .orElse .done cleanSession

def findSession : Prog LockName :=
  .acquire .sessions .read <|
  .orElse (.release .sessions .done) <| -- no session
  .release .sessions publishResponse

def sendResponse : Prog LockName :=
  .acquire .eventToClient .read <|
  .orElse (.release .eventToClient .done) <| -- no client
  .release .eventToClient findSession

/-- The rest of `send_notification`, for a caller that then goes on to `next`. -/
def publishNotification (next : Prog LockName) : Prog LockName :=
  .orElse next <| -- the key or the event id is malformed
  .await next -- `send_mcp_message`

def notify (next : Prog LockName) : Prog LockName :=
  .acquire .sessions .read <|
  .orElse (.release .sessions next) <| -- no session
  .release .sessions (publishNotification next)

def sendNotification : Prog LockName := notify .done

/-- A broadcast to so many clients. -/
def notifyAll (clients : Nat) : Prog LockName := notify^[clients] .done

theorem notifyAll_succ (clients : Nat) : notifyAll (clients + 1) = notify (notifyAll clients) :=
  Function.iterate_succ_apply' notify clients .done

def broadcastNotification : Prog LockName :=
  .acquire .sessions .read <|
  .release .sessions (.choice notifyAll)

def clearRoutes : Prog LockName :=
  .acquire .eventToClient .write <|
  .release .eventToClient .done

def clearSessions : Prog LockName :=
  .acquire .sessions .write <|
  .release .sessions clearRoutes

def close : Prog LockName :=
  .await <| -- `disconnect`
  .orElse .done clearSessions

/-- The kinds of tasks. -/
inductive Kind where
  | eventLoop
  | cleanup
  | sendResponse
  | sendNotification
  | broadcastNotification
  | close

def program : Kind → Prog LockName
  | .eventLoop => eventLoop
  | .cleanup => cleanup
  | .sendResponse => sendResponse
  | .sendNotification => sendNotification
  | .broadcastNotification => broadcastNotification
  | .close => close

end Locks

/-! ## The programs and the system -/

open Locks

def ResponseStep.program : ResponseStep → Prog LockName
  | .findClient _ => Locks.sendResponse
  | .findSession .. => Locks.findSession
  | .publish .. => Locks.publishResponse
  | .cleanSession _ => Locks.cleanSession
  | .cleanRoute => Locks.cleanRoute

def NotificationStep.program (next : Prog LockName) : NotificationStep → Prog LockName
  | .findSession => notify next
  | .publish _ => Locks.publishNotification next

/-- What a call under way still has to do with the locks. -/
def Task.program : Task → Prog LockName
  | .response _ next => next.program
  | .notification _ _ _ next => next.program .done
  | .snapshot _ => broadcastNotification
  | .broadcast _ [] _ => .done
  | .broadcast _ (_ :: cs) next => next.program (notifyAll cs.length)
  | .clearSessions => Locks.clearSessions
  | .clearRoutes => Locks.clearRoutes

def Operation.kind : Operation → Kind
  | .sendResponse .. => .sendResponse
  | .sendNotification .. => .sendNotification
  | .broadcastNotification _ => .broadcastNotification
  | .close => .close

/-- A call that is not under way has nothing left to do. -/
def State.program (s : State S) (i : Nat) : Prog LockName :=
  ((s.tasks.lookup i).map Task.program).getD .done

theorem State.program_goto (s : State S) (i : Nat) (task : Task) :
    (s.goto i task).program i = task.program := by
  simp [program, lookup_goto]

theorem State.program_finish (s : State S) (i : Nat) (result : Except Error Unit) :
    (s.finish i result).program i = .done := by
  simp [program, lookup_finish]

/-- From `p` to `q`, a task takes the locks that a step with these writes needs. -/
def Covers (p q : Prog LockName) (s s' : State S) : Prop :=
  ∃ taken, Path taken p q ∧
    (s'.sessions ≠ s.sessions → (.sessions, .write) ∈ taken) ∧
    (s'.eventToClient ≠ s.eventToClient → (.eventToClient, .write) ∈ taken)

/-- A task goes on along its program, and has the locks for what it writes. -/
def Action.Covered (s s' : State S) : Action S → Prop
  | .receive _ => Covers eventLoop .again s s'
  | .cleanup => Covers Locks.cleanup .again s s'
  | .call op => Covers (Locks.program op.kind) (s'.program s.calls) s s'
  | .resume i _ | .snapshot i _ => Covers (s.program i) (s'.program i) s s'
  | .elapse _ => Covers .done .done s s'

theorem Covers.of_path {p q : Prog LockName} {s s' : State S}
    {taken : List (LockName × Mode)} (h : Path taken p q) (hsessions : s'.sessions = s.sessions)
    (hroutes : s'.eventToClient = s.eventToClient) : Covers p q s s' :=
  ⟨taken, h, fun hne ↦ absurd hsessions hne, fun hne ↦ absurd hroutes hne⟩

/-- A look into a map under its lock finds what it looks for. -/
theorem path_found {l : LockName} {p q : Prog LockName} :
    Path [(l, .read)] (.acquire l .read ((Prog.release l p).orElse (.release l q))) q :=
  .acquire l .read (.right (.release l (.refl q)))

/-- And here it does not. -/
theorem path_missing {l : LockName} {p q : Prog LockName} :
    Path [(l, .read)] (.acquire l .read ((Prog.release l p).orElse (.release l q))) p :=
  .acquire l .read (.left (.release l (.refl p)))

/-- An accepted message: the routes are locked for a request only. -/
theorem covers_track (s : State S) (event : S.Event) (r : IncomingRequest) :
    Covers eventLoop .again s (s.track event r) := by
  have hloop : ∀ taken, Path taken track .again → Path taken eventLoop .again :=
    fun _ h ↦ .await (.right (.right (.left h)))
  cases hr : r.message.isRequest with
  | true =>
      have hpath : Path [(.sessions, .write), (.eventToClient, .write)] track .again :=
        .right (.acquire _ _ (.right (.acquire _ _ (.release _ (.release _ (.refl _))))))
      exact ⟨_, hloop _ hpath, by simp, by simp⟩
  | false =>
      have hpath : Path [(.sessions, .write)] track .again :=
        .right (.acquire _ _ (.left (.release _ (.refl _))))
      have hroutes : NostrServerTransport.trackRoutes r s.eventToClient = s.eventToClient := by
        unfold NostrServerTransport.trackRoutes
        split
        · next hm => simp [hm, JsonRpcMessage.isRequest] at hr
        · rfl
      exact ⟨_, hloop _ hpath, by simp, fun hne ↦ absurd hroutes hne⟩

theorem covers_call (s : State S) (op : Operation) :
    Covers (Locks.program op.kind) ((s.call op).program s.calls) s (s.call op) := by
  have hstart : (s.call op).program s.calls = (Task.start op).program := by
    simp [State.program, State.lookup_call]
  rw [hstart]
  cases op with
  | sendResponse e response => exact .of_path (.refl _) rfl rfl
  | sendNotification c n correlated => exact .of_path (.refl _) rfl rfl
  | broadcastNotification n => exact .of_path (.refl _) rfl rfl
  | close => exact .of_path (.await (.right (.refl _))) rfl rfl

theorem covers_response {server : NostrServerTransport S} {amb : Ambient S} {s s' : State S}
    {i : Nat} {e : String} {next : ResponseStep}
    (h : resume server amb s i (.response e next) = some s') :
    Covers next.program (s'.program i) s s' := by
  cases next with
  | findClient response =>
      simp only [resume] at h
      split at h
      · cases h
        rw [State.program_goto]
        exact .of_path path_found rfl rfl
      · cases h
        rw [State.program_finish]
        exact .of_path path_missing rfl rfl
  | findSession response c =>
      simp only [resume] at h
      split at h
      · cases h
        rw [State.program_goto]
        exact .of_path path_found rfl rfl
      · cases h
        rw [State.program_finish]
        exact .of_path path_missing rfl rfl
  | publish response c isEncrypted =>
      simp only [resume] at h
      split at h
      · cases h
        rw [State.program_goto]
        exact .of_path (.right (.await (.right (.refl _)))) rfl rfl
      · cases h
        rw [State.program_finish]
        exact .of_path (.left (.refl _)) rfl rfl
  | cleanSession c =>
      cases h
      rw [State.program_goto]
      refine ⟨_, .acquire _ _ (.release _ (.refl _)), by simp, ?_⟩
      exact fun hne ↦ absurd rfl hne
  | cleanRoute =>
      cases h
      rw [State.program_finish]
      refine ⟨_, .acquire _ _ (.release _ (.refl _)), ?_, by simp⟩
      exact fun hne ↦ absurd rfl hne

theorem covers_notification {server : NostrServerTransport S} {amb : Ambient S} {s s' : State S}
    {i : Nat} {c : String} {n : JsonRpcMessage} {correlated : Option String}
    {next : NotificationStep}
    (h : resume server amb s i (.notification c n correlated next) = some s') :
    Covers (next.program .done) (s'.program i) s s' := by
  cases next with
  | findSession =>
      simp only [resume] at h
      split at h
      · cases h
        rw [State.program_goto]
        exact .of_path path_found rfl rfl
      · cases h
        rw [State.program_finish]
        exact .of_path path_missing rfl rfl
  | publish isEncrypted =>
      simp only [resume] at h
      split at h
      · cases h
        rw [State.program_finish]
        exact .of_path (.right (.await (.refl _))) rfl rfl
      · cases h
        rw [State.program_finish]
        exact .of_path (.left (.refl _)) rfl rfl

/-- The next client of a broadcast. -/
theorem Task.program_broadcast (n : JsonRpcMessage) (clients : List String) :
    (Task.broadcast n clients .findSession).program = notifyAll clients.length := by
  cases clients with
  | nil => rfl
  | cons c cs => exact (notifyAll_succ cs.length).symm

theorem covers_broadcast {server : NostrServerTransport S} {amb : Ambient S} {s s' : State S}
    {i : Nat} {n : JsonRpcMessage} {c : String} {cs : List String} {next : NotificationStep}
    (h : resume server amb s i (.broadcast n (c :: cs) next) = some s') :
    Covers (next.program (notifyAll cs.length)) (s'.program i) s s' := by
  cases next with
  | findSession =>
      simp only [resume] at h
      split at h
      · cases h
        rw [State.program_goto]
        exact .of_path path_found rfl rfl
      · cases h
        rw [State.program_goto, Task.program_broadcast]
        exact .of_path path_missing rfl rfl
  | publish isEncrypted =>
      simp only [resume] at h
      split at h
      · cases h
        rw [State.program_goto, Task.program_broadcast]
        exact .of_path (.right (.await (.refl _))) rfl rfl
      · cases h
        rw [State.program_goto, Task.program_broadcast]
        exact .of_path (.left (.refl _)) rfl rfl

theorem covers_resume {server : NostrServerTransport S} {amb : Ambient S} {s s' : State S}
    {i : Nat} {task : Task} (h : resume server amb s i task = some s') :
    Covers task.program (s'.program i) s s' := by
  cases task with
  | response e next => exact covers_response h
  | notification c n correlated next => exact covers_notification h
  | snapshot n => cases h
  | broadcast n clients next =>
      cases clients with
      | nil =>
          cases h
          rw [State.program_finish]
          exact .of_path (.refl _) rfl rfl
      | cons c cs => exact covers_broadcast h
  | clearSessions =>
      cases h
      rw [State.program_goto]
      exact ⟨_, .acquire _ _ (.release _ (.refl _)), by simp, fun hne ↦ absurd rfl hne⟩
  | clearRoutes =>
      cases h
      rw [State.program_finish]
      exact ⟨_, .acquire _ _ (.release _ (.refl _)), fun hne ↦ absurd rfl hne, by simp⟩

theorem step_covered {server : NostrServerTransport S} {s s' : State S} {a : Action S}
    (h : step server s a = some s') : a.Covered s s' := by
  cases a with
  | receive event =>
      simp only [step] at h
      split at h
      · next r _ =>
          cases h
          exact covers_track s event r
      · cases h
        exact .of_path (.await (.right (.left (.refl _)))) rfl rfl
  | call op =>
      simp only [step, Option.ite_none_right_eq_some] at h
      obtain ⟨-, h⟩ := h
      cases h
      exact covers_call s op
  | resume i amb =>
      obtain ⟨task, ht, h⟩ := Option.bind_eq_some_iff.1 h
      have hprogram : s.program i = task.program := by simp [State.program, ht]
      simp only [Action.Covered, hprogram]
      exact covers_resume h
  | snapshot i clients =>
      simp only [step] at h
      split at h
      · next n ht =>
          rw [Option.ite_none_right_eq_some] at h
          obtain ⟨-, h⟩ := h
          cases h
          have hprogram : s.program i = broadcastNotification := by
            simp [State.program, ht, Task.program]
          simp only [Action.Covered, hprogram]
          rw [State.program_goto, Task.program_broadcast]
          exact .of_path (.acquire _ _ (.release _ (.choice _ clients.length (.refl _)))) rfl rfl
      · cases h
  | cleanup =>
      cases h
      have hpath : Path [(.sessions, .write), (.eventToClient, .write)] Locks.cleanup .again :=
        .await (.acquire _ _ (.acquire _ _ (.release _ (.release _ (.refl _)))))
      exact ⟨_, hpath, by simp, by simp⟩
  | elapse d =>
      cases h
      exact .of_path (.refl _) rfl rfl

namespace Locks

/-! ## The order of the locks -/

theorem sessions_lt : LockName.sessions < LockName.eventToClient := Nat.zero_lt_one

theorem ordered_track : track.Ordered ∅ := by
  refine ordered_orElse rfl (ordered_acquire (ordered_orElse ?_ ?_))
  · exact ordered_release rfl
  · exact ordered_nested sessions_lt (ordered_release rfl)

theorem ordered_eventLoop : eventLoop.Ordered ∅ := by
  refine ordered_await (ordered_orElse rfl (ordered_orElse rfl (ordered_orElse ordered_track ?_)))
  refine ordered_await (ordered_orElse rfl ?_)
  exact ordered_await (ordered_orElse rfl ordered_track)

theorem ordered_cleanup : cleanup.Ordered ∅ := by
  refine ordered_await (ordered_acquire ?_)
  exact ordered_nested sessions_lt (ordered_release rfl)

theorem ordered_cleanRoute : cleanRoute.Ordered ∅ := ordered_acquire (ordered_release rfl)

theorem ordered_cleanSession : cleanSession.Ordered ∅ :=
  ordered_acquire (ordered_release ordered_cleanRoute)

theorem ordered_publishResponse : publishResponse.Ordered ∅ :=
  ordered_orElse rfl (ordered_await (ordered_orElse rfl ordered_cleanSession))

theorem ordered_findSession : findSession.Ordered ∅ := by
  refine ordered_acquire (ordered_orElse ?_ ?_)
  · exact ordered_release rfl
  · exact ordered_release ordered_publishResponse

theorem ordered_sendResponse : sendResponse.Ordered ∅ := by
  refine ordered_acquire (ordered_orElse ?_ ?_)
  · exact ordered_release rfl
  · exact ordered_release ordered_findSession

theorem ordered_publishNotification {next : Prog LockName} (h : next.Ordered ∅) :
    (publishNotification next).Ordered ∅ :=
  ordered_orElse h (ordered_await h)

theorem ordered_notify {next : Prog LockName} (h : next.Ordered ∅) : (notify next).Ordered ∅ := by
  refine ordered_acquire (ordered_orElse ?_ ?_)
  · exact ordered_release h
  · exact ordered_release (ordered_publishNotification h)

theorem ordered_notifyAll (clients : Nat) : (notifyAll clients).Ordered ∅ := by
  induction clients with
  | zero => rfl
  | succ clients ih =>
      rw [notifyAll_succ]
      exact ordered_notify ih

theorem ordered_broadcastNotification : broadcastNotification.Ordered ∅ :=
  ordered_acquire (ordered_release ordered_notifyAll)

theorem ordered_clearSessions : clearSessions.Ordered ∅ :=
  ordered_acquire (ordered_release (ordered_acquire (ordered_release rfl)))

theorem ordered_close : close.Ordered ∅ :=
  ordered_await (ordered_orElse rfl ordered_clearSessions)

theorem ordered_program : ∀ kind, (program kind).Ordered ∅
  | .eventLoop => ordered_eventLoop
  | .cleanup => ordered_cleanup
  | .sendResponse => ordered_sendResponse
  | .sendNotification => ordered_notify rfl
  | .broadcastNotification => ordered_broadcastNotification
  | .close => ordered_close

/-- In no state are all unfinished tasks blocked on a lock, and a task that waits for the
network, the signer or the clock holds no lock. -/
theorem deadlock_free {s : RwLock.State LockName Kind}
    (hs : Reaches (RwLock.step program) .init s) :
    ¬ ((∃ i, s.Unfinished i) ∧ ∀ i, s.Unfinished i → s.Blocked i) ∧
      ∀ i, s.Awaiting i → s.held i = ∅ := by
  constructor
  · rintro ⟨⟨i, hi⟩, hblocked⟩
    obtain ⟨j, hj, hfree⟩ := exists_not_blocked ordered_program hs hi
    exact hfree (hblocked j hj)
  · exact fun i ↦ held_of_awaiting ordered_program hs

/-- An event, a tick and a notification contend for the sessions, and a close waits behind. -/
def contention : List (RwLock.Action Kind) :=
  [.spawn .sendNotification, .spawn .eventLoop, .spawn .cleanup, .spawn .close,
    .advance 0 0, .advance 0 0, .advance 1 0, .advance 1 1, .advance 1 1, .advance 1 0,
    .advance 1 1, .advance 1 0, .advance 2 0, .advance 2 0, .advance 3 0, .advance 3 1,
    .advance 3 0]

def contendedState : RwLock.State LockName Kind :=
  (run (RwLock.step program) .init contention).get rfl

theorem deadlock_free_contendedState :
    ¬ ((∃ i, contendedState.Unfinished i) ∧
        ∀ i, contendedState.Unfinished i → contendedState.Blocked i) ∧
      ∀ i, contendedState.Awaiting i → contendedState.held i = ∅ :=
  deadlock_free ⟨contention, rfl⟩

end Locks

end ContextVM.Server
