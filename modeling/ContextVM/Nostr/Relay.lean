import ContextVM.Core.Serializers
import ContextVM.Lib.Newest
import Mathlib.Data.List.Sort

/-!
# What the relays keep

The relays are not part of the code.  They are taken as one store that keeps the newest event
of each author and kind, and follows NIP-09: an event of kind 5 deletes the earlier events of
its author that its `e` tags name by their ids or its `a` tags by their coordinates.

Which of two events of the same second is kept is up to the relay.
-/

namespace ContextVM

open Lib

variable {S : Sdk}

/-- The kind of a deletion request. -/
def deletionKind : UInt16 := 5

/-- What a replaceable event is kept under. -/
def Event.slot {Key Id Sig Text : Type} (event : Event Key Id Sig Text) : Key × UInt16 :=
  (event.pubkey, event.kind)

/-- The events that the relays keep. -/
abbrev Store (S : Sdk) := Keyed (Event.slot : S.Event → S.PublicKey × UInt16)

/-- Whether an event takes the place of an older one of its author and kind. -/
structure Relay (S : Sdk) where
  replaces : S.Event → S.Event → Bool
  newer {event old : S.Event} : old.createdAt < event.createdAt → replaces event old = true
  older {event old : S.Event} : event.createdAt < old.createdAt → replaces event old = false

/-- The relay that keeps the last to arrive of two events of the same second. -/
def Relay.lastArrival (S : Sdk) : Relay S where
  replaces event old := decide (old.createdAt ≤ event.createdAt)
  newer h := decide_eq_true h.le
  older h := decide_eq_false (Nat.not_le.2 h)

/-! ## Deletion -/

/-- A tag of that name and value. -/
def Tag.isNamed (name value : String) (tag : Tag) : Bool :=
  tag.head? = some name && tag[1]? = some value

/-- `kind:pubkey:d`. -/
def coordinate (S : Sdk) (event : S.Event) : String :=
  toString event.kind.toNat ++ ":" ++ S.toHex event.pubkey ++ ":" ++
    (getTagValue event.tags "d").getD ""

/-- Whether one event deletes another. -/
def deletes (S : Sdk) (event old : S.Event) : Bool :=
  event.kind = deletionKind && old.pubkey = event.pubkey && old.createdAt ≤ event.createdAt &&
    event.tags.any fun tag ↦
      tag.isNamed "e" (S.idToHex old.id) || tag.isNamed "a" (coordinate S old)

/-! ## Publishing and fetching -/

/-- The relays take an event. -/
def Relay.receive (relay : Relay S) (store : Store S) (event : S.Event) : Store S :=
  (store.filter fun old ↦ !deletes S event old).put relay.replaces event

/-- The filters that discovery uses. -/
structure EventFilter (S : Sdk) where
  kind : UInt16
  author : Option S.PublicKey

def EventFilter.matchEvent (filter : EventFilter S) (event : S.Event) : Bool :=
  event.kind = filter.kind && filter.author.all fun author ↦ event.pubkey = author

/-- `Client::fetch_events`: the newest first. -/
def Store.fetchEvents (store : Store S) (filter : EventFilter S) : List S.Event :=
  (store.items.filter filter.matchEvent).insertionSort fun a b ↦ b.createdAt ≤ a.createdAt

/-! ## What is kept under a slot -/

theorem deletes_eq_false_of_kind {event : S.Event} (h : event.kind ≠ deletionKind)
    (old : S.Event) : deletes S event old = false := by
  simp [deletes, h]

/-- A deletion request whose tags name neither events nor coordinates deletes nothing. -/
theorem deletes_eq_false_of_tags {event : S.Event}
    (h : ∀ tag ∈ event.tags, tag.head? ≠ some "e" ∧ tag.head? ≠ some "a") (old : S.Event) :
    deletes S event old = false := by
  have hany : (event.tags.any fun tag ↦
      tag.isNamed "e" (S.idToHex old.id) || tag.isNamed "a" (coordinate S old)) = false := by
    refine List.any_eq_false.2 fun tag htag ↦ ?_
    obtain ⟨he, ha⟩ := h tag htag
    simp [Tag.isNamed, he, ha]
  rw [deletes, hany, Bool.and_false]

/-- An event that deletes nothing bears only on its own slot. -/
theorem Relay.receive_eq_put (relay : Relay S) (store : Store S) {event : S.Event}
    (h : ∀ old, deletes S event old = false) :
    relay.receive store event = store.put relay.replaces event := by
  rw [receive, Keyed.filter_eq_self store fun old ↦ by rw [h old, Bool.not_false]]

theorem mem_fetchEvents {store : Store S} {filter : EventFilter S} {event : S.Event} :
    event ∈ store.fetchEvents filter ↔ event ∈ store.items ∧ filter.matchEvent event = true := by
  rw [Store.fetchEvents, List.mem_insertionSort, List.mem_filter]

/-- Of one author there is one event of a kind to fetch. -/
theorem head?_fetchEvents (store : Store S) (kind : UInt16) (author : S.PublicKey) :
    (store.fetchEvents ⟨kind, some author⟩).head? = store.find (author, kind) := by
  refine Keyed.head?_eq_find fun event ↦ ?_
  rw [mem_fetchEvents]
  simp [EventFilter.matchEvent, Event.slot, and_comm]

end ContextVM
