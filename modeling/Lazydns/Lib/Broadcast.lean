import Mathlib.Data.List.DropRight

/-!
# Broadcast channels

What is sent to a broadcast channel is kept for its receivers, the last `slots` values of it. Each receiver is at a place of its own; one that comes to a value that is no longer kept is told how many it has missed and goes on with the oldest that is. This is what is known of a channel; how it does that is left to it.

A receiver notes what it has received and how many values it has missed. Whatever the order of the calls, what it has received and has still before it is a part of what was sent since it came, in the order in which it was sent, and ends with the last `slots` of these values.
-/

inductive Broadcast.Reception (α : Type) where
  | value (value : α)
  | lagged (count : Nat)
  | empty
  deriving DecidableEq, Repr

/-- A channel: how many values it keeps, and for a receiver that has come past the first so many of the values sent, what `recv` finds and how far it comes. -/
structure Broadcast (α : Type) where
  slots : Nat
  recv : List α → Nat → Nat × Broadcast.Reception α
  recv_behind : ∀ sent next, next + slots < sent.length →
    recv sent next = (sent.length - slots, .lagged (sent.length - slots - next))
  recv_value : ∀ sent next value, sent.length ≤ next + slots → sent[next]? = some value →
    recv sent next = (next + 1, .value value)
  recv_empty : ∀ sent next, sent.length ≤ next → recv sent next = (next, .empty)

namespace Broadcast

variable {α : Type}

/-- A channel that keeps all values and forgets those it need not keep. -/
def keeping (slots : Nat) : Broadcast α where
  slots
  recv sent next :=
    if next + slots < sent.length then (sent.length - slots, .lagged (sent.length - slots - next))
    else
      match sent[next]? with
      | some value => (next + 1, .value value)
      | none => (next, .empty)
  recv_behind := fun sent next h => if_pos h
  recv_value := fun sent next value h hvalue => by rw [if_neg (Nat.not_lt_of_le h), hvalue]
  recv_empty := fun sent next h => by
    rw [if_neg (by omega), List.getElem?_eq_none h]

/-- Where a receiver came to the channel and where it is. The rest is noted. -/
structure Receiver (α : Type) where
  since : Nat
  next : Nat
  received : List α
  missed : Nat
  deriving DecidableEq, Repr

def subscribe (sent : List α) : Receiver α := ⟨sent.length, sent.length, [], 0⟩

namespace Receiver

section

variable (channel : Broadcast α) (slots : Nat) (sent : List α) (r : Receiver α)

/-- The receiver has fallen behind what is kept. -/
def Behind : Prop := r.next + slots < sent.length

instance : Decidable (r.Behind slots sent) := inferInstanceAs (Decidable (_ < _))

/-- Go on with the oldest value that is kept. -/
def skip : Receiver α :=
  { r with next := sent.length - slots, missed := r.missed + (sent.length - slots - r.next) }

def take (value : α) : Receiver α := { r with next := r.next + 1, received := r.received ++ [value] }

/-- The receiver goes on, and notes what it is told. -/
def recv : Receiver α × Reception α :=
  match channel.recv sent r.next with
  | (next, .value value) => ({ r with next, received := r.received ++ [value] }, .value value)
  | (next, .lagged count) => ({ r with next, missed := r.missed + count }, .lagged count)
  | (next, .empty) => ({ r with next }, .empty)

/-- What was sent since the receiver came. -/
def published : List α := sent.drop r.since

/-- What the receiver has not come to. -/
def pending : List α := sent.drop r.next

/-- What a receiver has made of what was sent to it. -/
structure Follows : Prop where
  since_le : r.since ≤ sent.length
  next_le : r.next ≤ sent.length
  order : (r.received ++ r.pending sent).Sublist (r.published sent)
  newest : (r.published sent).rtake slots <:+ r.received ++ r.pending sent
  account : r.received.length + (r.pending sent).length + r.missed = (r.published sent).length

end

variable {channel : Broadcast α} {slots : Nat} {sent : List α} {r : Receiver α}

theorem recv_of_behind (hbehind : r.Behind channel.slots sent) :
    r.recv channel sent =
      (r.skip channel.slots sent, .lagged (sent.length - channel.slots - r.next)) := by
  rw [recv, channel.recv_behind sent r.next hbehind]
  rfl

theorem recv_of_value (hbehind : ¬r.Behind channel.slots sent) {value : α} (hvalue : sent[r.next]? = some value) :
    r.recv channel sent = (r.take value, .value value) := by
  rw [recv, channel.recv_value sent r.next value (Nat.le_of_not_lt hbehind) hvalue]
  rfl

theorem recv_of_none (hvalue : sent[r.next]? = none) : r.recv channel sent = (r, .empty) := by
  rw [recv, channel.recv_empty sent r.next (List.getElem?_eq_none_iff.mp hvalue)]

/-- A receiver skips what it has lost, takes the next value, or finds none. -/
inductive Receives (channel : Broadcast α) (sent : List α) (r : Receiver α) : Receiver α × Reception α → Prop
  | behind (hbehind : r.Behind channel.slots sent) :
      Receives channel sent r (r.skip channel.slots sent, .lagged (sent.length - channel.slots - r.next))
  | value (hbehind : ¬r.Behind channel.slots sent) {value : α} (hvalue : sent[r.next]? = some value) :
      Receives channel sent r (r.take value, .value value)
  | empty (hvalue : sent[r.next]? = none) : Receives channel sent r (r, .empty)

theorem receives (channel : Broadcast α) (sent : List α) (r : Receiver α) :
    Receives channel sent r (r.recv channel sent) := by
  by_cases hbehind : r.Behind channel.slots sent
  · rw [recv_of_behind hbehind]
    exact .behind hbehind
  · cases hvalue : sent[r.next]? with
    | some value =>
      rw [recv_of_value hbehind hvalue]
      exact .value hbehind hvalue
    | none =>
      rw [recv_of_none hvalue]
      exact .empty hvalue

theorem follows_subscribe : (subscribe sent).Follows slots sent := by
  have hpublished : (subscribe sent).published sent = [] := List.drop_length
  have hpending : (subscribe sent).pending sent = [] := List.drop_length
  refine ⟨Nat.le_refl _, Nat.le_refl _, ?_, ?_, ?_⟩
  · rw [hpublished, hpending]
    exact List.Sublist.refl []
  · rw [hpublished, hpending, List.rtake_nil]
    exact List.nil_suffix
  · rw [hpublished, hpending]
    rfl

theorem Follows.send (h : r.Follows slots sent) (value : α) : r.Follows slots (sent ++ [value]) := by
  have hlength : (sent ++ [value]).length = sent.length + 1 := List.length_append
  have hpublished : r.published (sent ++ [value]) = r.published sent ++ [value] :=
    List.drop_append_of_le_length h.since_le
  have hpending : r.pending (sent ++ [value]) = r.pending sent ++ [value] :=
    List.drop_append_of_le_length h.next_le
  refine ⟨by have := h.since_le; omega, by have := h.next_le; omega, ?_, ?_, ?_⟩
  · rw [hpublished, hpending, ← List.append_assoc]
    exact h.order.append (List.Sublist.refl [value])
  · rw [hpublished, hpending, ← List.append_assoc]
    cases hslots : slots with
    | zero =>
      rw [List.rtake_zero]
      exact List.nil_suffix
    | succ n =>
      rw [List.rtake_concat_succ, List.suffix_append_self_iff]
      apply List.IsSuffix.trans _ h.newest
      rw [List.rtake, List.rtake, hslots]
      exact List.drop_suffix_drop_left _ (by omega)
  · have haccount := h.account
    rw [hpublished, hpending, List.length_append, List.length_append]
    omega

theorem Follows.skip (h : r.Follows slots sent) (hbehind : r.Behind slots sent) :
    (r.skip slots sent).Follows slots sent := by
  have hnext := h.next_le
  have hsince := h.since_le
  rw [Behind] at hbehind
  refine ⟨hsince, Nat.sub_le _ _, ?_, ?_, ?_⟩
  · apply List.Sublist.trans _ h.order
    apply List.Sublist.append (List.Sublist.refl _)
    show (sent.drop (sent.length - slots)).Sublist (sent.drop r.next)
    exact (List.drop_suffix_drop_left sent (by omega)).sublist
  · apply List.suffix_append_of_suffix
    show (sent.drop r.since).drop ((sent.drop r.since).length - slots) <:+ sent.drop (sent.length - slots)
    rw [List.drop_drop, List.length_drop]
    exact List.drop_suffix_drop_left sent (by omega)
  · have haccount := h.account
    simp only [pending, published, Receiver.skip, List.length_drop] at haccount ⊢
    omega

theorem Follows.take (h : r.Follows slots sent) {value : α} (hvalue : sent[r.next]? = some value) :
    (r.take value).Follows slots sent := by
  obtain ⟨hlt, hget⟩ := List.getElem?_eq_some_iff.mp hvalue
  -- What is received and what is pending are together what they were.
  have hsame : (r.take value).received ++ (r.take value).pending sent = r.received ++ r.pending sent := by
    show r.received ++ [value] ++ sent.drop (r.next + 1) = r.received ++ sent.drop r.next
    rw [List.drop_eq_getElem_cons hlt, hget, List.append_assoc, List.singleton_append]
  refine ⟨h.since_le, hlt, ?_, ?_, ?_⟩
  · rw [hsame]
    exact h.order
  · rw [hsame]
    exact h.newest
  · rw [← List.length_append, hsame, List.length_append]
    exact h.account

theorem Follows.recv (h : r.Follows channel.slots sent) :
    (r.recv channel sent).1.Follows channel.slots sent := by
  have hreceives := receives channel sent r
  generalize r.recv channel sent = found at hreceives ⊢
  cases hreceives with
  | behind hbehind => exact h.skip hbehind
  | value hbehind hvalue => exact h.take hvalue
  | empty hvalue => exact h

/-- A receiver that has missed nothing, and no other, has had or has before it all that was sent since it came. -/
theorem Follows.complete_iff (h : r.Follows slots sent) :
    r.received ++ r.pending sent = r.published sent ↔ r.missed = 0 := by
  have haccount := h.account
  constructor
  · intro hall
    rw [← hall, List.length_append] at haccount
    omega
  · intro hmissed
    apply h.order.eq_of_length
    rw [List.length_append]
    omega

end Receiver

end Broadcast
