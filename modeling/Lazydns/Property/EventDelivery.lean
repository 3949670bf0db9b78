import Lazydns.Audit.EventBus

/-!
# What subscribers receive

Each subscriber receives a part of what is published while it is there, in the order in which it is published, and nothing twice. What it has received, what is still before it and what it was told it had missed are together all that was published, and of the latest entries, as many as the channel keeps, it loses none.
-/

namespace Lazydns

namespace AuditEventBus

open Broadcast

variable {α : Type} {stats stats' : EventBusStats} {c c' : Channel α} {j : Nat} {s s' : System}

namespace Channel

/-! ### One step -/

/-- What a step is to the subscribers: something is sent to all of them, one comes, or one goes on. -/
inductive Effect (c c' : Channel α) : Prop where
  | sends (entries : List α) (hsent : c'.sent = c.sent ++ entries) (hentries : entries.length ≤ 1)
      (hsubscribers : c'.subscribers = c.subscribers)
  | comes (hsent : c'.sent = c.sent)
      (hsubscribers : c'.subscribers = c.subscribers ++ [⟨Broadcast.subscribe c.sent, .subscribed⟩])
  | moves (hsent : c'.sent = c.sent) (j : Nat) (subscriber subscriber' : Subscriber α)
      (hj : c.subscribers[j]? = some subscriber) (hsubscribers : c'.subscribers = c.subscribers.set j subscriber')
      (hreceiver : subscriber'.receiver = subscriber.receiver)
  | receives (hsent : c'.sent = c.sent) (j : Nat) (subscriber subscriber' : Subscriber α)
      (hj : c.subscribers[j]? = some subscriber) (hsubscribers : c'.subscribers = c.subscribers.set j subscriber')
      (hreceiver : subscriber'.receiver = (subscriber.receiver.recv c.library c.sent).1)

theorem recv_receiver (library : Broadcast α) (sent : List α) (subscriber : Subscriber α) :
    (recv library sent subscriber).receiver = (subscriber.receiver.recv library sent).1 := by
  rw [recv]
  split
  · rename_i h
    rw [h]
  · rename_i h
    rw [h]

theorem publish_channel (stats : EventBusStats) (c : Channel α) (call : Publishing α) :
    (c.publish stats call).2.1.library = c.library ∧ (c.publish stats call).2.1.subscribers = c.subscribers ∧
      ∃ entries, entries.length ≤ 1 ∧ (c.publish stats call).2.1.sent = c.sent ++ entries := by
  have hnone : ∃ entries : List α, entries.length ≤ 1 ∧ c.sent = c.sent ++ entries :=
    ⟨[], Nat.zero_le 1, (List.append_nil _).symm⟩
  cases call with
  | sending entry =>
    rw [publish]
    split
    · exact ⟨rfl, rfl, hnone⟩
    · exact ⟨rfl, rfl, [entry], Nat.le_refl 1, rfl⟩
  | counting | logging => exact ⟨rfl, rfl, hnone⟩

theorem step_effect {e : Event α} (h : c.step stats e = some (stats', c')) : c'.library = c.library ∧ c.Effect c' := by
  cases e with
  | publish entry =>
    cases h
    exact ⟨rfl, .sends [] (List.append_nil _).symm (Nat.zero_le 1) rfl⟩
  | call i =>
    simp only [step] at h
    split at h
    · rename_i call hcall
      cases h
      obtain ⟨hlibrary, hsubscribers, entries, hentries, hsent⟩ := publish_channel stats c call
      exact ⟨hlibrary, .sends entries hsent hentries hsubscribers⟩
    · cases h
  | subscribe =>
    cases h
    exact ⟨rfl, .comes rfl rfl⟩
  | advance j =>
    simp only [step] at h
    split at h
    · rename_i subscriber hj
      obtain ⟨⟨_, stage⟩, -, heq⟩ := Option.map_eq_some_iff.mp h
      cases heq
      exact ⟨rfl, .moves rfl j subscriber _ hj rfl rfl⟩
    · cases h
  | recv j =>
    simp only [step] at h
    split at h
    · rename_i subscriber hj
      obtain ⟨-, heq⟩ := Option.ite_none_right_eq_some.mp h
      cases heq
      exact ⟨rfl, .receives rfl j subscriber _ hj rfl (recv_receiver _ _ _)⟩
    · cases h
  | drop j =>
    simp only [step] at h
    split at h
    · rename_i subscriber hj
      obtain ⟨-, heq⟩ := Option.ite_none_right_eq_some.mp h
      cases heq
      exact ⟨rfl, .moves rfl j subscriber _ hj rfl rfl⟩
    · cases h

/-! ### What a run keeps -/

/-- Every subscriber follows what is sent. -/
def Followed (library : Broadcast α) (c : Channel α) : Prop :=
  c.library = library ∧ ∀ subscriber ∈ c.subscribers, subscriber.receiver.Follows library.slots c.sent

theorem Followed.effect {library : Broadcast α} (h : c.Followed library) (hlibrary : c'.library = c.library) (heffect : c.Effect c') :
    c'.Followed library := by
  refine ⟨hlibrary.trans h.1, fun subscriber hmem => ?_⟩
  cases heffect with
  | sends entries hsent hentries hsubscribers =>
    rw [hsubscribers] at hmem
    rw [hsent]
    match entries, hentries with
    | [], _ =>
      rw [List.append_nil]
      exact h.2 subscriber hmem
    | [entry], _ => exact (h.2 subscriber hmem).send entry
  | comes hsent hsubscribers =>
    rw [hsubscribers] at hmem
    rw [hsent]
    obtain hold | hnew := List.mem_append.mp hmem
    · exact h.2 subscriber hold
    · rw [List.mem_singleton.mp hnew]
      exact Receiver.follows_subscribe
  | moves hsent j subscriber₀ subscriber' hj hsubscribers hreceiver =>
    rw [hsubscribers] at hmem
    rw [hsent]
    obtain hold | rfl := List.mem_or_eq_of_mem_set hmem
    · exact h.2 subscriber hold
    · rw [hreceiver]
      exact h.2 _ (List.mem_of_getElem? hj)
  | receives hsent j subscriber₀ subscriber' hj hsubscribers hreceiver =>
    rw [hsubscribers] at hmem
    rw [hsent]
    obtain hold | rfl := List.mem_or_eq_of_mem_set hmem
    · exact h.2 subscriber hold
    · rw [hreceiver, h.1]
      exact (h.2 _ (List.mem_of_getElem? hj)).recv

end Channel

theorem step_cases {e : Event} (h : step s e = some s') :
    (∃ event, e = .query event ∧ s.query.step s.stats event = some (s'.stats, s'.query) ∧
        s'.security = s.security ∧ s'.highest = max s.highest s'.stats.activeSubscribers) ∨
      ∃ event, e = .security event ∧ s.security.step s.stats event = some (s'.stats, s'.security) ∧
        s'.query = s.query ∧ s'.highest = max s.highest s'.stats.activeSubscribers := by
  cases e with
  | query event =>
    obtain ⟨⟨stats, query⟩, hstep, heq⟩ := Option.map_eq_some_iff.mp h
    cases heq
    exact .inl ⟨event, rfl, hstep, rfl, rfl⟩
  | security event =>
    obtain ⟨⟨stats, security⟩, hstep, heq⟩ := Option.map_eq_some_iff.mp h
    cases heq
    exact .inr ⟨event, rfl, hstep, rfl, rfl⟩

def Followed (query : Broadcast QueryLogEntry) (security : Broadcast AuditEvent) (s : System) : Prop :=
  s.query.Followed query ∧ s.security.Followed security

variable {query : Broadcast QueryLogEntry} {security : Broadcast AuditEvent}

theorem Followed.step {e : Event} (h : Followed query security s) (hstep : step s e = some s') :
    Followed query security s' := by
  obtain ⟨event, -, hstep, hother, -⟩ | ⟨event, -, hstep, hother, -⟩ := step_cases hstep
  · obtain ⟨hlibrary, heffect⟩ := Channel.step_effect hstep
    exact ⟨h.1.effect hlibrary heffect, hother ▸ h.2⟩
  · obtain ⟨hlibrary, heffect⟩ := Channel.step_effect hstep
    exact ⟨hother ▸ h.1, h.2.effect hlibrary heffect⟩

theorem followed_of_run {es : List Event} {t : System}
    (hrun : machine.run (.new query security) es = some t) : Followed query security t := by
  apply Machine.run_invariant (I := Followed query security) _ _ hrun
  · exact fun _ _ _ hs hstep => hs.step hstep
  · exact ⟨⟨rfl, List.forall_mem_nil _⟩, rfl, List.forall_mem_nil _⟩

end AuditEventBus

end Lazydns
