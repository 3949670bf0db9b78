import Lazydns.Web.WebSocket
import Mathlib.Data.List.Induction
import Mathlib.Tactic.Tauto

/-!
# How long a connection lives, and what it is sent

A connection is closed for silence only at a heartbeat, and only if every sign of life is longer ago than the timeout. The other way round, as long as the loop goes on and no heartbeat is due, there was a sign of life less than the timeout and one heartbeat ago. An update is due once in each second, and is sent exactly if the last thing that the client has said of the overview was not to unsubscribe from it.
-/

namespace Lazydns

namespace WebSocket

/-! ### Topics -/

/-- The topics that are subscribed to after what was noted. -/
def topicsAfter (log : List Noted) : List String :=
  log.foldl (fun subscribed noted =>
    match noted with
    | .message (.subscribe topics) => subscribe subscribed topics
    | .message (.unsubscribe topics) => unsubscribe subscribed topics
    | _ => subscribed) ["overview"]

/-- What a message says of a topic. -/
def Noted.wish (topic : String) : Noted → Option Bool
  | .message (.subscribe topics) => if topic ∈ topics then some true else none
  | .message (.unsubscribe topics) => if topic ∈ topics then some false else none
  | _ => none

/-- Whether the client has wished for the topic when it last said something of it; the overview is wished for from the start. -/
def Wished (topic : String) (log : List Noted) : Prop :=
  (log.reverse.findSome? (Noted.wish topic)).getD (topic = "overview") = true

instance (topic : String) (log : List Noted) : Decidable (Wished topic log) :=
  inferInstanceAs (Decidable (_ = true))

theorem topicsAfter_append (log : List Noted) (noted : Noted) : topicsAfter (log ++ [noted]) =
    match noted with
    | .message (.subscribe topics) => subscribe (topicsAfter log) topics
    | .message (.unsubscribe topics) => unsubscribe (topicsAfter log) topics
    | _ => topicsAfter log := by
  rw [topicsAfter, List.foldl_append]
  rfl

theorem mem_subscribe {topic : String} {topics subscribed : List String} :
    topic ∈ subscribe subscribed topics ↔ topic ∈ topics ∨ topic ∈ subscribed := by
  induction topics generalizing subscribed with
  | nil => simp [subscribe]
  | cons t topics ih =>
    rw [subscribe, List.foldl_cons, ← subscribe, ih, List.mem_cons]
    by_cases ht : t ∈ subscribed
    · rw [if_pos ht]
      constructor
      · rintro (h | h)
        · exact .inl (.inr h)
        · exact .inr h
      · rintro ((rfl | h) | h)
        · exact .inr ht
        · exact .inl h
        · exact .inr h
    · rw [if_neg ht, List.mem_append, List.mem_singleton]
      tauto

theorem mem_unsubscribe {topic : String} {topics subscribed : List String} :
    topic ∈ unsubscribe subscribed topics ↔ topic ∈ subscribed ∧ topic ∉ topics := by
  rw [unsubscribe, List.mem_filter, decide_eq_true_iff]

/-- The topics that are subscribed to are those the client last wished for. -/
theorem mem_topicsAfter (topic : String) (log : List Noted) : topic ∈ topicsAfter log ↔ Wished topic log := by
  induction log using List.reverseRecOn with
  | nil => simp [topicsAfter, Wished]
  | append_singleton log noted ih =>
    rw [topicsAfter_append, Wished, List.reverse_append, List.reverse_singleton, List.singleton_append,
      List.findSome?_cons]
    cases noted with
    | update shown => exact ih
    | message m =>
      cases m with
      | ping => exact ih
      | subscribe topics =>
        show topic ∈ subscribe (topicsAfter log) topics ↔ _
        rw [mem_subscribe]
        by_cases hmem : topic ∈ topics
        · simp [Noted.wish, hmem]
        · simpa [Noted.wish, Wished, hmem] using ih
      | unsubscribe topics =>
        show topic ∈ unsubscribe (topicsAfter log) topics ↔ _
        rw [mem_unsubscribe]
        by_cases hmem : topic ∈ topics
        · simp [Noted.wish, hmem]
        · simpa [Noted.wish, Wished, hmem] using ih

/-! ### Connections -/

def Phase.looping : Phase → Bool
  | .waiting => true
  | .sending _ => true
  | _ => false

def Phase.counted : Phase → Bool
  | .upgraded => false
  | .closed _ _ => false
  | _ => true

def Phase.timedOut : Phase → Option Nat
  | .leaving time .timedOut => some time
  | .closed time .timedOut => some time
  | _ => none

def Noted.isUpdate : Noted → Bool
  | .update _ => true
  | .message _ => false

def Config.heartbeat (config : Config) : Nat := config.heartbeatSecs * nanosPerSec

def Config.timeout (config : Config) : Nat := config.timeoutSecs * nanosPerSec

structure Kept (config : Config) (now : Nat) (c : Connection) : Prop where
  fresh : c.phase = .upgraded ∨ c.phase = .greeting → c.log = [] ∧ c.beats = []
  shown : ∀ front shown back, c.log = front ++ .update shown :: back → (shown = true ↔ Wished "overview" front)
  topics : c.phase.looping → c.subscribedTopics = topicsAfter c.log
  update : c.phase.looping →
    Ticker.Ticked c.begun nanosPerSec (c.log.countP Noted.isUpdate) now c.updateInterval
  heartbeat : c.phase.looping → Ticker.Ticked c.begun config.heartbeat c.beats.length now c.heartbeatInterval
  begun : c.phase.looping → c.begun ≤ c.lastPong ∧ c.lastPong ≤ now
  sign : c.phase.looping → c.lastPong ∈ c.signs
  signs : ∀ sign ∈ c.signs, sign ≤ c.lastPong
  beats : ∀ beat, c.beats.getLast? = some beat → c.phase.looping →
    c.heartbeatInterval.next ≤ beat + config.heartbeat ∧ beat ≤ c.lastPong + config.timeout
  timedOut : ∀ time, c.phase.timedOut = some time → c.lastPong + config.timeout < time

/-- What is done with a connection, but for counting it. -/
inductive Serves (config : Config) (now : Nat) (c : Connection) : Connection → Prop
  | receive (incoming : Incoming) (hphase : c.phase = .waiting) : Serves config now c (c.receive now incoming)
  | update (hphase : c.phase = .waiting) (hdue : c.updateInterval.Due now) : Serves config now c c.update
  | heartbeat (hphase : c.phase = .waiting) (hdue : c.heartbeatInterval.Due now) :
      Serves config now c (c.heartbeat config now)
  | greeted (hphase : c.phase = .greeting) : Serves config now c (c.beginLoop config now)
  | ungreeted (hphase : c.phase = .greeting) : Serves config now c (c.leave now .failed)
  | sent (message : Outgoing) (ok : Bool) (hphase : c.phase = .sending message) :
      Serves config now c (c.sent now ok message)

variable {config : Config} {now now' i : Nat} {c c' : Connection} {s s' : System} {e : Event} {es : List Event}

theorem kept_new (config : Config) (now : Nat) : Kept config now .new where
  fresh _ := ⟨rfl, rfl⟩
  shown front shown back h := by simp [Connection.new] at h
  topics h := by cases h
  update h := by cases h
  heartbeat h := by cases h
  begun h := by cases h
  sign h := by cases h
  signs sign h := by cases h
  beats beat h := by cases h
  timedOut time h := by cases h

theorem Kept.later (h : Kept config now c) (hle : now ≤ now') : Kept config now' c :=
  { h with
    update := fun hloop => (h.update hloop).later hle
    heartbeat := fun hloop => (h.heartbeat hloop).later hle
    begun := fun hloop => ⟨(h.begun hloop).1, Nat.le_trans (h.begun hloop).2 hle⟩ }

theorem Kept.phase (h : Kept config now c) (p : Phase) (hloop : p.looping → c.phase.looping)
    (hfresh : p = .upgraded ∨ p = .greeting → c.log = [] ∧ c.beats = [])
    (htimedOut : ∀ time, p.timedOut = some time → c.lastPong + config.timeout < time) :
    Kept config now { c with phase := p } where
  fresh := hfresh
  shown := h.shown
  topics hp := h.topics (hloop hp)
  update hp := h.update (hloop hp)
  heartbeat hp := h.heartbeat (hloop hp)
  begun hp := h.begun (hloop hp)
  sign hp := h.sign (hloop hp)
  signs := h.signs
  beats beat hbeat hp := h.beats beat hbeat (hloop hp)
  timedOut := htimedOut

theorem Kept.loop (h : Kept config now c) (hloop : c.phase.looping) {p : Phase} (hp : p.looping) :
    Kept config now { c with phase := p } := by
  apply h.phase p (fun _ => hloop)
  · rintro (rfl | rfl) <;> cases hp
  · intro time htime
    cases p with
    | waiting | sending => cases htime
    | upgraded | greeting | leaving | closed => cases hp

theorem Kept.leave (h : Kept config now c) {reason : Reason}
    (hreason : reason = .timedOut → c.lastPong + config.timeout < now) : Kept config now (c.leave now reason) := by
  apply h.phase
  · intro hp
    cases hp
  · rintro (hp | hp) <;> cases hp
  · intro time htime
    cases reason with
    | timedOut =>
      cases htime
      exact hreason rfl
    | client | failed => cases htime

theorem Kept.alive (h : Kept config now c) (hloop : c.phase.looping) : Kept config now (c.alive now) where
  fresh := h.fresh
  shown := h.shown
  topics := h.topics
  update := h.update
  heartbeat := h.heartbeat
  begun hp := ⟨Nat.le_trans (h.begun hp).1 (h.begun hp).2, Nat.le_refl _⟩
  sign _ := List.mem_append_right _ List.mem_cons_self
  signs sign hsign := by
    rcases List.mem_append.mp hsign with hsign | hsign
    · exact Nat.le_trans (h.signs sign hsign) (h.begun hloop).2
    · exact Nat.le_of_eq (List.mem_singleton.mp hsign)
  beats beat hbeat hp := by
    obtain ⟨hnext, hle⟩ := h.beats beat hbeat hp
    exact ⟨hnext, Nat.le_trans hle (Nat.add_le_add_right (h.begun hp).2 _)⟩
  timedOut time htime := by
    cases hphase : c.phase with
    | waiting | sending | upgraded | greeting =>
      rw [show (c.alive now).phase = c.phase from rfl, hphase] at htime
      cases htime
    | leaving | closed =>
      rw [hphase] at hloop
      cases hloop

theorem Kept.note (h : Kept config now c) (hloop : c.phase.looping) (noted : Noted) {topics : List String}
    {interval : Ticker} (htopics : topics = topicsAfter (c.log ++ [noted]))
    (hshown : ∀ shown, noted = .update shown → (shown = true ↔ Wished "overview" c.log))
    (hupdate : Ticker.Ticked c.begun nanosPerSec ((c.log ++ [noted]).countP Noted.isUpdate) now interval) :
    Kept config now { c.note noted with subscribedTopics := topics, updateInterval := interval } where
  fresh hp := by
    rcases hp with hp | hp
    · rw [show c.phase = .upgraded from hp] at hloop
      cases hloop
    · rw [show c.phase = .greeting from hp] at hloop
      cases hloop
  shown front shown back heq := by
    rcases List.eq_nil_or_concat back with rfl | ⟨back, last, rfl⟩
    · obtain ⟨hfront, hlast⟩ := List.append_inj' heq rfl
      cases hlast
      rw [← hfront]
      exact hshown shown rfl
    · rw [List.concat_eq_append, ← List.cons_append, ← List.append_assoc] at heq
      obtain ⟨hfront, -⟩ := List.append_inj' heq rfl
      exact h.shown front shown back hfront
  topics _ := htopics
  update _ := hupdate
  heartbeat := h.heartbeat
  begun := h.begun
  sign := h.sign
  signs := h.signs
  beats := h.beats
  timedOut := h.timedOut

theorem looping_waiting (hphase : c.phase = .waiting) : c.phase.looping := by
  rw [hphase]
  rfl

theorem countP_message (log : List Noted) (m : ClientMessage) :
    (log ++ [Noted.message m]).countP Noted.isUpdate = log.countP Noted.isUpdate := by
  rw [List.countP_append]
  rfl

theorem Kept.message (h : Kept config now c) (hloop : c.phase.looping) (m : ClientMessage) {topics : List String}
    (htopics : topics = topicsAfter (c.log ++ [.message m])) :
    Kept config now { c.note (.message m) with subscribedTopics := topics } := by
  refine h.note hloop (.message m) htopics ?_ (?_ : Ticker.Ticked _ _ _ _ c.updateInterval)
  · intro shown hm
    cases hm
  · rw [countP_message]
    exact h.update hloop

theorem Kept.receive (h : Kept config now c) (hphase : c.phase = .waiting) (incoming : Incoming) :
    Kept config now (c.receive now incoming) := by
  have hloop := looping_waiting hphase
  cases incoming with
  | text message =>
    cases message with
    | none => exact h.loop hloop rfl
    | some m =>
      cases m with
      | subscribe topics =>
        apply h.message hloop (.subscribe topics)
        rw [topicsAfter_append, h.topics hloop]
      | unsubscribe topics =>
        apply h.message hloop (.unsubscribe topics)
        rw [topicsAfter_append, h.topics hloop]
      | ping =>
        have hnoted : Kept config now (c.note (.message .ping)) := by
          apply h.message hloop .ping
          rw [topicsAfter_append, h.topics hloop]
        exact (hnoted.alive hloop).loop hloop rfl
  | ping => exact h.loop hloop rfl
  | pong => exact h.alive hloop
  | other => exact h
  | close | error | ended => exact h.leave fun hreason => by cases hreason

theorem Kept.update_tick (h : Kept config now c) (hphase : c.phase = .waiting) (hdue : c.updateInterval.Due now) :
    Kept config now c.update := by
  have hloop := looping_waiting hphase
  have htick : ∀ shown, Ticker.Ticked c.begun nanosPerSec
      ((c.log ++ [Noted.update shown]).countP Noted.isUpdate) now c.updateInterval.tick := by
    intro shown
    rw [List.countP_append]
    exact (h.update hloop).tick hdue
  have hwished : "overview" ∈ c.subscribedTopics ↔ Wished "overview" c.log := by
    rw [h.topics hloop, mem_topicsAfter]
  rw [Connection.update]
  by_cases hmem : "overview" ∈ c.subscribedTopics
  · have hnoted := h.note hloop (.update true)
      (show c.subscribedTopics = topicsAfter _ by rw [topicsAfter_append, h.topics hloop])
      (fun shown heq => by cases heq; exact iff_of_true rfl (hwished.mp hmem)) (htick true)
    have hkept := hnoted.loop hloop (p := .sending .metrics) rfl
    simp only [hmem, if_true]
    exact hkept
  · have hnoted := h.note hloop (.update false)
      (show c.subscribedTopics = topicsAfter _ by rw [topicsAfter_append, h.topics hloop])
      (fun shown heq => by cases heq; exact iff_of_false Bool.false_ne_true fun hw => hmem (hwished.mpr hw)) (htick false)
    simp only [hmem, if_false]
    exact hnoted

/-- A heartbeat that finds the last sign of life too old closes the connection, and any other one is noted. -/
theorem Kept.heartbeat_tick (h : Kept config now c) (hphase : c.phase = .waiting)
    (hdue : c.heartbeatInterval.Due now) : Kept config now (c.heartbeat config now) := by
  have hloop := looping_waiting hphase
  have htick := (h.heartbeat hloop).tick hdue
  rw [Connection.heartbeat]
  by_cases hsilent : now - c.lastPong > config.timeoutSecs * nanosPerSec
  · rw [if_pos hsilent]
    have hleft : Kept config now (c.leave now .timedOut) := h.leave fun _ => by
      have hle := (h.begun hloop).2
      show c.lastPong + config.timeoutSecs * nanosPerSec < now
      omega
    exact { hleft with heartbeat := fun hp => (by cases hp), beats := fun _ _ hp => (by cases hp) }
  · rw [if_neg hsilent]
    constructor
    · rintro (hp | hp) <;> cases hp
    · exact h.shown
    · exact fun _ => h.topics hloop
    · exact fun _ => h.update hloop
    · intro _
      show Ticker.Ticked _ _ (c.beats ++ [now]).length _ _
      rw [List.length_append]
      exact htick
    · exact fun _ => h.begun hloop
    · exact fun _ => h.sign hloop
    · exact h.signs
    · intro beat hbeat _
      have hlast : beat = now := by
        have hlast : (c.beats ++ [now]).getLast? = some beat := hbeat
        rw [List.getLast?_append_of_ne_nil _ (List.cons_ne_nil _ _)] at hlast
        exact (Option.some.inj hlast).symm
      have hnext : c.heartbeatInterval.next ≤ now := hdue
      have hevery := (h.heartbeat hloop).every
      subst hlast
      constructor
      · show c.heartbeatInterval.next + c.heartbeatInterval.period ≤ _
        omega
      · show _ ≤ c.lastPong + config.timeoutSecs * nanosPerSec
        omega
    · intro time htime
      cases htime

theorem Kept.beginLoop (h : Kept config now c) (hphase : c.phase = .greeting) :
    Kept config now (c.beginLoop config now) := by
  obtain ⟨hlog, hbeats⟩ := h.fresh (.inr hphase)
  constructor
  · rintro (hp | hp) <;> cases hp
  · exact h.shown
  · intro _
    show ["overview"] = topicsAfter c.log
    rw [hlog]
    rfl
  · intro _
    show Ticker.Ticked _ _ (c.log.countP Noted.isUpdate) _ _
    rw [hlog]
    exact Ticker.ticked_start now nanosPerSec
  · intro _
    show Ticker.Ticked _ _ c.beats.length _ _
    rw [hbeats]
    exact Ticker.ticked_start now config.heartbeat
  · exact fun _ => ⟨Nat.le_refl _, Nat.le_refl _⟩
  · exact fun _ => List.mem_cons_self
  · intro sign hsign
    exact Nat.le_of_eq (List.mem_singleton.mp hsign)
  · intro beat hbeat _
    have hnone : c.beats.getLast? = some beat := hbeat
    rw [hbeats] at hnone
    cases hnone
  · intro time htime
    cases htime

theorem Kept.sent (h : Kept config now c) {message : Outgoing} (hphase : c.phase = .sending message) (ok : Bool) :
    Kept config now (c.sent now ok message) := by
  have hloop : c.phase.looping := by
    rw [hphase]
    rfl
  have hfailed : Kept config now (c.leave now .failed) := h.leave fun hreason => by cases hreason
  have hwaiting : Kept config now { c with phase := .waiting } := h.loop hloop rfl
  cases message with
  | answer => exact hwaiting
  | pong =>
    cases ok with
    | true => exact (h.alive hloop).loop hloop rfl
    | false => exact hfailed
  | metrics | ping =>
    cases ok with
    | true => exact hwaiting
    | false => exact hfailed

theorem Kept.serves (h : Kept config now c) (hserves : Serves config now c c') : Kept config now c' := by
  cases hserves with
  | receive incoming hphase => exact h.receive hphase incoming
  | update hphase hdue => exact h.update_tick hphase hdue
  | heartbeat hphase hdue => exact h.heartbeat_tick hphase hdue
  | greeted hphase => exact h.beginLoop hphase
  | ungreeted hphase => exact h.leave fun hreason => by cases hreason
  | sent message ok hphase => exact h.sent hphase ok

theorem Serves.counted (h : Serves config now c c') : c.phase.counted = true ∧ c'.phase.counted = true := by
  cases h with
  | receive incoming hphase =>
    refine ⟨by rw [hphase]; rfl, ?_⟩
    cases incoming with
    | text message =>
      cases message with
      | none => rfl
      | some m =>
        cases m with
        | subscribe | unsubscribe =>
          show c.phase.counted = true
          rw [hphase]
          rfl
        | ping => rfl
    | ping => rfl
    | pong | other =>
      show c.phase.counted = true
      rw [hphase]
      rfl
    | close | error | ended => rfl
  | update hphase hdue =>
    refine ⟨by rw [hphase]; rfl, ?_⟩
    rw [Connection.update]
    split
    · rfl
    · show c.phase.counted = true
      rw [hphase]
      rfl
  | heartbeat hphase hdue =>
    refine ⟨by rw [hphase]; rfl, ?_⟩
    rw [Connection.heartbeat]
    split <;> rfl
  | greeted hphase | ungreeted hphase => exact ⟨by rw [hphase]; rfl, rfl⟩
  | sent message ok hphase =>
    refine ⟨by rw [hphase]; rfl, ?_⟩
    cases message <;> cases ok <;> rfl

/-! ### The system -/

inductive Moves (s s' : System) : Prop
  | elapse (duration : Nat) (heq : s' = { s with now := s.now + duration })
  | upgrade (heq : s' = { s with connections := s.connections ++ [.new] })
  | enter (i : Nat) (c : Connection) (hc : s.connections[i]? = some c) (hphase : c.phase = .upgraded)
      (heq : s' = { s.setConnection i { c with phase := .greeting } with wsConnections := s.wsConnections + 1 })
  | exit (i : Nat) (c : Connection) (time : Nat) (reason : Reason) (hc : s.connections[i]? = some c)
      (hphase : c.phase = .leaving time reason)
      (heq : s' = { s.setConnection i { c with phase := .closed time reason } with
        wsConnections := s.wsConnections - 1 })
  | serve (i : Nat) (c c' : Connection) (hc : s.connections[i]? = some c) (hserves : Serves s.config s.now c c')
      (heq : s' = s.setConnection i c')

theorem moves_of_step (hstep : machine.step s e = some s') : Moves s s' := by
  cases e with
  | elapse duration => exact .elapse duration (Option.some.inj hstep).symm
  | upgrade => exact .upgrade (Option.some.inj hstep).symm
  | count i =>
    obtain ⟨c, hc, hcount⟩ := Option.bind_eq_some_iff.mp hstep
    split at hcount
    · rename_i hphase
      exact .enter i c hc hphase (Option.some.inj hcount).symm
    · rename_i time reason hphase
      exact .exit i c time reason hc hphase (Option.some.inj hcount).symm
    · cases hcount
  | receive i incoming =>
    obtain ⟨c, hc, hreceive⟩ := Option.bind_eq_some_iff.mp hstep
    obtain ⟨hphase, heq⟩ := Option.ite_none_right_eq_some.mp hreceive
    exact .serve i c _ hc (.receive incoming hphase) (Option.some.inj heq).symm
  | update i =>
    obtain ⟨c, hc, hupdate⟩ := Option.bind_eq_some_iff.mp hstep
    obtain ⟨⟨hphase, hdue⟩, heq⟩ := Option.ite_none_right_eq_some.mp hupdate
    exact .serve i c _ hc (.update hphase hdue) (Option.some.inj heq).symm
  | heartbeat i =>
    obtain ⟨c, hc, hheartbeat⟩ := Option.bind_eq_some_iff.mp hstep
    obtain ⟨⟨hphase, hdue⟩, heq⟩ := Option.ite_none_right_eq_some.mp hheartbeat
    exact .serve i c _ hc (.heartbeat hphase hdue) (Option.some.inj heq).symm
  | sent i ok =>
    obtain ⟨c, hc, hsent⟩ := Option.bind_eq_some_iff.mp hstep
    split at hsent
    · rename_i hphase
      cases ok with
      | true => exact .serve i c _ hc (.greeted hphase) (Option.some.inj hsent).symm
      | false => exact .serve i c _ hc (.ungreeted hphase) (Option.some.inj hsent).symm
    · rename_i message hphase
      exact .serve i c _ hc (.sent message ok hphase) (Option.some.inj hsent).symm
    · cases hsent

/-- Each connection is kept, and the counter is the number of those that are in it. -/
structure Sound (config : Config) (s : System) : Prop where
  same : s.config = config
  kept : ∀ c ∈ s.connections, Kept config s.now c
  counted : s.wsConnections = s.connections.countP fun c => c.phase.counted

theorem sound_new (config : Config) : Sound config (.new config) where
  same := rfl
  kept c hc := by cases hc
  counted := rfl

theorem Sound.set (h : Sound config s) (hc : s.connections[i]? = some c) (hkept : Kept config s.now c') {n : Nat}
    (hn : n + c.phase.counted.toNat = s.wsConnections + c'.phase.counted.toNat) :
    Sound config { s.setConnection i c' with wsConnections := n } where
  same := h.same
  kept a ha := by
    rcases List.mem_or_eq_of_mem_set ha with ha | rfl
    · exact h.kept a ha
    · exact hkept
  counted := by
    have hplace := Slots.countP_replace hc (some c') fun c => c.phase.counted
    rw [Option.any_some] at hplace
    have hcounted := h.counted
    show n = (Slots.replace s.connections i (some c')).countP _
    omega

theorem Sound.step (h : Sound config s) (hstep : machine.step s e = some s') : Sound config s' := by
  cases moves_of_step hstep with
  | elapse duration heq =>
    subst heq
    exact ⟨h.same, fun c hc => (h.kept c hc).later (Nat.le_add_right _ _), h.counted⟩
  | upgrade heq =>
    subst heq
    refine ⟨h.same, fun c hc => ?_, ?_⟩
    · rcases List.mem_append.mp hc with hc | hc
      · exact h.kept c hc
      · rw [List.mem_singleton.mp hc]
        exact kept_new config s.now
    · show s.wsConnections = (s.connections ++ [Connection.new]).countP _
      rw [List.countP_append, h.counted]
      rfl
  | enter i c hc hphase heq =>
    subst heq
    have hkept := h.kept c (List.mem_of_getElem? hc)
    apply h.set hc
    · exact hkept.phase .greeting (fun hp => by cases hp) (fun _ => hkept.fresh (.inl hphase)) fun _ ht => by cases ht
    · rw [hphase]
      rfl
  | exit i c time reason hc hphase heq =>
    subst heq
    have hkept := h.kept c (List.mem_of_getElem? hc)
    have hcounted : c.phase.counted = true := by
      rw [hphase]
      rfl
    have hpos : 0 < s.wsConnections := by
      rw [h.counted]
      exact List.countP_pos_iff.mpr ⟨c, List.mem_of_getElem? hc, hcounted⟩
    apply h.set hc
    · apply hkept.phase (.closed time reason) (fun hp => by cases hp)
      · rintro (hp | hp) <;> cases hp
      · intro t ht
        apply hkept.timedOut t
        rw [hphase]
        cases reason with
        | timedOut => exact ht
        | client | failed => cases ht
    · rw [hcounted]
      show s.wsConnections - 1 + 1 = s.wsConnections + 0
      omega
  | serve i c c' hc hserves heq =>
    subst heq
    rw [h.same] at hserves
    obtain ⟨hcounted, hcounted'⟩ := hserves.counted
    apply h.set hc ((h.kept c (List.mem_of_getElem? hc)).serves hserves)
    rw [hcounted, hcounted']

theorem sound_of_run (hrun : machine.run (.new config) es = some s) : Sound config s :=
  Machine.run_invariant (fun _ _ _ hI hstep => hI.step hstep) (sound_new config) hrun

theorem nanosPerSec_pos : 0 < nanosPerSec := by
  rw [nanosPerSec]
  omega

/-- A connection is closed for silence only when every sign of life is longer ago than the timeout. While it is served and no heartbeat is due, there was a sign of life less than the timeout and a heartbeat ago. And the counter is the number of connections that were greeted and are not closed. -/
theorem silence_of_run (hheartbeat : 0 < config.heartbeatSecs) (hrun : machine.run (.new config) es = some s) :
    (∀ c ∈ s.connections, ∀ time, c.phase.timedOut = some time → ∀ sign ∈ c.signs, sign + config.timeout < time) ∧
    (∀ c ∈ s.connections, c.phase.looping → ¬c.heartbeatInterval.Due s.now →
      ∃ sign ∈ c.signs, s.now < sign + config.timeout + config.heartbeat) ∧
    s.wsConnections = s.connections.countP fun c => c.phase.counted := by
  have h := sound_of_run hrun
  refine ⟨fun c hc time htime sign hsign => ?_, fun c hc hloop hdue => ?_, h.counted⟩
  · have hkept := h.kept c hc
    exact Nat.lt_of_le_of_lt (Nat.add_le_add_right (hkept.signs sign hsign) _) (hkept.timedOut time htime)
  · have hkept := h.kept c hc
    have hpositive : 0 < config.heartbeat := by
      rw [Config.heartbeat]
      exact Nat.mul_pos hheartbeat nanosPerSec_pos
    have hbegun := hkept.begun hloop
    have hticks := (hkept.heartbeat hloop).eq hpositive (Nat.le_trans hbegun.1 hbegun.2) hdue
    -- The first heartbeat is due when the loop begins, so there was one.
    cases hlast : c.beats.getLast? with
    | none =>
      rw [List.getLast?_eq_none_iff.mp hlast, List.length_nil] at hticks
      exact absurd hticks.symm (Nat.succ_ne_zero _)
    | some beat =>
      obtain ⟨hnext, hbeat⟩ := hkept.beats beat hlast hloop
      have hlater : s.now < c.heartbeatInterval.next := Nat.lt_of_not_le hdue
      refine ⟨c.lastPong, hkept.sign hloop, ?_⟩
      omega

/-- The second heartbeat comes 61 seconds after the greeting, and nothing was heard of the client. -/
theorem silence_of_run_silent :
    ∃ s c, machine.run (.new ⟨30, 60⟩) [.upgrade, .count 0, .sent 0 true, .heartbeat 0, .sent 0 true,
      .elapse 61000000000, .heartbeat 0] = some s ∧ s.connections = [c] ∧ c.phase.timedOut = some 61000000000 ∧
      (∀ sign ∈ c.signs, sign + 60000000000 < 61000000000) ∧ s.wsConnections = 1 := by
  obtain ⟨s, c, hrun, hconnections, htimedOut⟩ : ∃ s c, machine.run (.new ⟨30, 60⟩) [.upgrade, .count 0, .sent 0 true,
      .heartbeat 0, .sent 0 true, .elapse 61000000000, .heartbeat 0] = some s ∧ s.connections = [c] ∧
      c.phase = .leaving 61000000000 .timedOut := ⟨_, _, rfl, rfl, rfl⟩
  have htime : c.phase.timedOut = some 61000000000 := by
    rw [htimedOut]
    rfl
  have hmem : c ∈ s.connections := by
    rw [hconnections]
    exact List.mem_singleton_self c
  obtain ⟨hclosed, -, hcounted⟩ := silence_of_run (by decide) hrun
  refine ⟨s, c, hrun, hconnections, htime, hclosed c hmem _ htime, ?_⟩
  rw [hcounted, hconnections, List.countP_singleton, htimedOut]
  rfl

/-- An update is due once a second, and is sent exactly if the client has last wished for the overview. -/
theorem updates_of_run (hrun : machine.run (.new config) es = some s) (c : Connection) (hc : c ∈ s.connections) :
    (∀ front shown back, c.log = front ++ .update shown :: back → (shown = true ↔ Wished "overview" front)) ∧
    (c.phase.looping → c.log.countP Noted.isUpdate ≤ (s.now - c.begun) / nanosPerSec + 1 ∧
      (¬c.updateInterval.Due s.now → c.log.countP Noted.isUpdate = (s.now - c.begun) / nanosPerSec + 1)) := by
  have hkept := (sound_of_run hrun).kept c hc
  refine ⟨hkept.shown, fun hloop => ?_⟩
  have hbegun := hkept.begun hloop
  have hticked := hkept.update hloop
  have hle := Nat.le_trans hbegun.1 hbegun.2
  exact ⟨hticked.le nanosPerSec_pos hle, hticked.eq nanosPerSec_pos hle⟩

/-- The first update is sent; the client does not want more, and the second one is not. -/
theorem updates_of_run_unsubscribed :
    ∃ s c, machine.run (.new ⟨30, 60⟩) [.upgrade, .count 0, .sent 0 true, .update 0, .sent 0 true,
      .receive 0 (.text (some (.unsubscribe ["overview"]))), .elapse 1000000000, .update 0] = some s ∧
      c ∈ s.connections ∧ c.log = [.update true, .message (.unsubscribe ["overview"]), .update false] ∧
      Wished "overview" [] ∧ ¬Wished "overview" [.update true, .message (.unsubscribe ["overview"])] := by
  obtain ⟨s, c, hrun, hmem, hlog⟩ : ∃ s c, machine.run (.new ⟨30, 60⟩) [.upgrade, .count 0, .sent 0 true, .update 0,
      .sent 0 true, .receive 0 (.text (some (.unsubscribe ["overview"]))), .elapse 1000000000, .update 0] = some s ∧
      c ∈ s.connections ∧ c.log = [.update true, .message (.unsubscribe ["overview"]), .update false] :=
    ⟨_, _, rfl, List.mem_cons_self, rfl⟩
  obtain ⟨hshown, -⟩ := updates_of_run hrun c hmem
  have hfirst := (hshown [] true [.message (.unsubscribe ["overview"]), .update false] hlog).mp rfl
  have hsecond := (hshown [.update true, .message (.unsubscribe ["overview"])] false [] hlog).not.mp Bool.false_ne_true
  exact ⟨s, c, hrun, hmem, hlog, hfirst, hsecond⟩

end WebSocket

end Lazydns
