import Lazydns.Lib.Spaced
import Lazydns.Plugin.CronRules
import Mathlib.Order.Bounds.Basic

/-!
# When cron jobs trigger

No job spins: its rounds are ten milliseconds apart, whatever ends them, and the triggers of an interval are as far apart as it says. The wait for an occurrence is cut off to whole milliseconds. So a trigger may come up to a millisecond early, and then the same occurrence is found once more; but there is no third trigger for it.
-/

namespace Lazydns

namespace CronPlugin

variable {s s' : System} {e : Event}

/-! ### Rounds and triggers -/

namespace Job

def times (job : Job) : List Nat := job.triggers.map Trigger.time

/-- The last round is over for long enough when the loop begins again. -/
def Rested (now : Nat) (job : Job) : Prop :=
  ∀ round, job.rounds.getLast? = some round →
    match job.phase with
    | .looping | .found _ => round + minDelay ≤ now
    | .selecting start _ _ | .selected start => round = start ∧ start ≤ now
    | .pausing wake => round + minDelay ≤ wake
    | .ended => True

/-- How the rounds and the triggers of a job follow each other. -/
structure Paced (now : Nat) (job : Job) : Prop where
  rounds : Spaced minDelay job.rounds
  rested : job.Rested now
  past : ∀ time ∈ job.times, time ≤ now
  triggers : ∀ seconds, job.schedule = .interval seconds → Spaced (seconds * nanosPerSec) job.times
  waits : ∀ seconds, job.schedule = .interval seconds → ∀ start wake occurrence,
    job.phase = .selecting start wake occurrence → ∀ time ∈ job.times, time + seconds * nanosPerSec ≤ wake
  counted : job.triggers.length + job.phase.pending ≤ job.rounds.length

variable {e : Surroundings} {job job' : Job} {now now' start : Nat} {occurrence : Option Occurrence} {branch : Branch}

theorem Paced.later (h : job.Paced now) (hnow : now ≤ now') : job.Paced now' := by
  refine ⟨h.rounds, fun round hround => ?_, fun time hmem => Nat.le_trans (h.past time hmem) hnow, h.triggers,
    h.waits, h.counted⟩
  have hrested := h.rested round hround
  split <;> rename_i hphase <;> simp only [hphase] at hrested <;> omega

theorem times_win : (job.win e start occurrence branch).times =
    if branch = .sleep then job.times ++ [e.now] else job.times := by
  rw [times, win_triggers]
  split
  · exact List.map_append
  · rfl

theorem paced_win (hrounds : Spaced minDelay job.rounds) (hlast : job.rounds.getLast? = some start)
    (hstart : start ≤ e.now) (hpast : ∀ time ∈ job.times, time ≤ e.now)
    (htriggers : ∀ seconds, job.schedule = .interval seconds → Spaced (seconds * nanosPerSec) job.times)
    (hsleep : branch = .sleep → ∀ seconds, job.schedule = .interval seconds →
      ∀ time ∈ job.times, time + seconds * nanosPerSec ≤ e.now)
    (hcounted : job.triggers.length + 1 ≤ job.rounds.length) :
    (job.win e start occurrence branch).Paced e.now := by
  have hphase := win_phase e job start occurrence branch
  refine ⟨?_, ?_, ?_, ?_, ?_, ?_⟩
  · rw [win_rounds]
    exact hrounds
  · intro round hround
    rw [win_rounds, hlast] at hround
    cases hround
    obtain hphase | hphase := hphase
    · rw [hphase]
      exact ⟨rfl, hstart⟩
    · rw [hphase.1]
      trivial
  · intro time hmem
    rw [times_win] at hmem
    split at hmem
    · obtain hold | hnew := List.mem_append.mp hmem
      · exact hpast time hold
      · rw [List.mem_singleton.mp hnew]
    · exact hpast time hmem
  · intro seconds hschedule
    rw [win_schedule] at hschedule
    rw [times_win]
    split
    · rename_i hbranch
      exact (htriggers seconds hschedule).append fun time hgot =>
        hsleep hbranch seconds hschedule time (List.mem_of_getLast? hgot)
    · exact htriggers seconds hschedule
  · intro seconds _ start' wake occurrence' hselecting
    obtain hphase | hphase := hphase
    · rw [hphase] at hselecting
      cases hselecting
    · rw [hphase.1] at hselecting
      cases hselecting
  · rw [win_rounds, win_triggers, win_pending]
    split
    · rw [List.length_append]
      exact hcounted
    · exact Nat.le_trans (Nat.le_succ _) hcounted

theorem Paced.opened (h : job.Paced e.now) {delay : Nat} (hnext : job.next e = some (delay, occurrence)) :
    Spaced minDelay (job.rounds ++ [e.now]) ∧ job.triggers.length + 1 ≤ (job.rounds ++ [e.now]).length ∧
      ∀ seconds, job.schedule = .interval seconds → ∀ time ∈ job.times, time + seconds * nanosPerSec ≤ e.now + delay := by
  have hidle : job.phase = .looping ∨ ∃ found, job.phase = .found found := by
    obtain ⟨hphase, -⟩ | ⟨found, findNext, hphase, -⟩ := next_cases hnext
    · exact .inl hphase
    · exact .inr ⟨found, hphase⟩
  refine ⟨h.rounds.append fun round hround => ?_, ?_, ?_⟩
  · have hrested := h.rested round hround
    obtain hphase | ⟨found, hphase⟩ := hidle
    · simpa only [hphase] using hrested
    · simpa only [hphase] using hrested
  · have hcounted := h.counted
    rw [List.length_append]
    exact Nat.succ_le_succ (Nat.le_trans (Nat.le_add_right _ _) hcounted)
  · intro seconds hschedule time hmem
    have hpast := h.past time hmem
    obtain ⟨-, -, seconds', hschedule', rfl⟩ | ⟨found, findNext, -, -, hschedule', -⟩ := next_cases hnext
    · rw [hschedule] at hschedule'
      cases hschedule'
      exact Nat.add_le_add_right hpast _
    · rw [hschedule] at hschedule'
      cases hschedule'

theorem Paced.setPhase (h : job.Paced now) {phase : Phase} (hpending : phase.pending = 0)
    (hrested : ({ job with phase } : Job).Rested now) : ({ job with phase } : Job).Paced now := by
  refine ⟨h.rounds, hrested, h.past, h.triggers, fun _ _ start wake occurrence heq => ?_, ?_⟩
  · rw [show phase = .selecting start wake occurrence from heq] at hpending
    cases hpending
  · show job.triggers.length + phase.pending ≤ job.rounds.length
    have hcounted := h.counted
    omega

theorem Paced.moves (h : job.Paced e.now) (hmoves : job.Moves e job') : job'.Paced e.now := by
  cases hmoves with
  | @wait delay occurrence hnext hnone =>
    obtain ⟨hrounds, hcounted, hwaits⟩ := h.opened hnext
    refine ⟨hrounds, fun round hround => ?_, h.past, h.triggers, fun seconds hschedule start wake occurrence heq => ?_,
      hcounted⟩
    · rw [List.getLast?_concat] at hround
      cases hround
      exact ⟨rfl, Nat.le_refl _⟩
    · cases heq
      exact hwaits seconds hschedule
  | @start delay occurrence branch hnext hready =>
    obtain ⟨hrounds, hcounted, hwaits⟩ := h.opened hnext
    refine paced_win hrounds List.getLast?_concat (Nat.le_refl _) h.past h.triggers ?_ hcounted
    rintro rfl seconds hschedule time hmem
    have hdelay : e.now + delay ≤ e.now := of_decide_eq_true hready
    exact Nat.le_trans (hwaits seconds hschedule time hmem) hdelay
  | @finish start wake occurrence branch hphase hready =>
    have hcounted := h.counted
    rw [hphase] at hcounted
    have hne : job.rounds ≠ [] := by
      rintro heq
      rw [heq] at hcounted
      exact absurd hcounted (Nat.not_succ_le_zero _)
    obtain ⟨round, hround⟩ : ∃ round, job.rounds.getLast? = some round :=
      ⟨_, List.getLast?_eq_some_getLast hne⟩
    have hrested := h.rested round hround
    rw [hphase] at hrested
    obtain ⟨rfl, hstart⟩ := hrested
    refine paced_win h.rounds hround hstart h.past h.triggers ?_ hcounted
    rintro rfl seconds hschedule time hmem
    have hwake : wake ≤ e.now := of_decide_eq_true hready
    exact Nat.le_trans (h.waits seconds hschedule _ wake occurrence hphase time hmem) hwake
  | find hphase =>
    refine h.setPhase rfl fun round hround => ?_
    have hrested := h.rested round hround
    rw [hphase] at hrested
    exact hrested
  | give => exact h.setPhase rfl fun _ _ => trivial
  | @pause start hphase =>
    refine h.setPhase rfl fun round hround => ?_
    have hrested := h.rested round hround
    rw [hphase] at hrested
    exact Nat.add_le_add_right (hrested.1 ▸ hrested.2) minDelay
  | loop hphase =>
    refine h.setPhase rfl fun round hround => ?_
    have hrested := h.rested round hround
    show round + minDelay ≤ e.now
    obtain ⟨start, hphase, hover⟩ | ⟨wake, hphase, hover⟩ := hphase
    · rw [hphase] at hrested
      rw [hrested.1]
      exact hover
    · rw [hphase] at hrested
      exact Nat.le_trans hrested hover

theorem paced_new (schedule : ScheduleDef) (now : Nat) : (Job.new schedule).Paced now := by
  refine ⟨Spaced.nil, ?_, ?_, fun _ _ => Spaced.nil, ?_, Nat.le_refl 0⟩
  · intro round hround
    cases hround
  · exact fun time hmem => absurd hmem List.not_mem_nil
  · intro seconds hschedule start wake occurrence hphase
    cases hphase

end Job

variable {schedules : List ScheduleDef} {es : List Event}

theorem paced_of_run (hrun : machine.run (.new schedules) es = some s) : ∀ job ∈ s.jobs, job.Paced s.now := by
  apply Machine.run_invariant (I := fun s : System => ∀ job ∈ s.jobs, job.Paced s.now) _ _ hrun
  · intro s e s' h hstep
    have hmoves := moves_of_step hstep
    exact forall_jobs_of_moves (P := fun e job => job.Paced e.now) (fun e job job' hjob => hjob.moves)
      (fun job hjob _ => hjob.later (now_le_of_moves hmoves)) h hmoves
  · intro job hmem
    obtain ⟨schedule, -, rfl⟩ := List.mem_map.mp hmem
    exact Job.paced_new schedule 0

/-- In every run the rounds of each job are ten milliseconds apart, whatever ends them, and each triggers at most once. The triggers of an interval are the interval apart, so in a stretch of time there are only so many. -/
theorem triggers_of_run (hrun : machine.run (.new schedules) es = some s) :
    ∀ job ∈ s.jobs, Spaced minDelay job.rounds ∧ job.triggers.length ≤ job.rounds.length ∧
      ∀ seconds, job.schedule = .interval seconds → Spaced (seconds * nanosPerSec) job.times ∧
        ∀ start duration,
          job.times.countP (fun time => start ≤ time ∧ time < start + duration) = 0 ∨
            (job.times.countP (fun time => start ≤ time ∧ time < start + duration) - 1) * (seconds * nanosPerSec) <
              duration := by
  intro job hmem
  have hpaced := paced_of_run hrun job hmem
  refine ⟨hpaced.rounds, Nat.le_trans (Nat.le_add_right _ _) hpaced.counted, fun seconds hschedule => ?_⟩
  exact ⟨hpaced.triggers seconds hschedule, (hpaced.triggers seconds hschedule).countP_le⟩

def secondRun : List Event :=
  [.enter 0 none, .elapse 1000000000, .resolve 0 .sleep, .advance 0, .enter 0 none, .elapse 1200000000, .resolve 0 .sleep]

theorem triggers_of_run_second :
    ∃ s, machine.run (.new [.interval 1]) secondRun = some s ∧
      (s.jobs.map Job.times = [[1000000000, 2200000000]]) ∧
      ∀ job ∈ s.jobs, Spaced minDelay job.rounds ∧ job.triggers.length ≤ job.rounds.length := by
  obtain ⟨s, hrun, htimes⟩ : ∃ s, machine.run (.new [.interval 1]) secondRun = some s ∧
      s.jobs.map Job.times = [[1000000000, 2200000000]] := ⟨_, rfl, rfl⟩
  exact ⟨s, hrun, htimes, fun job hmem => ⟨(triggers_of_run hrun job hmem).1, (triggers_of_run hrun job hmem).2.1⟩⟩

/-! ### Occurrences -/

/-- What the crontab says: the first occurrence after a time. -/
def FindsNext (findNext : Nat → Option Nat) (occurrences : Set Nat) : Prop :=
  ∀ time next, findNext time = some next → IsLeast {x ∈ occurrences | time < x} next

variable {findNext : Nat → Option Nat} {occurrences : Set Nat} {next since time : Nat}

theorem lt_of_delayUntil (h : since + delayUntil next since ≤ time) : next < time + nanosPerMilli := by
  rw [delayUntil, minDelay, nanosPerMilli] at *
  split at h <;> omega

/-- A wait that begins less than a millisecond before the occurrence ends after it. -/
theorem lt_of_delayUntil_late (h : since + delayUntil next since ≤ time) (hlate : next < since + nanosPerMilli) :
    next < time := by
  rw [delayUntil, minDelay, nanosPerMilli] at *
  split at h <;> omega

/-- The occurrence is the first one after the clock was read. -/
def Occurrence.First (occurrences : Set Nat) (o : Occurrence) : Prop := IsLeast {x ∈ occurrences | o.read < x} o.next

/-- A wait for the occurrence, from when the clock was read again until `wake`. -/
def Occurrence.Awaited (o : Occurrence) (wake : Nat) : Prop :=
  ∃ since, o.read ≤ since ∧ since + delayUntil o.next since ≤ wake

theorem Occurrence.Awaited.mono {o : Occurrence} {wake wake' : Nat} (h : o.Awaited wake) (hle : wake ≤ wake') :
    o.Awaited wake' := by
  obtain ⟨since, hread, hwait⟩ := h
  exact ⟨since, hread, Nat.le_trans hwait hle⟩

/-- A trigger for an occurrence. -/
def Trigger.For (occurrences : Set Nat) (t : Trigger) (o : Occurrence) : Prop :=
  t.occurrence = some o ∧ o.First occurrences ∧ o.Awaited t.time

namespace Job

/-- Each trigger of a job is for an occurrence that was looked up after the triggers before it. -/
structure Dated (occurrences : Set Nat) (now : Nat) (job : Job) : Prop where
  triggers : ∀ t ∈ job.triggers, ∃ o, t.For occurrences o
  order : job.triggers.Pairwise fun t t' => ∀ o, t'.occurrence = some o → t.time ≤ o.read
  phase :
    match job.phase with
    | .found o => o.First occurrences ∧ o.read ≤ now ∧ ∀ t ∈ job.triggers, t.time ≤ o.read
    | .selecting _ wake occurrence =>
      ∃ o, occurrence = some o ∧ o.First occurrences ∧ o.Awaited wake ∧ ∀ t ∈ job.triggers, t.time ≤ o.read
    | _ => True

variable {e : Surroundings} {job job' : Job} {start : Nat} {branch : Branch}

theorem Dated.later {now now' : Nat} (h : job.Dated occurrences now) (hnow : now ≤ now') : job.Dated occurrences now' := by
  refine ⟨h.triggers, h.order, ?_⟩
  have hphase := h.phase
  split
  · rename_i hfound
    simp only [hfound] at hphase
    exact ⟨hphase.1, Nat.le_trans hphase.2.1 hnow, hphase.2.2⟩
  · rename_i hselecting
    simpa only [hselecting] using hphase
  · trivial

theorem Dated.setPhase {now : Nat} (h : job.Dated occurrences now) {phase : Phase}
    (hphase : (∀ o, phase ≠ .found o) ∧ ∀ start wake o, phase ≠ .selecting start wake o) :
    ({ job with phase } : Job).Dated occurrences now := by
  refine ⟨h.triggers, h.order, ?_⟩
  split
  · rename_i heq
    exact absurd heq (hphase.1 _)
  · rename_i heq
    exact absurd heq (hphase.2 _ _ _)
  · trivial

theorem Dated.win (job : Job) {now : Nat} (htriggers : ∀ t ∈ job.triggers, ∃ o, t.For occurrences o)
    (horder : job.triggers.Pairwise fun t t' => ∀ o, t'.occurrence = some o → t.time ≤ o.read) {o : Occurrence}
    (hfirst : o.First occurrences) (hawaited : branch = .sleep → o.Awaited e.now)
    (hlater : ∀ t ∈ job.triggers, t.time ≤ o.read) : (job.win e start (some o) branch).Dated occurrences now := by
  have hphase := win_phase e job start (some o) branch
  refine ⟨?_, ?_, ?_⟩
  · intro t hmem
    rw [win_triggers] at hmem
    split at hmem
    · rename_i hbranch
      obtain hold | hnew := List.mem_append.mp hmem
      · exact htriggers t hold
      · rw [List.mem_singleton.mp hnew]
        exact ⟨o, rfl, hfirst, hawaited hbranch⟩
    · exact htriggers t hmem
  · rw [win_triggers]
    split
    · refine List.pairwise_append.mpr ⟨horder, List.pairwise_singleton _ _, fun t hmem t' hmem' o' heq => ?_⟩
      rw [List.mem_singleton.mp hmem'] at heq
      cases heq
      exact hlater t hmem
    · exact horder
  · obtain hphase | hphase := hphase
    · rw [hphase]
      trivial
    · rw [hphase.1]
      trivial

theorem Dated.moves (hfinds : FindsNext findNext occurrences) (h : job.Dated occurrences e.now)
    (hpaced : job.Paced e.now) (hschedule : job.schedule = .cron findNext) (hmoves : job.Moves e job') :
    job'.Dated occurrences e.now := by
  have hfound : ∀ {delay : Nat} {occurrence : Option Occurrence}, job.next e = some (delay, occurrence) →
      ∃ o, occurrence = some o ∧ o.First occurrences ∧ o.Awaited (e.now + delay) ∧
        ∀ t ∈ job.triggers, t.time ≤ o.read := by
    intro delay occurrence hnext
    obtain ⟨-, -, seconds, hinterval, -⟩ | ⟨o, findNext', hphase, rfl, -, rfl⟩ := next_cases hnext
    · rw [hschedule] at hinterval
      cases hinterval
    · have hdated := h.phase
      rw [hphase] at hdated
      obtain ⟨hfirst, hread, hlater⟩ := hdated
      exact ⟨o, rfl, hfirst, ⟨e.now, hread, Nat.le_refl _⟩, hlater⟩
  cases hmoves with
  | wait hnext hnone =>
    obtain ⟨o, rfl, hfirst, hawaited, hlater⟩ := hfound hnext
    exact ⟨h.triggers, h.order, o, rfl, hfirst, hawaited, hlater⟩
  | @start delay occurrence branch hnext hready =>
    obtain ⟨o, rfl, hfirst, hawaited, hlater⟩ := hfound hnext
    refine Dated.win { job with rounds := job.rounds ++ [e.now] } h.triggers h.order hfirst ?_ hlater
    rintro rfl
    exact hawaited.mono (of_decide_eq_true hready)
  | @finish start wake occurrence branch hphase hready =>
    have hdated := h.phase
    rw [hphase] at hdated
    obtain ⟨o, rfl, hfirst, hawaited, hlater⟩ := hdated
    refine Dated.win job h.triggers h.order hfirst ?_ hlater
    rintro rfl
    exact hawaited.mono (of_decide_eq_true hready)
  | @find findNext' next hphase hschedule' hnext =>
    rw [hschedule] at hschedule'
    cases hschedule'
    refine ⟨h.triggers, h.order, hfinds _ _ hnext, Nat.le_refl _, fun t hmem => ?_⟩
    exact hpaced.past t.time (List.mem_map_of_mem hmem)
  | give => exact h.setPhase ⟨by simp, by simp⟩
  | pause => exact h.setPhase ⟨by simp, by simp⟩
  | loop => exact h.setPhase ⟨by simp, by simp⟩

theorem dated_new (schedule : ScheduleDef) (now : Nat) : (Job.new schedule).Dated occurrences now :=
  ⟨fun _ hmem => absurd hmem List.not_mem_nil, List.Pairwise.nil, trivial⟩

end Job

/-- Of two triggers the second is for no earlier occurrence; if it is for the same one, then the first was early, and the second is not. -/
theorem Trigger.For.order {t t' : Trigger} {o o' : Occurrence} (h : t.For occurrences o) (h' : t'.For occurrences o')
    (hlater : t.time ≤ o'.read) : o.next ≤ o'.next ∧ (o.next = o'.next → t.time < o.next ∧ o.next < t'.time) := by
  obtain ⟨-, hfirst, since, hread, hwait⟩ := h
  obtain ⟨-, hfirst', since', hread', hwait'⟩ := h'
  have hafter : o'.read < o'.next := hfirst'.1.2
  constructor
  · have hpositive : since ≤ t.time := Nat.le_trans (Nat.le_add_right _ _) hwait
    have hlt : o.read < o'.next := by omega
    exact hfirst.2 ⟨hfirst'.1.1, hlt⟩
  · intro heq
    have hearly : o.next < t.time + nanosPerMilli := lt_of_delayUntil hwait
    have hlate : o'.next < since' + nanosPerMilli := by omega
    have hover := lt_of_delayUntil_late hwait' hlate
    omega

theorem length_filter_le_two {triggers : List Trigger} (next : Nat)
    (horder : triggers.Pairwise fun t t' => ∀ o o', t.occurrence = some o → t'.occurrence = some o' →
      o.next = o'.next → t.time < o.next ∧ o.next < t'.time) :
    (triggers.filter fun t => t.occurrence.map Occurrence.next = some next).length ≤ 2 := by
  have hkept := horder.filter fun t => t.occurrence.map Occurrence.next = some next
  have hfor : ∀ t ∈ triggers.filter fun t => t.occurrence.map Occurrence.next = some next,
      ∃ o, t.occurrence = some o ∧ o.next = next := by
    intro t hmem
    exact Option.map_eq_some_iff.mp (of_decide_eq_true (List.mem_filter.mp hmem).2)
  generalize triggers.filter (fun t => t.occurrence.map Occurrence.next = some next) = kept at hkept hfor
  match kept, hkept, hfor with
  | [], _, _ => exact Nat.zero_le 2
  | [_], _, _ => exact Nat.le_succ 1
  | [_, _], _, _ => exact Nat.le_refl 2
  | t₁ :: t₂ :: t₃ :: rest, hkept, hfor =>
    obtain ⟨o₁, ho₁, hnext₁⟩ := hfor t₁ (by simp)
    obtain ⟨o₂, ho₂, hnext₂⟩ := hfor t₂ (by simp)
    obtain ⟨o₃, ho₃, hnext₃⟩ := hfor t₃ (by simp)
    obtain ⟨hfirst, hsecond⟩ := List.pairwise_cons.mp hkept
    have h₁₂ := hfirst t₂ (by simp) o₁ o₂ ho₁ ho₂ (by omega)
    have h₂₃ := (List.pairwise_cons.mp hsecond).1 t₃ (by simp) o₂ o₃ ho₂ ho₃ (by omega)
    omega

theorem dated_of_run (hfinds : FindsNext findNext occurrences) (hrun : machine.run (.new schedules) es = some s) :
    ∀ job ∈ s.jobs, job.Paced s.now ∧ (job.schedule = .cron findNext → job.Dated occurrences s.now) := by
  apply Machine.run_invariant (I := fun s : System => ∀ job ∈ s.jobs, job.Paced s.now ∧
    (job.schedule = .cron findNext → job.Dated occurrences s.now)) _ _ hrun
  · intro s e s' h hstep
    have hmoves := moves_of_step hstep
    have hnow := now_le_of_moves hmoves
    refine forall_jobs_of_moves (P := fun e job => job.Paced e.now ∧
      (job.schedule = .cron findNext → job.Dated occurrences e.now)) (fun e job job' hjob hmove => ?_)
      (fun job hjob _ => ⟨hjob.1.later hnow, fun hschedule => (hjob.2 hschedule).later hnow⟩) h hmoves
    refine ⟨hjob.1.moves hmove, fun hschedule => ?_⟩
    rw [hmove.schedule] at hschedule
    exact (hjob.2 hschedule).moves hfinds hjob.1 hschedule hmove
  · intro job hmem
    obtain ⟨schedule, -, rfl⟩ := List.mem_map.mp hmem
    exact ⟨Job.paced_new schedule 0, fun _ => Job.dated_new schedule 0⟩

/-- In every run each trigger of a crontab is for the first occurrence after a time at which the clock was read, and comes less than a millisecond before it, if not after it. The occurrences come in their order, and one comes twice at most: once early and once late. -/
theorem occurrences_of_run (hfinds : FindsNext findNext occurrences)
    (hrun : machine.run (.new schedules) es = some s) :
    ∀ job ∈ s.jobs, job.schedule = .cron findNext →
      (∀ t ∈ job.triggers, ∃ o, t.occurrence = some o ∧ IsLeast {x ∈ occurrences | o.read < x} o.next ∧
        o.next < t.time + nanosPerMilli) ∧
      (job.triggers.Pairwise fun t t' => ∀ o o', t.occurrence = some o → t'.occurrence = some o' →
        o.next ≤ o'.next ∧ (o.next = o'.next → t.time < o.next ∧ o.next < t'.time)) ∧
      ∀ next, (job.triggers.filter fun t => t.occurrence.map Occurrence.next = some next).length ≤ 2 := by
  intro job hmem hschedule
  have hdated := (dated_of_run hfinds hrun job hmem).2 hschedule
  have horder : job.triggers.Pairwise fun t t' => ∀ o o', t.occurrence = some o → t'.occurrence = some o' →
      o.next ≤ o'.next ∧ (o.next = o'.next → t.time < o.next ∧ o.next < t'.time) := by
    refine hdated.order.imp_of_mem fun {t t'} hmem hmem' hlater o o' ho ho' => ?_
    obtain ⟨o₁, hfor⟩ := hdated.triggers t hmem
    obtain ⟨o₂, hfor'⟩ := hdated.triggers t' hmem'
    obtain rfl : o₁ = o := Option.some.inj (hfor.1.symm.trans ho)
    obtain rfl : o₂ = o' := Option.some.inj (hfor'.1.symm.trans ho')
    exact hfor.order hfor' (hlater _ ho')
  refine ⟨fun t hmem => ?_, horder, fun next => length_filter_le_two next ?_⟩
  · obtain ⟨o, hoccurrence, hfirst, since, -, hwait⟩ := hdated.triggers t hmem
    exact ⟨o, hoccurrence, hfirst, lt_of_delayUntil hwait⟩
  · exact horder.imp fun h o o' ho ho' => (h o o' ho ho').2

/-- A crontab for each second, whose job starts 500 nanoseconds after one. -/
def secondly (time : Nat) : Option Nat := some ((time / nanosPerSec + 1) * nanosPerSec)

theorem findsNext_secondly : FindsNext secondly {x | nanosPerSec ∣ x} := by
  intro time next hnext
  cases hnext
  refine ⟨⟨Nat.dvd_mul_left _ _, ?_⟩, ?_⟩
  · rw [nanosPerSec]
    omega
  · rintro x ⟨⟨k, rfl⟩, hlt⟩
    rw [nanosPerSec] at *
    omega

def twiceRun : List Event :=
  [.elapse 500, .advance 0, .enter 0 none, .elapse 999000000, .resolve 0 .sleep, .advance 0, .advance 0,
    .enter 0 none, .elapse 10000000, .resolve 0 .sleep]

/-- The first second is announced half a microsecond early, and once more. -/
theorem occurrences_of_run_twice :
    ∃ s job, machine.run (.new [.cron secondly]) twiceRun = some s ∧ s.jobs = [job] ∧
      job.times = [999000500, 1009000500] ∧
      (job.triggers.filter fun t => t.occurrence.map Occurrence.next = some nanosPerSec).length = 2 ∧
      ∀ t ∈ job.triggers, ∃ o, t.occurrence = some o ∧ o.next < t.time + nanosPerMilli := by
  obtain ⟨s, job, hrun, hjobs, hschedule, htimes, htwice⟩ : ∃ s job,
      machine.run (.new [.cron secondly]) twiceRun = some s ∧ s.jobs = [job] ∧ job.schedule = .cron secondly ∧
        job.times = [999000500, 1009000500] ∧
        (job.triggers.filter fun t => t.occurrence.map Occurrence.next = some nanosPerSec).length = 2 :=
    ⟨_, _, rfl, rfl, rfl, rfl, rfl⟩
  have hmem : job ∈ s.jobs := hjobs ▸ List.mem_singleton_self job
  refine ⟨s, job, hrun, hjobs, htimes, htwice, fun t ht => ?_⟩
  obtain ⟨o, ho, -, hearly⟩ := (occurrences_of_run findsNext_secondly hrun job hmem hschedule).1 t ht
  exact ⟨o, ho, hearly⟩

end CronPlugin

end Lazydns
