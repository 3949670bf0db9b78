import Lazydns.Plugin.Policy

/-!
# The bound on a client's queries

A run of the limiter is a list of requests and of cleanups, each at its time. The requests of one client fall into windows: the first one opens a window, and so does each one that comes at or after the end of the window before it. Of every window the first `max_queries` requests should pass and the others not, whatever other clients send and whenever the cleanup comes. The count of a window is a `u32` that wraps, so this holds of the windows of fewer than `2 ^ 32` requests only.
-/

namespace Lazydns

open Dns

namespace RateLimitPlugin

/-! ### Runs -/

inductive Event where
  | request (client : IpAddr)
  | cleanup
  deriving DecidableEq, Repr

def Event.isRequest : Event → Bool
  | .request _ => true
  | .cleanup => false

/-- The start of the window that a request is counted in, and whether the request is refused. -/
structure Verdict where
  windowStart : Nat
  refused : Bool
  deriving DecidableEq, Repr

def verdict (p : RateLimitPlugin) (now : Nat) (client : IpAddr) : Verdict where
  windowStart := (p.countQuery now (p.limits client)).2.windowStart
  refused := (p.shouldLimit now client).1

/-- The verdicts on the requests of a run, each with its client. -/
def verdicts : RateLimitPlugin → List (Nat × Event) → List (IpAddr × Verdict)
  | _, [] => []
  | p, (now, .request client) :: events =>
    (client, p.verdict now client) :: verdicts (p.shouldLimit now client).2 events
  | p, (now, .cleanup) :: events => verdicts (p.cleanup now) events

def verdictsFor (client : IpAddr) (p : RateLimitPlugin) (events : List (Nat × Event)) : List Verdict :=
  (p.verdicts events).filterMap fun v => if v.1 = client then some v.2 else none

def requestTimes (client : IpAddr) (events : List (Nat × Event)) : List Nat :=
  events.filterMap fun e => if e.2 = .request client then some e.1 else none

/-! ### Windows -/

/-- When a window starts, and how many requests come before it ends. -/
structure Window where
  start : Nat
  requests : Nat
  deriving DecidableEq, Repr

/-- The windows of a client's requests, by their times. -/
def windowsOf (length : Nat) : List Nat → List Window
  | [] => []
  | time :: times =>
    ⟨time, (times.takeWhile (· < time + length)).length + 1⟩ ::
      windowsOf length (times.dropWhile (· < time + length))
  termination_by times => times.length
  decreasing_by exact Nat.lt_succ_of_le (List.dropWhile_sublist _).length_le

/-- The verdicts that the limit promises for a window: the first `maxQueries` requests pass. -/
def Window.promised (maxQueries : Nat) (w : Window) : List Verdict :=
  List.replicate (min maxQueries w.requests) ⟨w.start, false⟩ ++
    List.replicate (w.requests - maxQueries) ⟨w.start, true⟩

/-- The verdicts of a count modulo `2 ^ 32`. -/
def Window.counted (maxQueries : Nat) (w : Window) : List Verdict :=
  (List.range w.requests).map fun i => ⟨w.start, decide (maxQueries < (i + 1) % 2 ^ 32)⟩

namespace Window

variable {maxQueries : Nat} (w : Window)

theorem length_promised : (w.promised maxQueries).length = w.requests := by
  rw [promised, List.length_append, List.length_replicate, List.length_replicate]
  omega

theorem length_counted : (w.counted maxQueries).length = w.requests := by
  rw [counted, List.length_map, List.length_range]

theorem promised_getElem {i : Nat} (hi : i < (w.promised maxQueries).length) :
    (w.promised maxQueries)[i] = ⟨w.start, decide (maxQueries ≤ i)⟩ := by
  simp only [promised, List.getElem_append, List.length_replicate, List.getElem_replicate]
  rw [length_promised] at hi
  split
  · rw [decide_eq_false (by omega)]
  · rw [decide_eq_true (by omega)]

theorem counted_getElem {i : Nat} (hi : i < (w.counted maxQueries).length) :
    (w.counted maxQueries)[i] = ⟨w.start, decide (maxQueries < (i + 1) % 2 ^ 32)⟩ := by
  simp only [counted, List.getElem_map, List.getElem_range]

/-- The count keeps the promise as long as it does not wrap. -/
theorem counted_eq_promised (hmax : maxQueries < 2 ^ 32) :
    w.counted maxQueries = w.promised maxQueries ↔ w.requests < 2 ^ 32 := by
  constructor
  · intro heq
    by_contra hlarge
    have hi : 2 ^ 32 - 1 < w.requests := by omega
    have hcounted := w.counted_getElem (by rwa [length_counted] : 2 ^ 32 - 1 < (w.counted maxQueries).length)
    have hpromised := w.promised_getElem (by rwa [length_promised] : 2 ^ 32 - 1 < (w.promised maxQueries).length)
    simp only [heq, hpromised, Verdict.mk.injEq, true_and, decide_eq_decide] at hcounted
    omega
  · intro hsmall
    refine List.ext_getElem (by rw [length_counted, length_promised]) ?_
    intro i hi hi'
    rw [counted_getElem, promised_getElem]
    rw [length_counted] at hi
    rw [Nat.mod_eq_of_lt (by omega)]
    simp only [Nat.lt_succ_iff]

end Window

/-! ### Cleanup -/

/-- A limiter and what a cleanup at `now` or before may leave of it: entries can be missing whose window is over. -/
structure Cleaned (now : Nat) (p q : RateLimitPlugin) : Prop where
  maxQueries : q.maxQueries = p.maxQueries
  windowSecs : q.windowSecs = p.windowSecs
  limits : ∀ client, q.limits client = p.limits client ∨ q.limits client = none ∧
    ∀ entry, p.limits client = some entry → p.windowSecs * 1000 ≤ now - entry.windowStart

namespace Cleaned

variable {now : Nat} {p q : RateLimitPlugin}

theorem refl (now : Nat) (p : RateLimitPlugin) : Cleaned now p p := ⟨rfl, rfl, fun _ => .inl rfl⟩

theorem mono (h : Cleaned now p q) {later : Nat} (hlater : now ≤ later) : Cleaned later p q := by
  refine ⟨h.maxQueries, h.windowSecs, fun client => ?_⟩
  rcases h.limits client with heq | ⟨hnone, hover⟩
  · exact .inl heq
  · exact .inr ⟨hnone, fun entry hentry => Nat.le_trans (hover entry hentry) (Nat.sub_le_sub_right hlater _)⟩

/-- A window that is over counts like no entry. -/
theorem countQuery (h : Cleaned now p q) (client : IpAddr) :
    q.countQuery now (q.limits client) = p.countQuery now (p.limits client) := by
  have hcount : ∀ entry, q.countQuery now entry = p.countQuery now entry := by
    intro entry
    cases entry with
    | none => rfl
    | some entry => rw [RateLimitPlugin.countQuery, RateLimitPlugin.countQuery, h.windowSecs, h.maxQueries]
  rcases h.limits client with heq | ⟨hnone, hover⟩
  · rw [heq, hcount]
  · rw [hnone, hcount]
    cases hentry : p.limits client with
    | none => rfl
    | some entry => rw [RateLimitPlugin.countQuery, RateLimitPlugin.countQuery, if_pos (hover entry hentry)]

theorem verdict (h : Cleaned now p q) (client : IpAddr) : q.verdict now client = p.verdict now client := by
  rw [RateLimitPlugin.verdict, RateLimitPlugin.verdict, shouldLimit, shouldLimit, h.countQuery]

theorem shouldLimit (h : Cleaned now p q) (client : IpAddr) :
    Cleaned now (p.shouldLimit now client).2 (q.shouldLimit now client).2 := by
  refine ⟨h.maxQueries, h.windowSecs, fun other => ?_⟩
  dsimp only [RateLimitPlugin.shouldLimit]
  rw [h.countQuery]
  by_cases hother : other = client
  · subst hother
    rw [Function.update_self, Function.update_self]
    exact .inl rfl
  · rw [Function.update_of_ne hother, Function.update_of_ne hother]
    exact h.limits other

/-- A cleanup removes only entries whose window is over, and by as much again. -/
theorem cleanup (h : Cleaned now p q) : Cleaned now p (q.cleanup now) := by
  refine ⟨h.maxQueries, h.windowSecs, fun client => ?_⟩
  dsimp only [RateLimitPlugin.cleanup]
  rcases h.limits client with heq | ⟨hnone, hover⟩
  · rw [heq, h.windowSecs]
    cases hentry : p.limits client with
    | none => exact .inl rfl
    | some entry =>
      by_cases hkeep : now - entry.windowStart < p.windowSecs * 1000 * 2
      · left
        rw [Option.filter_some, if_pos (decide_eq_true hkeep)]
      · right
        rw [Option.filter_some, if_neg (by rwa [decide_eq_true_iff])]
        refine ⟨rfl, fun entry' hentry' => ?_⟩
        cases hentry'
        omega
  · rw [hnone]
    exact .inr ⟨rfl, hover⟩

end Cleaned

/-- The events of a run come in the order of their times. -/
def InOrder (events : List (Nat × Event)) : Prop := events.Pairwise fun e e' => e.1 ≤ e'.1

/-- With the cleanups or without them, the verdicts are the same. -/
theorem verdicts_of_cleaned {events : List (Nat × Event)} (horder : InOrder events) {now : Nat}
    (hnow : ∀ e ∈ events, now ≤ e.1) {p q : RateLimitPlugin} (h : Cleaned now p q) :
    q.verdicts events = p.verdicts (events.filter fun e => e.2.isRequest) := by
  induction events generalizing now p q with
  | nil => rfl
  | cons e events ih =>
    obtain ⟨hfirst, hrest⟩ := List.pairwise_cons.mp horder
    obtain ⟨time, event⟩ := e
    have htime := h.mono (hnow _ List.mem_cons_self)
    cases event with
    | request client =>
      rw [List.filter_cons_of_pos rfl, verdicts, verdicts, htime.verdict]
      rw [ih hrest hfirst (htime.shouldLimit client)]
    | cleanup =>
      rw [List.filter_cons_of_neg Bool.false_ne_true, verdicts]
      exact ih hrest hfirst htime.cleanup

/-- Cleanups change no verdict. -/
theorem cleanup_unobservable (p : RateLimitPlugin) {events : List (Nat × Event)} (horder : InOrder events) :
    p.verdicts events = p.verdicts (events.filter fun e => e.2.isRequest) :=
  verdicts_of_cleaned horder (fun _ _ => Nat.zero_le _) (Cleaned.refl 0 p)

theorem cleanup_unobservable_three :
    (new 1 10).verdicts [(0, .request (.v4 1)), (25000, .cleanup), (25001, .request (.v4 1))] =
      (new 1 10).verdicts [(0, .request (.v4 1)), (25001, .request (.v4 1))] := by
  have horder : InOrder [(0, .request (.v4 1)), (25000, .cleanup), (25001, .request (.v4 1))] := by
    unfold InOrder
    decide
  exact cleanup_unobservable (new 1 10) horder


/-! ### Counting -/

/-- The verdicts on one client's requests, from its entry and the times alone. -/
def queryVerdicts (p : RateLimitPlugin) : Option RateLimitEntry → List Nat → List Verdict
  | _, [] => []
  | entry, time :: times =>
    ⟨(p.countQuery time entry).2.windowStart, (p.countQuery time entry).1⟩ ::
      queryVerdicts p (some (p.countQuery time entry).2) times

theorem queryVerdicts_shouldLimit (p : RateLimitPlugin) (now : Nat) (client : IpAddr)
    (entry : Option RateLimitEntry) (times : List Nat) :
    (p.shouldLimit now client).2.queryVerdicts entry times = p.queryVerdicts entry times := by
  have hcount : ∀ time entry', (p.shouldLimit now client).2.countQuery time entry' = p.countQuery time entry' := by
    intro time entry'
    cases entry' <;> rfl
  induction times generalizing entry with
  | nil => rfl
  | cons time times ih => rw [queryVerdicts, queryVerdicts, hcount, ih]

/-- Without cleanups a client's verdicts are those of its own entry. -/
theorem verdictsFor_requests (p : RateLimitPlugin) (client : IpAddr) (events : List (Nat × Event)) :
    verdictsFor client p (events.filter fun e => e.2.isRequest) =
      p.queryVerdicts (p.limits client) (requestTimes client events) := by
  induction events generalizing p with
  | nil => rfl
  | cons e events ih =>
    obtain ⟨time, event⟩ := e
    cases event with
    | cleanup =>
      have hother : ¬Event.cleanup = .request client := nofun
      rw [List.filter_cons_of_neg Bool.false_ne_true, ih]
      simp only [requestTimes, List.filterMap_cons, if_neg hother]
    | request other =>
      have hrest := ih (p.shouldLimit time other).2
      rw [queryVerdicts_shouldLimit] at hrest
      rw [List.filter_cons_of_pos rfl]
      by_cases hother : other = client
      · subst hother
        have hentry : (p.shouldLimit time other).2.limits other = some (p.countQuery time (p.limits other)).2 :=
          Function.update_self ..
        rw [hentry] at hrest
        simp only [verdictsFor, verdicts, requestTimes, List.filterMap_cons, if_true, queryVerdicts]
        exact congrArg₂ List.cons rfl hrest
      · have hevent : ¬Event.request other = .request client := fun h => hother (Event.request.inj h)
        have hentry : (p.shouldLimit time other).2.limits client = p.limits client :=
          Function.update_of_ne (Ne.symm hother) ..
        rw [hentry] at hrest
        simp only [verdictsFor, verdicts, requestTimes, List.filterMap_cons, if_neg hother, if_neg hevent]
        exact hrest

variable (p : RateLimitPlugin)

/-- From the `n`-th request of a window on: the rest of the window is counted, and what follows it opens another one. -/
theorem queryVerdicts_window {start : Nat} {times : List Nat} (horder : (start :: times).Pairwise (· ≤ ·)) (n : Nat) :
    p.queryVerdicts (some ⟨n % 2 ^ 32, start⟩) times =
      ((List.range (times.takeWhile (· < start + p.windowSecs * 1000)).length).map fun i =>
        ⟨start, decide (p.maxQueries < (n + i + 1) % 2 ^ 32)⟩) ++
      p.queryVerdicts none (times.dropWhile (· < start + p.windowSecs * 1000)) := by
  induction times generalizing n with
  | nil => rfl
  | cons time times ih =>
    obtain ⟨hstart, hrest⟩ := List.pairwise_cons.mp horder
    have hle := hstart time List.mem_cons_self
    by_cases hin : time < start + p.windowSecs * 1000
    · have hmod : (n % 2 ^ 32 + 1) % 2 ^ 32 = (n + 1) % 2 ^ 32 := Nat.mod_add_mod n (2 ^ 32) 1
      have hcount : p.countQuery time (some ⟨n % 2 ^ 32, start⟩) =
          (decide (p.maxQueries < (n + 1) % 2 ^ 32), ⟨(n + 1) % 2 ^ 32, start⟩) := by
        have hopen : ¬p.windowSecs * 1000 ≤ time - start := by omega
        simp only [countQuery, if_neg hopen, hmod]
      have hnext := ih (List.pairwise_cons.mpr ⟨fun t ht => hstart t (List.mem_cons_of_mem _ ht), hrest.of_cons⟩) (n + 1)
      rw [queryVerdicts, hcount, List.takeWhile_cons, if_pos (decide_eq_true hin), List.dropWhile_cons,
        if_pos (decide_eq_true hin), List.length_cons, List.range_succ_eq_map, List.map_cons, List.cons_append,
        List.map_map]
      refine congrArg₂ List.cons rfl (hnext.trans (congrArg (· ++ _) (List.map_congr_left ?_)))
      intro i _
      dsimp only [Function.comp]
      rw [Nat.add_right_comm n 1 i]
      rfl
    · have hnot : ¬decide (time < start + p.windowSecs * 1000) = true := by rwa [decide_eq_true_iff]
      have hover : p.windowSecs * 1000 ≤ time - start := by omega
      have hcount : p.countQuery time (some ⟨n % 2 ^ 32, start⟩) = p.countQuery time none := by
        simp only [countQuery, if_pos hover]
      rw [List.takeWhile_cons, if_neg hnot, List.dropWhile_cons, if_neg hnot]
      rw [queryVerdicts, queryVerdicts, hcount]
      rfl

/-- The windows of a client, one after the other. -/
theorem queryVerdicts_windowsOf (hmax : 1 ≤ p.maxQueries) {times : List Nat} (horder : times.Pairwise (· ≤ ·)) :
    p.queryVerdicts none times =
      (windowsOf (p.windowSecs * 1000) times).flatMap (Window.counted p.maxQueries) := by
  induction times using windowsOf.induct (p.windowSecs * 1000) with
  | case1 => rw [windowsOf]; rfl
  | case2 time times ih =>
    rw [windowsOf, List.flatMap_cons, queryVerdicts, countQuery]
    have hwindow := p.queryVerdicts_window horder 1
    have hone : 1 % 2 ^ 32 = 1 := rfl
    rw [hone] at hwindow
    rw [hwindow, ih (horder.of_cons.sublist (List.dropWhile_sublist _)), ← List.cons_append]
    congr 1
    rw [Window.counted, List.range_succ_eq_map, List.map_cons, List.map_map]
    refine congrArg₂ List.cons ?_ (List.map_congr_left ?_)
    · rw [decide_eq_false (by omega)]
    · intro i _
      dsimp only [Function.comp]
      rw [Nat.add_comm 1 i]

theorem requestTimes_inOrder {client : IpAddr} {events : List (Nat × Event)} (horder : InOrder events) :
    (requestTimes client events).Pairwise (· ≤ ·) := by
  refine List.Pairwise.filterMap _ ?_ horder
  intro e e' hle time htime time' htime'
  split at htime
  · split at htime'
    · cases htime
      cases htime'
      exact hle
    · cases htime'
  · cases htime

/-- What every client is told in a run of a new limiter. -/
theorem verdictsFor_new {maxQueries windowSecs : Nat} (hmax : 1 ≤ maxQueries) {events : List (Nat × Event)}
    (horder : InOrder events) (client : IpAddr) :
    verdictsFor client (new maxQueries windowSecs) events =
      (windowsOf (windowSecs * 1000) (requestTimes client events)).flatMap (Window.counted maxQueries) := by
  have hcleaned := verdicts_of_cleaned horder (fun _ _ => Nat.zero_le _) (Cleaned.refl 0 (new maxQueries windowSecs))
  have hrequests := verdictsFor_requests (new maxQueries windowSecs) client events
  rw [verdictsFor, ← hcleaned] at hrequests
  exact hrequests.trans (queryVerdicts_windowsOf _ hmax (requestTimes_inOrder horder))

/-- The windows of every client are kept to the limit. -/
def KeepsLimit (maxQueries windowSecs : Nat) (events : List (Nat × Event)) : Prop :=
  ∀ client, verdictsFor client (new maxQueries windowSecs) events =
    (windowsOf (windowSecs * 1000) (requestTimes client events)).flatMap (Window.promised maxQueries)

/-- The verdicts of all windows together are as promised where those of each one are. -/
theorem flatMap_counted_eq {maxQueries : Nat} (hmax : maxQueries < 2 ^ 32) (windows : List Window) :
    windows.flatMap (Window.counted maxQueries) = windows.flatMap (Window.promised maxQueries) ↔
      ∀ w ∈ windows, w.requests < 2 ^ 32 := by
  induction windows with
  | nil => exact ⟨fun _ => nofun, fun _ => rfl⟩
  | cons w windows ih =>
    rw [List.flatMap_cons, List.flatMap_cons, List.forall_mem_cons, ← ih, ← w.counted_eq_promised hmax]
    constructor
    · exact fun h => List.append_inj h (by rw [w.length_counted, w.length_promised])
    · rintro ⟨hw, hwindows⟩
      rw [hw, hwindows]

/-- The limit is kept exactly in the runs where no client sends `2 ^ 32` requests in one window. -/
theorem keepsLimit_iff {maxQueries windowSecs : Nat} (hmin : 1 ≤ maxQueries) (hmax : maxQueries < 2 ^ 32)
    {events : List (Nat × Event)} (horder : InOrder events) :
    KeepsLimit maxQueries windowSecs events ↔
      ∀ client, ∀ w ∈ windowsOf (windowSecs * 1000) (requestTimes client events), w.requests < 2 ^ 32 := by
  refine forall_congr' fun client => ?_
  rw [verdictsFor_new hmin horder, flatMap_counted_eq hmax]

theorem requests_le {length : Nat} {times : List Nat} {w : Window} (hw : w ∈ windowsOf length times) :
    w.requests ≤ times.length := by
  induction times using windowsOf.induct length with
  | case1 =>
    rw [windowsOf] at hw
    cases hw
  | case2 time times ih =>
    rw [windowsOf] at hw
    rcases List.mem_cons.mp hw with rfl | hmem
    · exact Nat.succ_le_succ (List.takeWhile_sublist _).length_le
    · exact Nat.le_trans (ih hmem) (Nat.le_succ_of_le (List.dropWhile_sublist _).length_le)

theorem keepsLimit_iff_two :
    KeepsLimit 1 1 [(0, .request (.v4 1)), (5, .request (.v4 1))] ∧
      verdictsFor (.v4 1) (new 1 1) [(0, .request (.v4 1)), (5, .request (.v4 1))] = [⟨0, false⟩, ⟨0, true⟩] := by
  have horder : InOrder [(0, .request (.v4 1)), (5, .request (.v4 1))] := by
    unfold InOrder
    decide
  have hkept : KeepsLimit 1 1 [(0, .request (.v4 1)), (5, .request (.v4 1))] := by
    refine (keepsLimit_iff (by decide) (by decide) horder).mpr fun client w hw => ?_
    have hsize := requests_le hw
    have hlength : (requestTimes client [(0, .request (.v4 1)), (5, .request (.v4 1))]).length ≤ 2 :=
      List.length_filterMap_le _ _
    omega
  refine ⟨hkept, ?_⟩
  rw [hkept]
  decide +kernel

def burst (n : Nat) : List (Nat × Event) := List.replicate n (0, .request (.v4 1))

private theorem burst_inOrder (n : Nat) : InOrder (burst n) :=
  List.pairwise_replicate.mpr (.inr (Nat.le_refl 0))

private theorem requestTimes_burst (n : Nat) : requestTimes (.v4 1) (burst n) = List.replicate n 0 := by
  rw [requestTimes, burst]
  exact List.filterMap_replicate_of_some (if_pos rfl)

private theorem windowsOf_replicate {n : Nat} (hn : 0 < n) : windowsOf 1000 (List.replicate n 0) = [⟨0, n⟩] := by
  cases n with
  | zero => cases hn
  | succ n =>
    have hin : decide (0 < 0 + 1000) = true := rfl
    rw [List.replicate_succ, windowsOf, List.takeWhile_replicate, List.dropWhile_replicate, if_pos hin, if_pos hin,
      windowsOf, List.length_replicate]

private theorem not_keepsLimit_of_le {n : Nat} (hn : 2 ^ 32 ≤ n) : ¬KeepsLimit 1 1 (burst n) := by
  intro h
  have hclient := h (.v4 1)
  rw [verdictsFor_new (Nat.le_refl 1) (burst_inOrder n), flatMap_counted_eq (by decide), requestTimes_burst,
    windowsOf_replicate (Nat.lt_of_lt_of_le (by decide) hn)] at hclient
  exact absurd (hclient ⟨0, n⟩ (List.mem_singleton_self _)) (Nat.not_lt.mpr hn)

/-- A client that sends `2 ^ 32` requests at once gets past a limit of one. -/
theorem not_keepsLimit_burst : ¬KeepsLimit 1 1 (burst (2 ^ 32)) := not_keepsLimit_of_le (Nat.le_refl _)

end RateLimitPlugin

end Lazydns
