import Lazydns.Plugin.CacheView

/-!
# Runs in step

Two runs of one pipeline from contexts that look the same, on shared states that look the same, take their steps together and end looking the same. The relation on rate limiters is left open: equality where the runs see the same clients, something coarser where one run leaves clients out.
-/

namespace Lazydns

open Dns

variable {f : UInt16 → UInt16}

/-! ### Queries to upstreams -/

def Dns.Hickory.Message.view (f : UInt16 → UInt16) (h : Hickory.Message) : Hickory.Message :=
  { h with id := f h.id }

theorem convertToHickory_id (fromUtf8 : String → Option Hickory.Name) (m : Message) (id : UInt16) :
    convertToHickory fromUtf8 { m with id } =
      (convertToHickory fromUtf8 m).map fun h => { h with id } := by
  simp only [convertToHickory, Option.bind_eq_bind, Option.pure_def, Option.map_bind,
    Function.comp_def, Option.map_some]

/-- What an id does not decide, for ids seen through `f`: whether a message can be encoded, and an upstream's reply but for its own id. -/
structure Env.IdBlind (f : UInt16 → UInt16) (env : Env) : Prop where
  emits : ∀ h h' : Hickory.Message, h.view f = h'.view f → env.emits h = env.emits h'
  exchange : ∀ n addr (h h' : Hickory.Message), ForwardPlugin.isDoh addr = true →
    h.view f = h'.view f →
    (env.exchange n addr h).1.map (Message.view f) =
        (env.exchange n addr h').1.map (Message.view f) ∧
      (env.exchange n addr h).2 = (env.exchange n addr h').2

/-- An environment is blind to differences between ids that are equal. -/
theorem Env.idBlind_id (env : Env) : env.IdBlind id where
  emits := fun _ _ heq => congrArg env.emits heq
  exchange := fun n addr h h' _ heq => by
    have hsame : h = h' := heq
    rw [hsame]
    exact ⟨rfl, rfl⟩

private theorem Dns.Hickory.Message.setId_of_view {h h' : Hickory.Message} (heq : h.view f = h'.view f)
    (id : UInt16) : { h with id } = { h' with id } := by
  cases h
  cases h'
  simp only [Hickory.Message.view, Hickory.Message.mk.injEq] at heq ⊢
  exact ⟨trivial, heq.2⟩

namespace ForwardPlugin

variable {env : Env} {m m' : Message}

theorem serialize_same (henv : env.IdBlind f) (h : m.view f = m'.view f) :
    (env.serialize m).map (Hickory.Message.view f) = (env.serialize m').map (Hickory.Message.view f) := by
  have hid := view_id h
  have hconv : convertToHickory env.fromUtf8 m' =
      (convertToHickory env.fromUtf8 m).map fun w => { w with id := m'.id } :=
    (congrArg _ (eq_of_view h)).trans (convertToHickory_id _ _ _)
  have hsame : ∀ w, convertToHickory env.fromUtf8 m = some w → w.id = m.id := by
    intro w hw
    simp only [convertToHickory, Option.bind_eq_bind, Option.pure_def, Option.bind_eq_some_iff,
      Option.some.injEq] at hw
    obtain ⟨_, _, _, _, _, _, _, _, rfl⟩ := hw
    rfl
  rw [Env.serialize, Env.serialize, hconv]
  cases hw : convertToHickory env.fromUtf8 m with
  | none => rfl
  | some w =>
    have hview : w.view f = ({ w with id := m'.id } : Hickory.Message).view f := by
      simp only [Hickory.Message.view, hsame w hw, hid]
    rw [Option.map_some, Option.filter_some, Option.filter_some, henv.emits _ _ hview]
    split
    · exact congrArg some hview
    · rfl

theorem restoreId_same (h : m.view f = m'.view f) (addr : String) {r r' : Message}
    (hr : r.view f = r'.view f) : (restoreId m addr r).view f = (restoreId m' addr r').view f := by
  rw [restoreId, restoreId]
  split
  · exact hr
  · rw [eq_of_view hr]
    simp only [Message.view, view_id h]

theorem forwardQuery_same (henv : env.IdBlind f) (h : m.view f = m'.view f) (n : Nat)
    (addr : String) :
    (forwardQuery env n m addr).1.map (Message.view f) =
        (forwardQuery env n m' addr).1.map (Message.view f) ∧
      (forwardQuery env n m addr).2 = (forwardQuery env n m' addr).2 := by
  have hser := serialize_same henv h
  have hrestore : ∀ r r' : Except Error Message,
      r.map (Message.view f) = r'.map (Message.view f) →
      (r.map (restoreId m addr)).map (Message.view f) =
        (r'.map (restoreId m' addr)).map (Message.view f) := by
    intro r r' hr
    cases r with
    | error e =>
      cases r' with
      | error e' => exact hr
      | ok r' => cases hr
    | ok r =>
      cases r' with
      | error e' => cases hr
      | ok r' => exact congrArg Except.ok (restoreId_same h addr (Except.ok.inj hr))
  rw [forwardQuery, forwardQuery]
  cases hw : env.serialize m with
  | none =>
    rw [hw, Option.map_none, eq_comm, Option.map_eq_none_iff] at hser
    rw [hser]
    exact ⟨rfl, rfl⟩
  | some w =>
    rw [hw, Option.map_some, eq_comm, Option.map_eq_some_iff] at hser
    obtain ⟨w', hw', hview⟩ := hser
    rw [hw']
    dsimp only
    by_cases hdoh : isDoh addr = true
    · have hex := henv.exchange n addr w w' hdoh hview.symm
      simp only [wireQuery, if_pos hdoh]
      exact ⟨hrestore _ _ hex.1, hex.2⟩
    · simp only [wireQuery, if_neg hdoh, Hickory.Message.setId_of_view hview.symm]
      exact ⟨hrestore _ _ rfl, trivial⟩

/-- One line of the race with the reply's id seen through `f`. -/
private def viewLine (f : UInt16 → UInt16) (line : Nat × Except Error Message × Nat) :
    Nat × Except Error Message × Nat :=
  (line.1, line.2.1.map (Message.view f), line.2.2)

private theorem finishOrder_same (henv : env.IdBlind f) (h : m.view f = m'.view f) (n : Nat)
    (p : ForwardPlugin) :
    (finishOrder env n m p).map (viewLine f) = (finishOrder env n m' p).map (viewLine f) := by
  have hsort : ∀ lines : List (Nat × Except Error Message × Nat),
      (lines.insertionSort fun a b => a.2.2 ≤ b.2.2).map (viewLine f) =
        (lines.map (viewLine f)).insertionSort fun a b => a.2.2 ≤ b.2.2 :=
    fun lines => List.map_insertionSort _ _ (viewLine f) lines fun _ _ _ _ => Iff.rfl
  rw [finishOrder, finishOrder, hsort, hsort]
  congr 1
  rw [List.mapIdx_eq_zipIdx_map, List.mapIdx_eq_zipIdx_map, List.map_map, List.map_map]
  congr 1
  funext ⟨u, idx⟩
  have hq := forwardQuery_same henv h (n + idx) u.addr
  simp only [Function.comp_apply, viewLine, hq.1, hq.2]

private theorem firstSuccess_same {lines lines' : List (Nat × Except Error Message × Nat)}
    (h : lines.map (viewLine f) = lines'.map (viewLine f)) (elapsed : Nat) (p : ForwardPlugin) :
    (firstSuccess lines elapsed p).1.map (Message.view f) =
        (firstSuccess lines' elapsed p).1.map (Message.view f) ∧
      (firstSuccess lines elapsed p).2 = (firstSuccess lines' elapsed p).2 := by
  induction lines generalizing lines' elapsed p with
  | nil =>
    rw [List.map_nil, eq_comm, List.map_eq_nil_iff] at h
    rw [h]
    exact ⟨rfl, rfl⟩
  | cons line rest ih =>
    cases lines' with
    | nil => cases h
    | cons line' rest' =>
      obtain ⟨idx, r, t⟩ := line
      obtain ⟨idx', r', t'⟩ := line'
      rw [List.map_cons, List.map_cons, List.cons.injEq] at h
      simp only [viewLine, Prod.mk.injEq] at h
      obtain ⟨⟨rfl, hr, rfl⟩, hrest⟩ := h
      cases r with
      | error e =>
        cases r' with
        | error e' => exact ih hrest _ _
        | ok r' => cases hr
      | ok r =>
        cases r' with
        | error e' => cases hr
        | ok r' => exact ⟨congrArg some (Except.ok.inj hr), rfl⟩

end ForwardPlugin

/-! ### Shared states -/

/-- Two shared states with the same caches but for ids, with rate limiters related by `L`, and otherwise equal. -/
structure World.Same (f : UInt16 → UInt16) (L : RateLimitPlugin → RateLimitPlugin → Prop)
    (w w' : World) : Prop where
  now : w.now = w'.now
  caches : ∀ i, (w.caches i).view f = (w'.caches i).view f
  limiters : ∀ i, L (w.limiters i) (w'.limiters i)
  validators : w.validators = w'.validators
  reverses : w.reverses = w'.reverses
  forwards : w.forwards = w'.forwards
  exchanges : w.exchanges = w'.exchanges
  downloads : w.downloads = w'.downloads

/-- A relation on rate limiters that every query keeps, with the same verdict, in the states of `I`. -/
def LimiterSim (I : World → Prop) (L : RateLimitPlugin → RateLimitPlugin → Prop) : Prop :=
  ∀ (w : World) (p' : RateLimitPlugin) (i : Nat) (client : IpAddr), I w → L (w.limiters i) p' →
    ((w.limiters i).shouldLimit w.now client).1 = (p'.shouldLimit w.now client).1 ∧
      L ((w.limiters i).shouldLimit w.now client).2 (p'.shouldLimit w.now client).2

theorem limiterSim_eq : LimiterSim (fun _ => True) Eq := by
  intro w p' i client _ h
  rw [h]
  exact ⟨rfl, rfl⟩

namespace World.Same

variable {L : RateLimitPlugin → RateLimitPlugin → Prop} {w w' : World}

theorem refl (hL : ∀ p, L p p) (w : World) : w.Same f L w :=
  ⟨rfl, fun _ => rfl, fun _ => hL _, rfl, rfl, rfl, rfl, rfl⟩

theorem caches_eq (h : w.Same id L w') : w'.caches = w.caches := by
  funext i
  rw [← CachePlugin.view_eq_self (w.caches i), h.caches i, CachePlugin.view_eq_self]

theorem setCache (h : w.Same f L w') (i : Nat) {c c' : CachePlugin} (hc : c.view f = c'.view f) :
    (w.setCache i c).Same f L (w'.setCache i c') :=
  { h with
    caches := fun j => by
      rw [setCache_caches, setCache_caches]
      by_cases hj : j = i
      · subst hj
        rwa [Function.update_self, Function.update_self]
      · rw [Function.update_of_ne hj, Function.update_of_ne hj]
        exact h.caches j }

theorem setLimiter (h : w.Same f L w') (i : Nat) {p p' : RateLimitPlugin} (hp : L p p') :
    (w.setLimiter i p).Same f L (w'.setLimiter i p') :=
  { h with
    limiters := fun j => by
      change L (Function.update w.limiters i p j) (Function.update w'.limiters i p' j)
      by_cases hj : j = i
      · subst hj
        rwa [Function.update_self, Function.update_self]
      · rw [Function.update_of_ne hj, Function.update_of_ne hj]
        exact h.limiters j }

theorem setValidator (h : w.Same f L w') (i : Nat) (p : DomainValidatorPlugin) :
    (w.setValidator i p).Same f L (w'.setValidator i p) :=
  { h with validators := by rw [World.setValidator, World.setValidator, h.validators] }

theorem setReverse (h : w.Same f L w') (i : Nat) (p : ReverseLookupPlugin) :
    (w.setReverse i p).Same f L (w'.setReverse i p) :=
  { h with reverses := by rw [World.setReverse, World.setReverse, h.reverses] }

theorem setForward (h : w.Same f L w') (i : Nat) (p : ForwardPlugin) :
    (w.setForward i p).Same f L (w'.setForward i p) :=
  { h with forwards := by rw [World.setForward, World.setForward, h.forwards] }

end World.Same

/-! ### Runs -/

namespace Run

variable {I : World → Prop} {L : RateLimitPlugin → RateLimitPlugin → Prop} {c c' : Context}

/-- Two runs in step, with the same result and contexts that look the same at the end. -/
def Sim (f : UInt16 → UInt16) (I : World → Prop) (L : RateLimitPlugin → RateLimitPlugin → Prop)
    (p q : Run) : Prop :=
  Proc.Sim I (World.Same f L) (fun r r' => r.1 = r'.1 ∧ r.2.Same f r'.2) p q

theorem sim_done (h : c.Same f c') : (done c).Sim f I L (done c') :=
  Proc.sim_ret.mpr ⟨rfl, h⟩

theorem sim_fail (stop : Stop) (h : c.Same f c') : (fail stop c).Sim f I L (fail stop c') :=
  Proc.sim_ret.mpr ⟨rfl, h⟩

theorem sim_step {g g' : World → Context × World}
    (h : ∀ w w', I w → w.Same f L w' → (g w).1.Same f (g' w').1 ∧ (g w).2.Same f L (g' w').2) :
    (step g).Sim f I L (step g') :=
  Proc.sim_atomic fun w w' hw hww' => ⟨⟨rfl, (h w w' hw hww').1⟩, (h w w' hw hww').2⟩

theorem sim_andThen {p q : Run} {k k' : Context → Run} (hpq : p.Sim f I L q)
    (hk : ∀ c c', c.Same f c' → (k c).Sim f I L (k' c')) :
    (andThen p k).Sim f I L (andThen q k') := by
  refine Proc.Sim.bind hpq ?_
  rintro ⟨result, c⟩ ⟨result', c'⟩ ⟨rfl, hc⟩
  cases result with
  | ok u => exact hk c c' hc
  | error stop => exact sim_fail stop hc

end Run

namespace Leaf

variable {env : Env} {I : World → Prop} {L : RateLimitPlugin → RateLimitPlugin → Prop}
  {c c' : Context}

theorem executeCache_same (i : Nat) (h : c.Same f c') {w w' : World} (hw : w.Same f L w') :
    (executeCache env i c w).1.Same f (executeCache env i c' w').1 ∧
      (executeCache env i c w).2.Same f L (executeCache env i c' w').2 := by
  have hcache := @CachePlugin.execute_same _ env w.now _ _ _ _ h (hw.caches i)
  rw [executeCache, executeCache, ← hw.now]
  exact ⟨hcache.1, hw.setCache i hcache.2⟩

theorem executeRateLimit_same (hL : LimiterSim I L) (i : Nat) (h : c.Same f c') {w w' : World}
    (hI : I w) (hw : w.Same f L w') :
    (executeRateLimit i c w).1.Same f (executeRateLimit i c' w').1 ∧
      (executeRateLimit i c w).2.Same f L (executeRateLimit i c' w').2 := by
  rw [executeRateLimit, executeRateLimit, RateLimitPlugin.execute, RateLimitPlugin.execute,
    h.getIp (by decide), ← hw.now]
  cases c'.getIp "client_ip" with
  | none => exact ⟨h, hw.setLimiter i (hw.limiters i)⟩
  | some client =>
    obtain ⟨hverdict, hnext⟩ := hL w (w'.limiters i) i client hI (hw.limiters i)
    dsimp only
    generalize (w.limiters i).shouldLimit w.now client = r at hverdict hnext
    generalize (w'.limiters i).shouldLimit w.now client = r' at hverdict hnext
    obtain ⟨limited, p⟩ := r
    obtain ⟨limited', p'⟩ := r'
    dsimp only at hverdict hnext
    subst hverdict
    cases limited with
    | false => exact ⟨h, hw.setLimiter i hnext⟩
    | true => exact ⟨((h.record _).setRefused).setMetadata _ _, hw.setLimiter i hnext⟩

theorem executeDomainValidator_same (i : Nat) (h : c.Same f c') {w w' : World} (hw : w.Same f L w') :
    (executeDomainValidator i c w).1.Same f (executeDomainValidator i c' w').1 ∧
      (executeDomainValidator i c w).2.Same f L (executeDomainValidator i c' w').2 := by
  have hresult : ∀ result, (DomainValidatorPlugin.handleResult result c).Same f
      (DomainValidatorPlugin.handleResult result c') := by
    intro result
    cases result with
    | valid => exact h
    | invalid reason => exact h.setRefused
  rw [executeDomainValidator, executeDomainValidator, DomainValidatorPlugin.execute,
    DomainValidatorPlugin.execute, h.questions, hw.validators]
  dsimp only
  split
  · exact ⟨hresult _, hw.setValidator i _⟩
  · exact ⟨hresult _, hw.setValidator i _⟩

theorem executeReverseLookup_same (i : Nat) (h : c.Same f c') {w w' : World} (hw : w.Same f L w') :
    (executeReverseLookup env i c w).1.Same f (executeReverseLookup env i c' w').1 ∧
      (executeReverseLookup env i c w).2.Same f L (executeReverseLookup env i c' w').2 := by
  rw [executeReverseLookup, executeReverseLookup, ReverseLookupPlugin.execute,
    ReverseLookupPlugin.execute, h.questions, hw.reverses, hw.now]
  dsimp only
  split
  · exact ⟨h, hw.setReverse i _⟩
  · split
    · split
      · exact ⟨h, hw.setReverse i _⟩
      · split
        · exact ⟨h.answerFirst _ _ id fun _ => rfl, hw.setReverse i _⟩
        · exact ⟨h, hw.setReverse i _⟩
    · exact ⟨h, hw.setReverse i _⟩

end Leaf

namespace ForwardPlugin

variable {env : Env} {I : World → Prop} {L : RateLimitPlugin → RateLimitPlugin → Prop}
  {c c' : Context} {m m' : Message}

theorem attempt_same (henv : env.IdBlind f) (h : m.view f = m'.view f) (i : Nat) {w w' : World}
    (hw : w.Same f L w') :
    (attempt env i m w).1.map (Message.view f) = (attempt env i m' w').1.map (Message.view f) ∧
      (attempt env i m w).2.Same f L (attempt env i m' w').2 := by
  rw [attempt, attempt, ← hw.forwards, ← hw.exchanges]
  dsimp only
  split
  · exact ⟨rfl, hw⟩
  · rename_i idx _
    generalize ((w.forwards i).upstreams[idx]?.map Upstream.addr).getD "" = addr
    have hq := forwardQuery_same henv h w.exchanges addr
    have hok : (forwardQuery env w.exchanges m addr).1.toBool =
        (forwardQuery env w.exchanges m' addr).1.toBool := by
      have hbool := congrArg Except.toBool hq.1
      cases hr : (forwardQuery env w.exchanges m addr).1 <;>
        cases hr' : (forwardQuery env w.exchanges m' addr).1 <;> rw [hr, hr'] at hbool <;> exact hbool
    refine ⟨hq.1, ?_⟩
    rw [hq.2, hok, ← hw.now]
    exact { hw.setForward i _ with now := rfl, exchanges := rfl }

theorem executeConcurrent_same (henv : env.IdBlind f) (h : m.view f = m'.view f) (i : Nat)
    {w w' : World} (hw : w.Same f L w') :
    (executeConcurrent env i m w).1.map (Message.view f) =
        (executeConcurrent env i m' w').1.map (Message.view f) ∧
      (executeConcurrent env i m w).2.Same f L (executeConcurrent env i m' w').2 := by
  have hrace := firstSuccess_same (finishOrder_same henv h w.exchanges (w.forwards i)) 0
    (w.forwards i)
  rw [executeConcurrent, executeConcurrent, ← hw.forwards, ← hw.exchanges, ← hw.now]
  refine ⟨hrace.1, ?_⟩
  dsimp only
  rw [hrace.2]
  exact { hw.setForward i _ with now := rfl, exchanges := rfl }

theorem executeSequential_sim (henv : env.IdBlind f) (h : m.view f = m'.view f) (i rounds : Nat)
    (lastError : Option Error) (hc : c.Same f c') :
    (executeSequential env i m rounds lastError c).Sim f I L
      (executeSequential env i m' rounds lastError c') := by
  induction rounds generalizing lastError with
  | zero => exact Run.sim_fail _ hc
  | succ rounds ih =>
    refine Proc.Sim.bind (S := fun r r' => r.map (Message.view f) = r'.map (Message.view f))
      (Proc.sim_atomic fun w w' _ hw => attempt_same henv h i hw) ?_
    intro r r' hr
    cases r with
    | error e =>
      cases r' with
      | error e' =>
        cases Except.error.inj hr
        exact ih _
      | ok r' => cases hr
    | ok r =>
      cases r' with
      | error e' => cases hr
      | ok r' => exact Run.sim_done (hc.setResponse (congrArg some (Except.ok.inj hr)))

theorem execute_sim (henv : env.IdBlind f) (i : Nat) (hc : c.Same f c') :
    (execute env i c).Sim f I L (execute env i c') := by
  rw [execute, execute, hc.hasResponse]
  split
  · exact Run.sim_done hc
  · refine Proc.Sim.bind (S := Eq) (Proc.sim_atomic fun w w' _ hw => ⟨by rw [hw.forwards], hw⟩) ?_
    rintro p _ rfl
    have hrace : Proc.Sim I (World.Same f L)
        (fun r r' => r.map (Message.view f) = r'.map (Message.view f))
        (race env i c.request p) (race env i c'.request p) := by
      rw [race, race]
      split
      · exact Proc.sim_atomic fun w w' _ hw => executeConcurrent_same henv hc.request i hw
      · exact Proc.sim_ret.mpr rfl
    refine Proc.Sim.bind hrace ?_
    intro r r' hr
    cases r with
    | none =>
      cases r' with
      | none => exact executeSequential_sim henv hc.request i _ _ hc
      | some r' => cases hr
    | some r =>
      cases r' with
      | none => cases hr
      | some r' => exact Run.sim_done (hc.setResponse hr)

end ForwardPlugin

section

variable {env : Env} {reg : Registry} {I : World → Prop}
  {L : RateLimitPlugin → RateLimitPlugin → Prop} {exec : Plugin → Context → Run} {c c' : Context}

theorem Leaf.execute_sim (henv : env.IdBlind f) (hL : LimiterSim I L) (l : Leaf)
    (h : c.Same f c') : (l.execute env c).Sim f I L (l.execute env c') := by
  cases l with
  | plain p => exact Run.sim_done (p.execute_same h)
  | cache i => exact Run.sim_step fun w w' _ hw => executeCache_same i h hw
  | rateLimit i => exact Run.sim_step fun w w' hI hw => executeRateLimit_same hL i h hI hw
  | domainValidator i => exact Run.sim_step fun w w' _ hw => executeDomainValidator_same i h hw
  | reverseLookup i => exact Run.sim_step fun w w' _ hw => executeReverseLookup_same i h hw
  | forward i => exact ForwardPlugin.execute_sim henv i h
  | sleep duration =>
    exact Run.sim_step fun w w' _ hw => ⟨h, { hw with now := by dsimp only; rw [hw.now] }⟩
  | downloader =>
    refine Proc.sim_atomic fun w w' _ hw => ?_
    rw [executeDownloader, executeDownloader, hw.downloads]
    exact ⟨⟨rfl, h⟩, { hw with downloads := rfl }⟩

variable (hexec : ∀ (plugin : Plugin) (c c' : Context), c.Same f c' →
  (exec plugin c).Sim f I L (exec plugin c'))

include hexec

theorem jumpLoop_sim (rounds : Nat) (h : c.Same f c') :
    (jumpLoop reg exec rounds c).Sim f I L (jumpLoop reg exec rounds c') := by
  induction rounds generalizing c c' with
  | zero =>
    rw [jumpLoop, jumpLoop, h.hasMetadata (by decide)]
    split
    · exact Run.sim_fail _ h
    · exact Run.sim_done h
  | succ rounds ih =>
    rw [jumpLoop, jumpLoop, h.hasMetadata (by decide), h.getString (by decide)]
    split
    · cases c'.getString "jump_target" with
      | none => exact Run.sim_done h
      | some target =>
        have hcleared := (h.removeMetadata "jump_target").removeMetadata RETURN_FLAG
        dsimp only
        rw [hcleared.getRegistry (by decide), hcleared.getBool (by decide)]
        split
        · refine Run.sim_andThen (hexec _ _ _ hcleared) fun d d' hd => ih ?_
          cases Context.getBool _ RETURN_FLAG with
          | none => exact hd.removeMetadata _
          | some flag => exact hd.setMetadata _ _
        · exact ih hcleared
    · exact Run.sim_done h

theorem runSteps_sim (rounds : Nat) (tag : Option String) (index : Nat)
    (steps : List (SequenceStep Plugin)) (h : c.Same f c') :
    (runSteps env reg exec rounds tag index steps c).Sim f I L
      (runSteps env reg exec rounds tag index steps c') := by
  induction steps generalizing index c c' with
  | nil => exact Run.sim_done h
  | cons step rest ih =>
    rw [runSteps, runSteps]
    refine Run.sim_andThen ?_ fun d d' hd =>
      Run.sim_andThen (jumpLoop_sim hexec rounds hd) fun e e' he => ?_
    · cases step with
      | exec plugin => exact hexec _ _ _ (h.record _)
      | cond condition action =>
        rw [runStep, runStep, condition.eval_same h]
        split
        · exact hexec _ _ _ (h.record _)
        · exact Run.sim_done h
    · rw [he.hasMetadata (by decide), he.getBool (by decide)]
      split
      · exact Run.sim_done (he.setMetadata _ _)
      · split
        · exact Run.sim_done he
        · exact ih (index + 1) he

theorem runFallback_sim (errorOnly : Bool) (children : List Plugin) (h : c.Same f c') :
    (runFallback exec errorOnly children c).Sim f I L (runFallback exec errorOnly children c') := by
  induction children generalizing c c' with
  | nil => exact Run.sim_done h
  | cons child rest ih =>
    rw [runFallback, runFallback]
    refine Proc.Sim.bind (hexec child c c' h) ?_
    rintro ⟨result, d⟩ ⟨_, d'⟩ ⟨rfl, hd⟩
    have hshould : ∀ hadError, shouldFallback errorOnly d hadError =
        shouldFallback errorOnly d' hadError := by
      intro hadError
      rw [shouldFallback, shouldFallback]
      rcases hd.response_cases with ⟨hr, hr'⟩ | ⟨m, m', hr, hr', hm⟩
      · rw [hr, hr']
      · rw [hr, hr', Option.all_some, Option.all_some, view_answers hm]
    have hnext : ∀ hadError, Run.Sim f I L
        (if shouldFallback errorOnly d hadError then runFallback exec errorOnly rest d else .done d)
        (if shouldFallback errorOnly d' hadError
          then runFallback exec errorOnly rest d' else .done d') := by
      intro hadError
      rw [hshould]
      split
      · exact ih hd
      · exact Run.sim_done hd
    cases result with
    | ok u => exact hnext _
    | error stop =>
      cases stop with
      | error e => exact hnext _
      | outOfFuel => exact Run.sim_fail _ hd

end

/-- A plugin runs in step with itself on contexts that look the same. -/
theorem Plugin.execute_sim {env : Env} {reg : Registry} {I : World → Prop}
    {L : RateLimitPlugin → RateLimitPlugin → Prop} (henv : env.IdBlind f) (hL : LimiterSim I L) :
    ∀ (fuel : Nat) (plugin : Plugin) (c c' : Context), c.Same f c' →
      (plugin.execute env reg fuel c).Sim f I L (plugin.execute env reg fuel c') := by
  intro fuel
  induction fuel with
  | zero =>
    intro plugin c c' h
    exact Run.sim_fail _ h
  | succ fuel ih =>
    intro plugin c c' h
    cases plugin with
    | leaf l => exact l.execute_sim henv hL h
    | sequence tag steps => exact runSteps_sim ih fuel tag 0 steps h
    | fallback children errorOnly => exact runFallback_sim ih errorOnly children h

end Lazydns
