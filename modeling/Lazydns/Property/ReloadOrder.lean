import Mathlib.Data.Finset.Max
import Lazydns.Config.Reloader
import Lazydns.Lib.Slots

/-!
# Reloads that overtake one another

If of two reloads the one that has read the older file publishes last, the older configuration stays. So the shared configuration is the newest that has been published exactly if no load is published behind one that has read later and has another result; and then, once all reloads have ended, it is what the load that read last has made of the file.
-/

namespace Lazydns

namespace ConfigReloader

variable {Content Config : Type} {load : Load Content Config}

/-- The result of the last load that has one. -/
def newest (config : Config) (results : List (Except Error Config)) : Config :=
  results.foldl (fun config result => match result with
    | .ok newConfig => newConfig
    | .error _ => config) config

/-- The load read the file last of those that have been published. -/
def System.Newest (s : System Content Config) (read : Nat) : Prop :=
  read ∈ s.published ∧ ∀ read' ∈ s.published, read' ≤ read

/-- The configuration is the newest that has been published, and once all reloads have ended, the newest that has been loaded. -/
structure UpToDate (config : Config) (s : System Content Config) : Prop where
  initial : s.published = [] → s.config = config
  newest : ∀ read, s.Newest read → s.results[read]? = some (.ok s.config)
  settled : (∀ r ∈ s.reloads, r = .ended) → s.config = ConfigReloader.newest config s.results

/-- A load is not published behind one that has read later, unless it has the same result. -/
def InOrder (s : System Content Config) (e : Event Content) (_ : System Content Config) : Prop :=
  match e with
  | .publish i => ∀ newConfig read, s.reloads[i]? = some (.loaded newConfig read) →
      ∀ later, s.Newest later → read < later → s.results[later]? = some (.ok newConfig)
  | _ => True

/-! ### What each step keeps -/

/-- A result waits for the lock or has been published. -/
structure Inv (s : System Content Config) : Prop where
  loaded : ∀ newConfig read, .loaded newConfig read ∈ s.reloads → s.results[read]? = some (.ok newConfig)
  published : ∀ read ∈ s.published, ∃ newConfig, s.results[read]? = some (.ok newConfig)
  waits : ∀ newConfig read, s.results[read]? = some (.ok newConfig) →
    read ∈ s.published ∨ .loaded newConfig read ∈ s.reloads

theorem newest_cases (config : Config) (results : List (Except Error Config)) :
    (∃ read : Nat, results[read]? = some (.ok (newest config results)) ∧
      ∀ newConfig (later : Nat), results[later]? = some (.ok newConfig) → later ≤ read) ∨
      (∀ newConfig (read : Nat), results[read]? ≠ some (Except.ok newConfig)) ∧ newest config results = config := by
  induction results using List.reverseRecOn with
  | nil => exact .inr ⟨nofun, rfl⟩
  | append_singleton results result ih =>
    have hnewest : newest config (results ++ [result]) = match result with
        | .ok newConfig => newConfig
        | .error _ => newest config results := by
      rw [newest, List.foldl_append]
      rfl
    rw [hnewest]
    cases result with
    | ok newConfig =>
      refine .inl ⟨results.length, List.getElem?_concat_length, fun newConfig' later hlater => ?_⟩
      have hlength := (List.getElem?_eq_some_iff.mp hlater).1
      rw [List.length_append, List.length_singleton] at hlength
      omega
    | error e =>
      have hok : ∀ newConfig (read : Nat), (results ++ [Except.error e])[read]? = some (Except.ok newConfig) ↔
          results[read]? = some (Except.ok newConfig) := by
        intro newConfig read
        rw [Slots.getElem?_append_iff]
        exact or_iff_left nofun
      simp only [ne_eq, hok]
      exact ih

theorem settled_of_newest {config : Config} {s : System Content Config} (hinv : Inv s)
    (hinitial : s.published = [] → s.config = config)
    (hnewest : ∀ read, s.Newest read → s.results[read]? = some (.ok s.config)) (hended : ∀ r ∈ s.reloads, r = .ended) :
    s.config = newest config s.results := by
  have hall : ∀ newConfig read, s.results[read]? = some (.ok newConfig) → read ∈ s.published := fun newConfig read hread =>
    (hinv.waits newConfig read hread).resolve_right fun hmem => nomatch hended _ hmem
  rcases newest_cases config s.results with ⟨read, hread, hlast⟩ | ⟨hnone, hconfig⟩
  · have hpublished : ∀ later ∈ s.published, later ≤ read := by
      intro later hlater
      obtain ⟨newConfig, hresult⟩ := hinv.published later hlater
      exact hlast newConfig later hresult
    have hself := hnewest read ⟨hall _ read hread, hpublished⟩
    rw [hread] at hself
    exact (Except.ok.inj (Option.some.inj hself)).symm
  · rw [hconfig]
    refine hinitial (List.eq_nil_iff_forall_not_mem.mpr fun read hread => ?_)
    obtain ⟨newConfig, hresult⟩ := hinv.published read hread
    exact hnone newConfig read hresult

variable {s s' : System Content Config} {e : Event Content}

theorem step_cases (h : (machine load).step s e = some s') :
    (∃ file, e = .edit file ∧ s' = { s with file }) ∨
    (e = .reload ∧ s' = { s with reloads := s.reloads ++ [.started] }) ∨
    (∃ i error, e = .load i ∧ s.reloads[i]? = some .started ∧ load s.file = .error error ∧
      s' = { s with results := s.results ++ [.error error], reloads := s.reloads.set i .ended }) ∨
    (∃ i newConfig, e = .load i ∧ s.reloads[i]? = some .started ∧ load s.file = .ok newConfig ∧
      s' = { s with
        results := s.results ++ [.ok newConfig], reloads := s.reloads.set i (.loaded newConfig s.results.length) }) ∨
    ∃ i newConfig read, e = .publish i ∧ s.reloads[i]? = some (.loaded newConfig read) ∧
      s' = { s with config := newConfig, published := read :: s.published, reloads := s.reloads.set i .ended } := by
  cases e with
  | edit file => exact .inl ⟨file, rfl, (Option.some.inj h).symm⟩
  | reload => exact .inr (.inl ⟨rfl, (Option.some.inj h).symm⟩)
  | load i =>
    simp only [machine, step] at h
    split at h
    · rename_i hi
      cases hload : load s.file with
      | error error =>
        rw [hload] at h
        exact .inr (.inr (.inl ⟨i, error, rfl, hi, rfl, (Option.some.inj h).symm⟩))
      | ok newConfig =>
        rw [hload] at h
        exact .inr (.inr (.inr (.inl ⟨i, newConfig, rfl, hi, rfl, (Option.some.inj h).symm⟩)))
    · cases h
  | publish i =>
    simp only [machine, step] at h
    split at h
    · rename_i newConfig read hi
      exact .inr (.inr (.inr (.inr ⟨i, newConfig, read, rfl, hi, (Option.some.inj h).symm⟩)))
    · cases h

theorem inv_step (hinv : Inv s) (hstep : (machine load).step s e = some s') : Inv s' := by
  have hpublished : ∀ result, ∀ read ∈ s.published, ∃ newConfig, (s.results ++ [result])[read]? = some (.ok newConfig) := by
    intro result read hread
    obtain ⟨newConfig, hresult⟩ := hinv.published read hread
    exact ⟨newConfig, Slots.getElem?_append_iff.mpr (.inl hresult)⟩
  have hkept : ∀ {i : Nat} {newConfig : Config} {read : Nat} (r : Reload Config), s.reloads[i]? = some .started →
      .loaded newConfig read ∈ s.reloads → .loaded newConfig read ∈ s.reloads.set i r := by
    intro i newConfig read r hi hmem
    exact Slots.mem_set_of_ne hi hmem nofun r
  rcases step_cases hstep with ⟨file, -, rfl⟩ | ⟨-, rfl⟩ | ⟨i, error, -, hi, -, rfl⟩ | ⟨i, newConfig, -, hi, -, rfl⟩ |
    ⟨i, newConfig, read, -, hi, rfl⟩
  · exact ⟨hinv.loaded, hinv.published, hinv.waits⟩
  · refine ⟨fun newConfig read hmem => ?_, hinv.published, fun newConfig read hread => ?_⟩
    · rcases List.mem_append.mp hmem with hold | hnew
      · exact hinv.loaded newConfig read hold
      · cases List.mem_singleton.mp hnew
    · exact (hinv.waits newConfig read hread).imp_right (List.mem_append_left _)
  · refine ⟨fun newConfig read hmem => ?_, hpublished _, fun newConfig read hread => ?_⟩
    · rcases List.mem_or_eq_of_mem_set hmem with hold | hnew
      · exact Slots.getElem?_append_iff.mpr (.inl (hinv.loaded newConfig read hold))
      · cases hnew
    · rcases Slots.getElem?_append_iff.mp hread with hold | ⟨-, hnew⟩
      · exact (hinv.waits newConfig read hold).imp id (hkept _ hi)
      · cases hnew
  · refine ⟨fun newConfig' read hmem => ?_, hpublished _, fun newConfig' read hread => ?_⟩
    · rcases List.mem_or_eq_of_mem_set hmem with hold | hnew
      · exact Slots.getElem?_append_iff.mpr (.inl (hinv.loaded newConfig' read hold))
      · cases hnew
        exact List.getElem?_concat_length
    · rcases Slots.getElem?_append_iff.mp hread with hold | ⟨rfl, hnew⟩
      · exact (hinv.waits newConfig' read hold).imp id (hkept _ hi)
      · cases hnew
        exact .inr (List.mem_set (List.getElem?_eq_some_iff.mp hi).1 _)
  · refine ⟨fun newConfig' read' hmem => ?_, ?_, fun newConfig' read' hread => ?_⟩
    · rcases List.mem_or_eq_of_mem_set hmem with hold | hnew
      · exact hinv.loaded newConfig' read' hold
      · cases hnew
    · exact List.forall_mem_cons.mpr ⟨⟨newConfig, hinv.loaded _ _ (List.mem_of_getElem? hi)⟩, hinv.published⟩
    · by_cases heq : read' = read
      · exact .inl (heq ▸ List.mem_cons_self)
      · refine (hinv.waits newConfig' read' hread).imp (List.mem_cons_of_mem _) fun hmem => Slots.mem_set_of_ne hi hmem ?_ _
        rintro ⟨⟩
        exact heq rfl

theorem upToDate_step {config : Config} (hinv : Inv s) (h : UpToDate config s) (hstep : (machine load).step s e = some s') :
    UpToDate config s' ↔ InOrder s e s' := by
  have hdate : (s'.published = [] → s'.config = config) →
      (∀ read, s'.Newest read → s'.results[read]? = some (.ok s'.config)) → UpToDate config s' := fun hinitial hnewest =>
    ⟨hinitial, hnewest, settled_of_newest (inv_step hinv hstep) hinitial hnewest⟩
  rcases step_cases hstep with ⟨file, rfl, rfl⟩ | ⟨rfl, rfl⟩ | ⟨i, error, rfl, hi, -, rfl⟩ | ⟨i, newConfig, rfl, hi, -, rfl⟩ |
    ⟨i, newConfig, read, rfl, hi, rfl⟩
  · exact iff_of_true (hdate h.initial h.newest) trivial
  · exact iff_of_true (hdate h.initial h.newest) trivial
  · exact iff_of_true (hdate h.initial fun read hread => Slots.getElem?_append_iff.mpr (.inl (h.newest read hread))) trivial
  · exact iff_of_true (hdate h.initial fun read hread => Slots.getElem?_append_iff.mpr (.inl (h.newest read hread))) trivial
  · constructor
    · intro h' newConfig' read' hi' later hlater hlt
      rw [hi] at hi'
      cases hi'
      exact h'.newest later ⟨List.mem_cons_of_mem _ hlater.1, List.forall_mem_cons.mpr ⟨hlt.le, hlater.2⟩⟩
    · intro horder
      refine hdate nofun fun later hlater => ?_
      obtain ⟨hle, hall⟩ := List.forall_mem_cons.mp hlater.2
      rcases List.mem_cons.mp hlater.1 with rfl | hmem
      · exact hinv.loaded newConfig _ (List.mem_of_getElem? hi)
      · rcases hle.eq_or_lt with rfl | hlt
        · exact hinv.loaded newConfig _ (List.mem_of_getElem? hi)
        · exact horder newConfig read hi later ⟨hmem, hall⟩ hlt

/-- In every run the configuration is up to date in each state exactly if the loads are published in order. -/
theorem upToDate_iff (load : Load Content Config) (file : Content) (config : Config) (es : List (Event Content)) :
    (machine load).Each (fun _ _ s' => UpToDate config s') (.new file config) es ↔
      (machine load).Each InOrder (.new file config) es := by
  have hnew : Inv (System.new file config) := ⟨nofun, nofun, nofun⟩
  have hdate : UpToDate config (System.new file config) := ⟨fun _ => rfl, fun _ hread => (List.not_mem_nil hread.1).elim, fun _ => rfl⟩
  exact Machine.each_state_iff (fun s e s' hinv h hstep => ⟨inv_step hinv hstep, upToDate_step hinv h hstep⟩) hnew hdate

/-- The file is edited between two loads, and the first of them is published last. -/
theorem not_upToDate_overtaken :
    ∃ s, (machine .ok).run (.new "old" "old") [.reload, .reload, .load 0, .edit "new", .load 1, .publish 1, .publish 0] = some s ∧
      s.reloads = [.ended, .ended] ∧ s.config = "old" ∧ newest "old" s.results = "new" ∧ ¬UpToDate "old" s := by
  refine ⟨_, rfl, rfl, rfl, rfl, fun h => ?_⟩
  exact absurd (h.settled (by decide)) (by decide)

end ConfigReloader

end Lazydns
