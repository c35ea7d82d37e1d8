import Tako.InstanceRolloutBatches

/-! The cutover of a rolling update, and the old instances after it. -/
namespace Tako.Instances
open Tasks List Function
namespace Rollout
open Operation
variable {u : Rollout} {done : List InstanceId} {a : App}
  {made : Log} {i : InstanceId} {α : Type} {Q : α → App → Log → Prop}

/-- The update after its cutover, when some of the old instances are gone. -/
structure CutOver (u : Rollout) (done : List InstanceId) (a : App) (made : Log) : Prop where
  instances : a.instances = u.before.instances.filter (· ∉ done) ++ u.fresh
  unsuppressed : ∀ i ∈ u.fresh, i ∉ a.routingSuppressed
  routed : ∀ i ∈ a.routed, u.before.allocated ≤ i → i ∈ u.fresh
  served : ∃ i ∈ u.fresh, i ∈ a.routed
  started : ∀ i ∈ u.fresh, StartedFrom u.config (a.objects i)
  stopped : ∀ i ∈ done,
    (a.stateOf i = .stopped ∧ (a.objects i).process = none) ∨ i ∈ a.stopFailures
  old : ∀ i ∈ done, i < u.before.allocated
  cut : cutovers made ≠ [] ∧ ∀ b ∈ cutovers made, b.routed = u.before.routed ++ u.fresh
  survived : ∀ i ∈ u.fresh, Survived u.r (observed made) i

theorem mem_fresh : i ∈ u.fresh ↔ u.before.allocated ≤ i ∧ i < u.before.allocated + u.target := by
  simp [fresh, mem_range'_1]

theorem notMem_fresh (h : i < u.before.allocated) : i ∉ u.fresh :=
  fun hfresh => Nat.not_lt_of_le (mem_fresh.mp hfresh).1 h

variable {p : Call} {r : p.Reply}
namespace CutOver
section
variable (h : u.CutOver done a made)
include h
theorem serving : u.Serving a made :=
  ⟨fun hcut => absurd hcut h.cut.1, h.cut.2, fun _ => h.served, fun _ => h.survived⟩

theorem modify {f : Instance → Instance}
    (hversion : ∀ instance_, (f instance_).buildVersion = instance_.buildVersion)
    (hprocess : i ∈ u.fresh → ∀ instance_,
      (f instance_).process.map Child.startedFrom = instance_.process.map Child.startedFrom)
    (hstopped : i ∈ done → ∀ instance_,
      (f instance_).state = instance_.state ∧ (f instance_).process = instance_.process) :
    u.CutOver done (a.modify i f) made where
  __ := h
  started j hj := by
    obtain ⟨hbuilt, hattached⟩ := h.started j hj
    exact ⟨App.modify_kept _ hbuilt fun _ => hversion,
      App.modify_kept (·.process.map _) hattached fun hji => hprocess (hji ▸ hj)⟩
  stopped j hj := by
    refine (h.stopped j hj).imp_left fun ⟨hstate, hprocess⟩ => ⟨?_, ?_⟩
    · exact App.modify_kept _ hstate fun hji x => (hstopped (hji ▸ hj) x).1
    · exact App.modify_kept _ hprocess fun hji x => (hstopped (hji ▸ hj) x).2

theorem of_made {b : App} (hcut : cutover ⟨p, r, b⟩ = none)
    (hlook : ∀ i s, observation p r ≠ some (.look i s)) :
    u.CutOver done a (made ++ [⟨p, r, b⟩]) := by
  have hcutovers : cutovers (made ++ [⟨p, r, b⟩]) = cutovers made := by
    rw [cutovers_append, hcut]
    simp
  refine { h with cut := hcutovers ▸ h.cut, survived := fun i hi => ?_ }
  obtain ⟨hfine, hspans⟩ := h.survived i hi
  rw [observed_append]
  refine ⟨fun s hs => (mem_append.mp hs).elim (hfine s) fun hs => ?_, fun hwindow => ?_⟩
  · exact absurd (Option.mem_toList.mp hs) (hlook i s)
  · exact (hspans hwindow).append _

theorem removeHealthyInstance (hserved : ∃ j ∈ u.fresh, j ∈ a.routed ∧ j ≠ i) :
    u.CutOver done (a.removeHealthyInstance i) made where
  __ := h
  routed k hk hle := h.routed k (App.mem_routed_removeHealthyInstance.mp hk).1 hle
  served := by
    obtain ⟨j, hj, hlisted⟩ := hserved
    exact ⟨j, hj, App.mem_routed_removeHealthyInstance.mpr hlisted⟩

theorem setInstanceHealthState (hi : i ∈ u.fresh) {s : InstanceState}
    (hleaves : s = .healthy ∨ ∃ j ∈ a.routed, u.before.allocated ≤ j ∧ j ≠ i) :
    u.CutOver done (a.setInstanceHealthState i s).2 made := by
  have hnot : i ∉ done := fun hmem => notMem_fresh (h.old i hmem) hi
  simp only [App.setInstanceHealthState]
  split_ifs
  · exact h
  have hset : u.CutOver done (a.setState i s) made :=
    h.modify (fun _ => rfl) (fun _ _ => rfl) fun hmem => absurd hmem hnot
  simp only [App.setInstanceStateLocked]
  split_ifs with hsame hhealthy hwas his
  · refine { hset with routed := ?_, served := ?_ }
    · rw [App.routed_refreshHealthyInstance]
      exact hset.routed
    · rw [App.routed_refreshHealthyInstance]
      exact hset.served
  · exact hset
  · -- the instance leaves the list, so a check that is considerate leaves another
    obtain his | ⟨j, hj, hle, hne⟩ := hleaves
    · exact absurd (hwas.trans his.symm) hsame
    exact hset.removeHealthyInstance ⟨j, h.routed j hj hle, hj, hne⟩
  · have hopen : i ∉ (a.setState i s).routingSuppressed := hset.unsuppressed i hi
    rw [App.addHealthyInstance, if_neg hopen]
    unfold App.pushHealthyInstance
    split_ifs with hlisted
    · exact hset
    · refine { hset with routed := ?_, served := ?_ }
      · intro k hk hle
        simp only [App.routed, map_append, mem_append] at hk
        obtain hk | hk := hk
        · exact hset.routed k hk hle
        · simp only [map_cons, map_nil, mem_singleton] at hk
          exact hk ▸ hi
      · obtain ⟨j, hj, hmem⟩ := hset.served
        refine ⟨j, hj, ?_⟩
        simp only [App.routed, map_append, mem_append]
        exact .inl hmem
  · exact hset
end

theorem steady [hbefore : Fact u.before.Numbered] : u.Steady (u.CutOver done) := by
  refine steady_of (fun a made i s h hle _ hC => ?_) (fun a made i f h hkept hprocess => ?_)
    fun a made now h => { h with }
  · have hmem : i ∈ u.before.instances.filter (· ∉ done) ++ u.fresh := h.instances ▸ hC.1
    obtain hold | hnew := mem_append.mp hmem
    · have hlt := hbefore.out.instances i (mem_filter.mp hold).1
      exact absurd hlt (Nat.not_lt_of_le hle)
    · exact h.setInstanceHealthState hnew (hC.2 h.cut.1)
  · refine h.modify (fun x => (hkept x).1) (fun _ x => (hkept x).2.2) fun hmem x => ?_
    refine ⟨(hkept x).2.1, hprocess.elim (fun hle => ?_) fun hsame => hsame x⟩
    exact absurd (h.old i hmem) (Nat.not_lt_of_le hle)
end CutOver

section
/-- While an old instance is being killed, it is at least where its trail is. -/
def Retiring (u : Rollout) (done : List InstanceId) (i : InstanceId) (t : Trail) (a : App)
    (made : Log) : Prop :=
  u.CutOver done a made ∧ (t.attached = false → (a.objects i).process = none) ∧
    (t.state = .stopped → a.stateOf i = .stopped)

theorem objects_setInstanceHealthState {j : InstanceId} (hji : i ≠ j) (s : InstanceState) :
    (a.setInstanceHealthState j s).2.objects i = a.objects i := by
  have hadd (b : App) : (b.addHealthyInstance j).objects = b.objects := by
    unfold App.addHealthyInstance App.pushHealthyInstance
    split_ifs <;> rfl
  have hset : (a.setState j s).objects i = a.objects i := by
    simp only [App.setState, App.modify, update_of_ne hji]
  simp only [App.setInstanceHealthState, App.setInstanceStateLocked]
  split_ifs
  · rfl
  · exact hset
  · exact hset
  · exact hset
  · rw [hadd]
    exact hset
  · exact hset

variable {t : Trail}
theorem Retiring.steady [Fact u.before.Numbered] (hi : i < u.before.allocated) :
    u.Steady (u.Retiring done i t) := by
  have hobject (x : Instance) : u.Steady fun a _ => (x.state = (a.objects i).state ∧
      x.process = (a.objects i).process) := by
    refine steady_of (fun a made j s h hle _ _ => ?_) (fun a made j f h hkept hprocess => ?_)
      fun _ _ _ h => h
    · rwa [objects_setInstanceHealthState (Nat.ne_of_lt (Nat.lt_of_lt_of_le hi hle))]
    · by_cases hij : i = j
      · subst hij
        have hsame := hprocess.resolve_left (Nat.not_le_of_lt hi)
        simp only [App.modify, update_self, (hkept _).2.1, hsame]
        exact h
      · simpa only [App.modify, update_of_ne hij] using h
  intro o a a' made h hC ho
  obtain ⟨hstate, hprocess⟩ := hobject (a.objects i) o a a' made ⟨rfl, rfl⟩ hC ho
  refine ⟨CutOver.steady o a a' made h.1 hC ho, fun hgone => ?_, fun hstopped => ?_⟩
  · exact hprocess ▸ h.2.1 hgone
  · exact hstate.symm.trans (h.2.2 hstopped)

variable (hold : i < u.before.allocated) (hi : i ∉ done)
include hold hi
/-- A call about an old instance leaves the new ones as they are. -/
theorem CutOver.works {a' : App} (h : u.CutOver done a made) (hp : p.Works i t)
    (hperform : perform p a = some (r, a')) :
    u.CutOver done a' (made ++ [⟨p, r, a'⟩]) := by
  obtain ⟨f, events, healthy, rfl, _, hothers, hf⟩ := adjusts hp hperform
  obtain ⟨hcut, hnone⟩ := unobserved (r := r)
    (a := { a.modify i f with events := events, healthyInstances := healthy }) hp
  have hmodify : u.CutOver done (a.modify i f) made := by
    refine h.modify (fun x => (hf x).1) (fun hfresh => ?_) fun hmem => absurd hmem hi
    exact absurd hfresh (notMem_fresh hold)
  refine CutOver.of_made ?_ hcut fun _ _ hlook => ?_
  · refine { hmodify with routed := fun j hj hle => ?_, served := ?_ }
    · have hne : j ≠ i := (Nat.lt_of_lt_of_le hold hle).ne'
      exact h.routed j ((hothers j hne).mp hj) hle
    · obtain ⟨j, hj, hmem⟩ := h.served
      have hne : j ≠ i := fun hji => notMem_fresh hold (hji ▸ hj)
      exact ⟨j, hj, (hothers j hne).mpr hmem⟩
  · rw [hnone] at hlook
    cases hlook

theorem Retiring.works {a' : App} (h : u.Retiring done i t a made) (hp : p.Works i t)
    (hperform : perform p a = some (r, a')) :
    u.Retiring done i (t.next p r) a' (made ++ [⟨p, r, a'⟩]) := by
  refine ⟨h.1.works hold hi hp hperform, ?_⟩
  obtain ⟨f, _, _, rfl, _, _, hf⟩ := adjusts hp hperform
  obtain ⟨_, hstate, hprocess⟩ := hf (a.objects i)
  simp only [App.stateOf, App.modify, update_self, Trail.next]
  constructor
  · intro hgone
    rw [← Option.map_eq_none_iff, hprocess]
    cases hchange : p.process with
    | none =>
      rw [hchange] at hgone
      simp [h.2.1 hgone]
    | some process =>
      rw [hchange] at hgone
      simpa using hgone
  · intro hstopped
    rw [hstate]
    cases hchange : p.stateSet with
    | none =>
      rw [hchange] at hstopped
      exact h.2.2 hstopped
    | some s =>
      rw [hchange] at hstopped
      exact hstopped

end

variable {seen : List Observation}
theorem CutOver.removes (h : u.CutOver done a made) (hmem : i ∈ u.before.instances)
    (hold : i < u.before.allocated)
    (hstopped : (a.stateOf i = .stopped ∧ (a.objects i).process = none) ∨ i ∈ a.stopFailures) :
    u.CutOver (done ++ [i]) (a.removeInstance i).2 made := by
  have hfresh {j : InstanceId} (hj : j ∈ u.fresh) : j ≠ i := by
    rintro rfl
    exact notMem_fresh hold hj
  have hfilter : u.before.instances.filter (· ∉ done ++ [i]) =
      (u.before.instances.filter (· ∉ done)).filter (· ≠ i) := by
    rw [filter_filter]
    apply filter_congr
    intro j _
    simp [Bool.and_comm]
  have hkeep := filter_ne_of_notMem fun hi => hfresh hi rfl
  have hstop := forall_mem_append.mpr ⟨h.stopped, forall_mem_singleton.mpr hstopped⟩
  have hlt := forall_mem_append.mpr ⟨h.old, forall_mem_singleton.mpr hold⟩
  unfold App.removeInstance
  split_ifs with hreg
  · have hleft : u.CutOver (done ++ [i]) ((a.unregister i).unsuppress i) made := by
      refine { h with instances := ?_, unsuppressed := fun j hj hs => ?_, stopped := hstop
                      old := hlt }
      · change a.instances.filter (· ≠ i) = _
        rw [h.instances, filter_append, hkeep, hfilter]
      · exact h.unsuppressed j hj (App.mem_unsuppress.mp hs).1
    obtain ⟨j, hj, hlisted⟩ := h.served
    exact hleft.removeHealthyInstance ⟨j, hj, hlisted, hfresh hj⟩
  · refine { h with instances := ?_, stopped := hstop, old := hlt }
    have hgone : i ∉ u.before.instances.filter (· ∉ done) := fun hin =>
      hreg (h.instances ▸ mem_append_left _ hin)
    rw [h.instances, hfilter, filter_ne_of_notMem hgone]

theorem stopFailures_setInstanceHealthState (a : App) (j : InstanceId) (s : InstanceState) :
    (a.setInstanceHealthState j s).2.stopFailures = a.stopFailures := by
  have hadd (b : App) : (b.addHealthyInstance j).stopFailures = b.stopFailures := by
    unfold App.addHealthyInstance App.pushHealthyInstance
    split_ifs <;> rfl
  simp only [App.setInstanceHealthState, App.setInstanceStateLocked]
  split_ifs
  all_goals first | rfl | exact hadd _

/-- The old instance was killed, or the log says that it could not be. -/
def Given (u : Rollout) (done : List InstanceId) (i : InstanceId) (a : App) (made : Log) : Prop :=
  u.CutOver done a made ∧
    ((a.stateOf i = .stopped ∧ (a.objects i).process = none) ∨ i ∈ a.stopFailures)

variable [hbefore : Fact u.before.Numbered]
theorem Given.steady (hold : i < u.before.allocated) : u.Steady (u.Given done i) := by
  have hfailure : u.Steady fun a _ => i ∈ a.stopFailures := by
    refine steady_of (fun a made j s h _ _ _ => ?_) (fun _ _ _ _ h _ _ => h) fun _ _ _ h => h
    rwa [stopFailures_setInstanceHealthState]
  intro o a a' made h hC ho
  obtain ⟨hcut, hstopped | hlogged⟩ := h
  · have hkept : u.Retiring done i { attached := false, state := .stopped } a' made :=
      Retiring.steady hold o a a' made ⟨hcut, fun _ => hstopped.2, fun _ => hstopped.1⟩ hC ho
    exact ⟨hkept.1, .inl ⟨hkept.2.2 rfl, hkept.2.1 rfl⟩⟩
  · exact ⟨CutOver.steady o a a' made hcut hC ho,
      .inr (hfailure o a a' made hlogged hC ho)⟩

def Begun (u : Rollout) (a : App) (made : Log) : Prop :=
  u.Growing 0 [] [] [] { a with config := u.config } made

theorem Begun.serving (h : u.Begun a made) : u.Serving a made :=
  { Growing.serving h with }

theorem Begun.steady : u.Steady u.Begun := by
  refine steady_of (fun a made i s h hle _ hC => ?_) (fun a made i f h hkept _ => ?_)
    fun a made now h => Growing.of_now h now
  · have hmem : i ∈ u.before.instances ++ [] := h.instances ▸ hC.1
    rw [append_nil] at hmem
    exact absurd (hbefore.out.instances i hmem) (Nat.not_lt_of_le hle)
  · exact Growing.modify (i := i) (f := f) h (fun x => (hkept x).1) nofun

def Ended (u : Rollout) (result : RollingUpdateResult) (a : App) (made : Log) : Prop :=
  (result.success = false ∧ u.Undone a made) ∨
    (result.success = true ∧ ∃ old, old.Perm u.before.instances ∧ u.CutOver old a made)

variable {result : RollingUpdateResult}
omit hbefore in
theorem Ended.settled (h : u.Ended result a made) : u.Settled result a := by
  obtain ⟨hfalse, _, _, ha⟩ | ⟨htrue, old, hold, ha⟩ := h
  · have hcontra {p : Prop} (htrue : result.success = true) : p := by
      rw [hfalse] at htrue
      cases htrue
    refine ⟨fun _ => ⟨?_, ha.healthyInstances⟩, hcontra, hcontra, hcontra⟩
    rw [ha.instances, append_nil]
  · refine ⟨fun hfalse => ?_, fun _ => ?_, fun _ => ha.started, fun _ i hi => ?_⟩
    · rw [hfalse] at htrue
      cases htrue
    · have hnone : u.before.instances.filter (· ∉ old) = [] := by
        simpa [filter_eq_nil_iff] using fun i => hold.mem_iff.mpr
      rw [ha.instances, hnone, nil_append]
    · exact ha.stopped i (hold.mem_iff.mpr hi)

def calls (n : ℕ) : List (Move Outside) := List.replicate n (.own 0)

def launch : List (Move Outside) := calls 4 ++ .own 8080 :: calls 5 ++ .own 1 :: calls 9

def launched : List (Move Outside) := calls 3 ++ launch ++ launch

/-- Two rounds of looks, eight seconds apart. -/
def stable : List (Move Outside) :=
  .own 0 :: .own 2 :: calls 3 ++ .other (.tick 8000) :: calls 4

/-- The first new instance turns unhealthy in its window and its container cannot be
removed. The rollback takes the instance off the list of those withheld all the same. A
check under way finds it healthy again while the second one is still being killed. -/
def rolledBack : List (Move Outside) :=
  launched ++ .other (.check 1 .unhealthy) :: .own 0 :: .own 1 :: calls 4 ++ .own 1 :: calls 2 ++
    .other (.check 1 .healthy) :: .other (.exit 2) :: calls 12

end Rollout
end Tako.Instances
