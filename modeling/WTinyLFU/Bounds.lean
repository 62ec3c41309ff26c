import WTinyLFU.Persistence
import WTinyLFU.Sizing

/-! Two bounds on the tuning members over whole runs. `lruRefreshTime_` is always the refresh
time of the installed config or one that `reconfigureLocked` computed, and those lie between the
smaller of the default refresh time and `kLruRefreshTimeCap`, and the cap. `capacity_` never
falls without a restart, and each rebuild of the sketch by `add` at least doubles it, so a run
that ends at capacity `C` from capacity `C₀` rebuilds at most `log₂ (C / C₀)` times. -/
namespace WTinyLFU
namespace Container
variable {α : Type} [DecidableEq α] {c c' : Container α}

/-- `lruRefreshTime_` is the installed config's, or a value `reconfigureLocked` can install:
at least the smaller of the default and the cap, and at most the cap. -/
def RefreshBounded (c : Container α) : Prop :=
  c.lruRefreshTime = c.config.lruRefreshTime ∨
    (min c.config.defaultLruRefreshTime kLruRefreshTimeCap ≤ c.lruRefreshTime ∧
      c.lruRefreshTime ≤ kLruRefreshTimeCap)

/-- Raising to a default and then capping lands between the smaller of the two and the cap. -/
theorem min_max_bounds (d x k : UInt32) : min d k ≤ min (max d x) k ∧ min (max d x) k ≤ k := by
  show (if d ≤ k then d else k) ≤
      (if (if d ≤ x then x else d) ≤ k then (if d ≤ x then x else d) else k) ∧
    (if (if d ≤ x then x else d) ≤ k then (if d ≤ x then x else d) else k) ≤ k
  simp only [UInt32.le_def, BitVec.le_def]
  split_ifs <;> omega

omit [DecidableEq α] in
theorem RefreshBounded.of_eq (h : c.RefreshBounded) (hr : c'.lruRefreshTime = c.lruRefreshTime)
    (hc : c'.config = c.config) : c'.RefreshBounded := by
  rwa [RefreshBounded, hr, hc]

omit [DecidableEq α] in
theorem RefreshBounded.of_tuning (h : c.RefreshBounded) (ht : c'.tuning = c.tuning) :
    c'.RefreshBounded :=
  h.of_eq (congrArg Tuning.lruRefreshTime ht) (congrArg Tuning.config ht)

omit [DecidableEq α] in
theorem RefreshBounded.reconfigureLocked (h : c.RefreshBounded) (t u : Time) :
    (c.reconfigureLocked t u).RefreshBounded := by
  rw [RefreshBounded, reconfigureLocked_lruRefreshTime, reconfigureLocked_config]
  split_ifs
  · exact h
  · exact .inr (min_max_bounds _ _ _)

theorem addLocked_lruRefreshTime (c : Container α) (n : α) (t : Time) :
    (c.addLocked n t).lruRefreshTime = c.lruRefreshTime := by
  obtain ⟨c₁, h₁, -, -, he⟩ := addLocked_eq_grow c n t
  have hr : c₁.lruRefreshTime = c.lruRefreshTime := congrArg Tuning.lruRefreshTime h₁
  simp [he, unmarkAccessed, markInMMContainer, setUpdateTime, setFlag, unSetFlag, hr]

omit [DecidableEq α] in
/-- A container a constructor builds, or a restore, holds the config's refresh time. -/
theorem restore_refreshBounded {object : MMTinyLFUObject α} {nodes : α → Node}
    {index : Nat → Nat → Nat → Nat} {now : Time} (h : restore object nodes index now = .ok c) :
    c.RefreshBounded := by
  obtain ⟨config, -, rfl⟩ := restore_eq_ok h
  exact .inl (by simp [fresh])

end Container

namespace System
variable {α : Type} [DecidableEq α] {s : System α}

open Container

theorem refreshBounded_step (h : s.c.RefreshBounded) (a : Action α) :
    (s.step a).c.RefreshBounded := by
  rcases step_cases s a with ⟨he, -⟩ | ⟨n, now, rfl, -, -, -, he⟩ | ⟨n, rfl, -, -, he⟩ |
    ⟨o, n, rfl, -, -, he⟩ | ⟨n, mode, now, statNow, ok, rfl, -, he⟩ |
    ⟨n, mode, now, statNow, ok, rfl, -, -, he⟩ | ⟨n, now, statNow, rfl, -, -, he⟩ |
    ⟨n, now, statNow, rfl, -, -, he⟩ | ⟨config, now, rfl, -, he⟩ |
    ⟨o, now, rfl, -, hr⟩ | ⟨it, m, rfl, -, -, -, he⟩ <;> (try rw [he])
  · exact h
  · exact h.of_eq (addLocked_lruRefreshTime _ _ _) (addLocked_config _ _ _)
  · exact h.of_tuning (tuning_removeLocked _ _)
  · exact h.of_tuning (tuning_replaceLocked _ _ _)
  · exact h
  · have h₁ : (s.c.markAccessed n).RefreshBounded := h.of_tuning rfl
    exact (h₁.reconfigureLocked now statNow).of_tuning (tuning_recordAccessLocked _ _ _)
  · exact (h.reconfigureLocked now statNow).of_tuning (tuning_recordAccessLocked _ _ _)
  · exact h.reconfigureLocked now statNow
  · exact .inl rfl
  · exact restore_refreshBounded hr
  · exact h.of_tuning (tuning_removeLocked _ _)

/-- The sketch rebuilds along a run. -/
def rebuildCount (s : System α) : List (Action α) → Nat
  | [] => 0
  | a :: acts => (if s.rebuildsSketch a then 1 else 0) + (s.step a).rebuildCount acts

/-- An action other than a restart keeps `capacity_`, and a rebuild at least doubles it. -/
theorem capacity_step (hw : s.c.Wf) {a : Action α} (ha : ∀ o t, a ≠ .restore o t) :
    2 ^ (if s.rebuildsSketch a then 1 else 0) * s.c.capacity ≤ (s.step a).c.capacity := by
  rcases step_sizing_cases s a with ⟨n, now, rfl, hin, hr, he⟩ | ⟨o, now, rfl, -⟩ | ⟨hr, hk⟩
  · have hsize := addLocked_size (n := n) hw.toSegWf (t := now)
      (fun hm => by simp [(hw.inMM_iff n).mpr hm] at hin)
    rw [hr, he, (addLocked_sizing s.c n now).1, hsize]
    by_cases hlt : s.c.size + 1 < 2 * s.c.capacity
    · rw [if_pos hlt, decide_eq_false (by omega)]
      simp
    · rw [if_neg hlt, decide_eq_true (by omega)]
      simp only [↓reduceIte, pow_one]
      exact (by omega : 2 * s.c.capacity ≤ s.c.size + 1).trans (le_max_left _ _)
  · exact absurd rfl (ha o now)
  · simp [hr, hk.capacity_eq]

end System

open System

/-- In every reachable state `lruRefreshTime_` is the refresh time of the installed config, or
lies between the smaller of the config's default refresh time and `kLruRefreshTimeCap`, and the
cap. -/
theorem refresh_time_bounded {α : Type} [DecidableEq α] {s : System α} (hs : Reachable s) :
    s.c.lruRefreshTime = s.c.config.lruRefreshTime ∨
      (min s.c.config.defaultLruRefreshTime Container.kLruRefreshTimeCap ≤ s.c.lruRefreshTime ∧
        s.c.lruRefreshTime ≤ Container.kLruRefreshTimeCap) := by
  induction hs with
  | init config nodes index now => exact .inl rfl
  | step a _ ih => exact refreshBounded_step ih a

/-- A default refresh time of 1000 seconds: the first due reconfiguration installs the cap of
900, below the config's own refresh time. -/
theorem refresh_time_bounded_after_reconfigure :
    let s := (System.init ({ defaultLruRefreshTime := 1000, mmReconfigureIntervalSecs := 1 } :
      Config) (fun n : Nat => ⟨fun _ => false, 0, n⟩) (fun _ _ h => h) 0).run
      [.add 0 0, .recordAccess 0 .read 1 1 true]
    Reachable s ∧ s.c.lruRefreshTime = 900 ∧ s.c.config.lruRefreshTime = 1000 ∧
      (s.c.lruRefreshTime = s.c.config.lruRefreshTime ∨
        (min s.c.config.defaultLruRefreshTime Container.kLruRefreshTimeCap ≤ s.c.lruRefreshTime ∧
          s.c.lruRefreshTime ≤ Container.kLruRefreshTimeCap)) := by
  intro s
  have hs : Reachable s := (Reachable.init _ _ _ _ fun _ _ => rfl).run _
  have hc : s.c = (((Container.new { defaultLruRefreshTime := 1000, mmReconfigureIntervalSecs := 1 }
      (fun n : Nat => ⟨fun _ => false, 0, n⟩) (fun _ _ h => h) 0).add 0 0).2.recordAccess 0 .read
      1 1 true).2 := by
    simp only [s, System.run, List.foldl, System.step, System.withLock, System.init,
      Option.isNone_none, Bool.and_true, ↓reduceIte]
  have h₁ : (((Container.new { defaultLruRefreshTime := 1000, mmReconfigureIntervalSecs := 1 }
      (fun n : Nat => ⟨fun _ => false, 0, n⟩) (fun _ _ h => h) 0).add 0 0).2.recordAccess 0 .read
      1 1 true).1 = true := by decide
  refine ⟨hs, ?_, rfl, refresh_time_bounded hs⟩
  rw [hc, (Container.recordAccess_of_fst h₁).2, Container.recordAccessLocked_lruRefreshTime,
    Container.reconfigureLocked_lruRefreshTime_of_cap (by decide) (by decide)]
  rfl

/-- Along every run from a reachable state with no restart, `capacity_` never falls and each
sketch rebuild at least doubles it: `2 ^ k · capacity_` at the start is at most `capacity_` at
the end, where `k` counts the rebuilds. -/
theorem capacity_doubles_per_rebuild {α : Type} [DecidableEq α] {s : System α}
    (hs : Reachable s) (acts : List (Action α)) (hr : ∀ a ∈ acts, ∀ o t, a ≠ .restore o t) :
    2 ^ s.rebuildCount acts * s.c.capacity ≤ (s.run acts).c.capacity := by
  induction acts generalizing s with
  | nil => simp [rebuildCount, run]
  | cons a acts ih =>
    have h₁ := capacity_step hs.wf (hr a (List.mem_cons_self a acts))
    have h₂ := ih (hs.step a) fun b hb => hr b (List.mem_cons_of_mem a hb)
    calc 2 ^ s.rebuildCount (a :: acts) * s.c.capacity
        = 2 ^ (s.step a).rebuildCount acts *
            (2 ^ (if s.rebuildsSketch a then 1 else 0) * s.c.capacity) := by
          rw [rebuildCount, pow_add, Nat.mul_comm (2 ^ _) (2 ^ _), Nat.mul_assoc]
      _ ≤ 2 ^ (s.step a).rebuildCount acts * (s.step a).c.capacity := Nat.mul_le_mul_left _ h₁
      _ ≤ (s.run (a :: acts)).c.capacity := h₂

/-- Two hundred adds to a new container, whose sketch is sized for a hundred entries. -/
theorem capacity_doubles_per_rebuild_two_hundred_adds :
    let s := System.init ({} : Config) (fun n : Nat => ⟨fun _ => false, 0, n⟩)
      (fun _ _ h => h) 0
    let acts := (List.range 200).map fun n => Action.add n 0
    Reachable s ∧ (∀ a ∈ acts, ∀ o t, a ≠ .restore o t) ∧
      2 ^ s.rebuildCount acts * s.c.capacity ≤ (s.run acts).c.capacity := by
  intro s acts
  have hs : Reachable s := Reachable.init _ _ _ _ fun _ _ => rfl
  have hr : ∀ a ∈ acts, ∀ o t, a ≠ .restore o t := by simp [acts]
  exact ⟨hs, hr, capacity_doubles_per_rebuild hs acts hr⟩

end WTinyLFU
