import WTinyLFU.Caps

/-! The sketch's sizing. Only `maybeGrowAccessCountersLocked` writes `capacity_` and
`maxWindowSize_`. It runs when the container is built or restored and after an `add`: it keeps
the sizing while the container holds less than twice the capacity, and otherwise sizes the
sketch for the container, at least `kDefaultCapacity` entries, with the window ratio then in
force. Every other action keeps the sizing and, under the segment invariant, does not grow the
container. -/
namespace WTinyLFU
namespace Container
variable {α : Type} [DecidableEq α] {c : Container α} {r : Nat}

/-- The sketch is sized for at least `kDefaultCapacity` entries and for more than half the
container, with a window of `r` times its capacity. -/
structure Sized (c : Container α) (r : Nat) : Prop where
  le_capacity : kDefaultCapacity ≤ c.capacity
  size_lt : c.size < 2 * c.capacity
  maxWindowSize_eq : c.maxWindowSize = c.capacity * r

/-- `c'` has the sketch sizing of `c` and, under the invariant, no more entries. -/
structure KeepsSizing (c c' : Container α) : Prop where
  capacity_eq : c'.capacity = c.capacity
  maxWindowSize_eq : c'.maxWindowSize = c.maxWindowSize
  size_le : c.Wf → c'.size ≤ c.size

omit [DecidableEq α] in
theorem KeepsSizing.refl (c : Container α) : c.KeepsSizing c := ⟨rfl, rfl, fun _ => le_rfl⟩

omit [DecidableEq α] in
theorem KeepsSizing.of_tuning {c' : Container α} (ht : c'.tuning = c.tuning)
    (hs : c.Wf → c'.size ≤ c.size) : c.KeepsSizing c' :=
  ⟨congrArg Tuning.capacity ht, congrArg Tuning.maxWindowSize ht, hs⟩

omit [DecidableEq α] in
theorem KeepsSizing.sized {c' : Container α} (hk : c.KeepsSizing c') (hw : c.Wf)
    (h : c.Sized r) : c'.Sized r :=
  ⟨hk.capacity_eq ▸ h.le_capacity, hk.capacity_eq ▸ (hk.size_le hw).trans_lt h.size_lt,
    by rw [hk.maxWindowSize_eq, hk.capacity_eq, h.maxWindowSize_eq]⟩

theorem keepsSizing_removeLocked (n : α) : c.KeepsSizing (c.removeLocked n) :=
  .of_tuning (tuning_removeLocked c n) fun h => by
    have := List.length_erase_le n c.lru.main
    have := List.length_erase_le n c.lru.probation
    have := List.length_erase_le n c.lru.tiny
    simp only [size, MultiDList.size, removeLocked_lru h.toSegWf]
    omega

theorem keepsSizing_replaceLocked (o n : α) : c.KeepsSizing (c.replaceLocked o n) :=
  .of_tuning (tuning_replaceLocked c o n) fun h => by
    simp [size, MultiDList.size, replaceLocked_lru h.toSegWf, DList.replace]

omit [DecidableEq α] in
theorem keepsSizing_reconfigureLocked (t u : Time) : c.KeepsSizing (c.reconfigureLocked t u) :=
  ⟨by simp, by simp, fun _ => by simp [size]⟩

/-- The part of an access under the lock moves entries between lists and keeps the sizing. -/
theorem keepsSizing_recordAccessLocked {n : α} (hin : c.isInMMContainer n = true) (t u : Time) :
    c.KeepsSizing ((c.reconfigureLocked t u).recordAccessLocked n t) := by
  refine ⟨by simp, by simp, fun h => le_of_eq ?_⟩
  have hn : n ∈ (c.reconfigureLocked t u).lru.all := by simpa using (h.inMM_iff n).mp hin
  rw [size, size, MultiDList.size_eq_length_all, MultiDList.size_eq_length_all,
    (recordAccessLocked_all_perm (h.toSegWf.frame (by simp) (fun _ => by simp) fun _ => by simp)
      hn).length_eq]
  simp

/-- An `add` of a new entry keeps the sizing unless the container reaches twice the capacity;
then it sizes the sketch afresh with the window ratio in force. -/
theorem Sized.addLocked (h : c.Sized r) (hw : c.SegWf) {n : α} (hn : n ∉ c.lru.all) (t : Time) :
    (c.addLocked n t).Sized
      (if 2 * c.capacity ≤ c.size + 1 then c.config.windowToCacheSizeRatio else r) := by
  obtain ⟨hcap, hmax⟩ := addLocked_sizing c n t
  have hs := addLocked_size (t := t) hw hn
  rw [hs] at hcap hmax
  by_cases hg : 2 * c.capacity ≤ c.size + 1
  · rw [if_neg (by omega)] at hcap hmax
    rw [if_pos hg]
    have := Nat.le_max_left (c.size + 1) kDefaultCapacity
    exact ⟨hcap ▸ Nat.le_max_right _ _, by rw [hs, hcap]; omega, by rw [hmax, hcap]⟩
  · rw [if_pos (by omega)] at hcap hmax
    rw [if_neg hg]
    exact ⟨by rw [hcap]; exact h.le_capacity, by rw [hs, hcap]; omega,
      by rw [hmax, hcap, h.maxWindowSize_eq]⟩

omit [DecidableEq α] in
/-- A sketch sized from nothing, as the constructors size it. -/
theorem sized_maybeGrowAccessCountersLocked (h0 : c.capacity = 0) :
    c.maybeGrowAccessCountersLocked.Sized c.config.windowToCacheSizeRatio := by
  have hcap := maybeGrowAccessCountersLocked_capacity c
  have hmax := maybeGrowAccessCountersLocked_maxWindowSize c
  rw [if_neg (by omega)] at hcap hmax
  have := Nat.le_max_left c.lru.size kDefaultCapacity
  have := Nat.le_max_right c.lru.size kDefaultCapacity
  exact ⟨hcap ▸ Nat.le_max_right _ _,
    by rw [size, maybeGrowAccessCountersLocked_lru, hcap]; unfold kDefaultCapacity at *; omega,
    by rw [hmax, hcap]⟩

omit [DecidableEq α] in
theorem sized_new (config : Config) (nodes : α → Node) (index : Nat → Nat → Nat → Nat)
    (now : Time) : (new config nodes index now).Sized config.windowToCacheSizeRatio :=
  have h := sized_maybeGrowAccessCountersLocked (c := fresh ⟨[], [], []⟩ config nodes index) rfl
  ⟨h.le_capacity, h.size_lt, h.maxWindowSize_eq⟩

omit [DecidableEq α] in
theorem Sized.restore {object : MMTinyLFUObject α} {nodes : α → Node}
    {index : Nat → Nat → Nat → Nat} {now : Time} {c' : Container α}
    (hr : Container.restore object nodes index now = .ok c') :
    c'.Sized c'.config.windowToCacheSizeRatio := by
  obtain ⟨config, -, rfl⟩ := restore_eq_ok hr
  exact sized_maybeGrowAccessCountersLocked rfl

end Container

namespace System
variable {α : Type} [DecidableEq α] {s : System α} {r : Nat}

open Container

/-- Whether the action rebuilds the sketch: an `add` of a new entry that brings the container
to twice the capacity the sketch was sized for, or a restart that succeeds, since the restored
container sizes its sketch afresh. -/
def rebuildsSketch (s : System α) : Action α → Bool
  | .add n _ => s.iter.isNone && !s.c.isInMMContainer n && decide (2 * s.c.capacity ≤ s.c.size + 1)
  | .restore configObject now => s.iter.isNone &&
      (Container.restore (s.c.saveState configObject) s.c.nodes s.c.accessFreq.index now).toBool
  | _ => false

/-- The `windowToCacheSizeRatio` in force at the last sketch rebuild of a run from `s`, where
`r` is the one of the last rebuild before it. -/
def lastRebuildRatio (s : System α) (r : Nat) : List (Action α) → Nat
  | [] => r
  | a :: acts => (s.step a).lastRebuildRatio
      (if s.rebuildsSketch a then (s.step a).c.config.windowToCacheSizeRatio else r) acts

/-- Only a call that returns rebuilds the sketch. -/
theorem rebuildsSketch_of_returns {a : Action α} (h : s.returns a = false) :
    s.rebuildsSketch a = false := by
  cases a <;> simp_all [rebuildsSketch, returns, Container.add, apply_ite Prod.fst]

/-- What an action does to the sketch's sizing: an `add` of a new entry, a restart that
succeeds, or neither, and then the sizing is kept. -/
theorem step_sizing_cases (s : System α) (a : Action α) :
    (∃ n now, a = .add n now ∧ s.c.isInMMContainer n = false ∧
      s.rebuildsSketch a = decide (2 * s.c.capacity ≤ s.c.size + 1) ∧
      (s.step a).c = s.c.addLocked n now) ∨
    (∃ configObject now, a = .restore configObject now ∧ s.rebuildsSketch a = true ∧
      Container.restore (s.c.saveState configObject) s.c.nodes s.c.accessFreq.index now =
        .ok (s.step a).c) ∨
    (s.rebuildsSketch a = false ∧ s.c.KeepsSizing (s.step a).c) := by
  rcases step_cases s a with ⟨he, hr⟩ | ⟨n, now, rfl, -, hi, hin, he⟩ | ⟨n, rfl, -, -, he⟩ |
    ⟨o, n, rfl, -, -, he⟩ | ⟨n, mode, now, statNow, ok, rfl, -, he⟩ |
    ⟨n, mode, now, statNow, ok, rfl, -, hin, he⟩ | ⟨n, now, statNow, rfl, -, hin, he⟩ |
    ⟨n, now, statNow, rfl, -, -, he⟩ | ⟨config, now, rfl, -, he⟩ |
    ⟨o, now, rfl, hr, hres⟩ | ⟨it, m, rfl, -, -, -, he⟩
  · exact .inr (.inr ⟨rebuildsSketch_of_returns hr, he ▸ .refl s.c⟩)
  · exact .inl ⟨n, now, rfl, hin, by simp [rebuildsSketch, hi, hin], he⟩
  · exact .inr (.inr ⟨rfl, he ▸ keepsSizing_removeLocked n⟩)
  · exact .inr (.inr ⟨rfl, he ▸ keepsSizing_replaceLocked o n⟩)
  · exact .inr (.inr ⟨rfl, he ▸ .of_tuning rfl fun _ => le_rfl⟩)
  · have hk := keepsSizing_recordAccessLocked (c := s.c.markAccessed n)
      (by simpa [markAccessed] using hin) now statNow
    exact .inr (.inr ⟨rfl, he ▸ ⟨hk.capacity_eq, hk.maxWindowSize_eq,
      fun hw => hk.size_le (wf_markAccessed.mpr hw)⟩⟩)
  · exact .inr (.inr ⟨rfl, he ▸ keepsSizing_recordAccessLocked hin now statNow⟩)
  · exact .inr (.inr ⟨rfl, he ▸ keepsSizing_reconfigureLocked now statNow⟩)
  · exact .inr (.inr ⟨rfl, he ▸ ⟨rfl, rfl, fun _ => le_rfl⟩⟩)
  · exact .inr (.inl ⟨o, now, rfl, hr, hres⟩)
  · exact .inr (.inr ⟨rfl, he ▸ keepsSizing_removeLocked m⟩)

/-- One action keeps the sizing invariant, with the ratio of its rebuild if it rebuilds. -/
theorem sized_step (hw : s.c.Wf) (h : s.c.Sized r) (a : Action α) :
    (s.step a).c.Sized
      (if s.rebuildsSketch a then (s.step a).c.config.windowToCacheSizeRatio else r) := by
  rcases step_sizing_cases s a with ⟨n, now, rfl, hin, hr, he⟩ | ⟨o, now, rfl, hr, he⟩ | ⟨hr, hk⟩
  · rw [hr, he, addLocked_config]
    simpa only [decide_eq_true_eq] using
      h.addLocked hw.toSegWf (fun hm => by simp [(hw.inMM_iff n).mpr hm] at hin) now
  · rw [hr, if_pos rfl]
    exact Sized.restore he
  · rw [hr]
    exact hk.sized hw h

/-- Only a restart can lower the capacity the sketch is sized for. -/
theorem capacity_le_step (s : System α) {a : Action α} (ha : ∀ o t, a ≠ .restore o t) :
    s.c.capacity ≤ (s.step a).c.capacity := by
  rcases step_sizing_cases s a with ⟨n, now, -, -, -, he⟩ | ⟨o, now, rfl, -⟩ | ⟨-, hk⟩
  · rw [he, (addLocked_sizing s.c n now).1]
    split_ifs <;> omega
  · exact absurd rfl (ha o now)
  · exact hk.capacity_eq.ge

theorem sized_run (hs : Reachable s) (h : s.c.Sized r) (acts : List (Action α)) :
    (s.run acts).c.Sized (s.lastRebuildRatio r acts) := by
  induction acts generalizing s r with
  | nil => exact h
  | cons a acts ih => exact ih (hs.step a) (sized_step hs.wf h a)

end System

open Container

/-- Along every run from a new container, the sketch is sized for at least `kDefaultCapacity`
entries and for more than half the container, its window is the capacity times the
`windowToCacheSizeRatio` in force at the last rebuild, and no action but a restart lowers the
capacity. -/
theorem run_sketch_sizing {α : Type} [DecidableEq α] (config : Config) (nodes : α → Node)
    (index : Nat → Nat → Nat → Nat) (now : Time) (hn : FlagsClear nodes)
    (acts : List (Action α)) :
    let s := (System.init config nodes index now).run acts
    kDefaultCapacity ≤ s.c.capacity ∧ s.c.size < 2 * s.c.capacity ∧
      s.c.maxWindowSize = s.c.capacity *
        (System.init config nodes index now).lastRebuildRatio config.windowToCacheSizeRatio acts ∧
      ∀ a, (∀ o t, a ≠ .restore o t) → s.c.capacity ≤ (s.step a).c.capacity :=
  have h := System.sized_run (Reachable.init config nodes index now hn)
    (sized_new config nodes index now) acts
  ⟨h.le_capacity, h.size_lt, h.maxWindowSize_eq, fun _ ha => System.capacity_le_step _ ha⟩

/-- A new ratio installed by `setConfig` waits for the next rebuild. -/
example : (System.init ({} : Config) (fun n : Nat => ⟨fun _ => false, 0, n⟩) (fun _ _ h => h)
    0).lastRebuildRatio 32 [.add 1 0, .setConfig { windowToCacheSizeRatio := 4 } 0, .add 2 0] = 32 := by
  decide

/-- A run that installs a new window ratio between two adds. -/
theorem run_sketch_sizing_after_setConfig :
    let nodes := fun n : Nat => (⟨fun _ => false, 0, n⟩ : Node)
    let acts : List (Action Nat) :=
      [.add 1 0, .setConfig { windowToCacheSizeRatio := 4 } 0, .add 2 0]
    let s := (System.init {} nodes (fun _ _ h => h) 0).run acts
    FlagsClear nodes ∧ kDefaultCapacity ≤ s.c.capacity ∧ s.c.size < 2 * s.c.capacity ∧
      s.c.maxWindowSize = s.c.capacity *
        (System.init {} nodes (fun _ _ h => h) 0).lastRebuildRatio 32 acts ∧
      ∀ a, (∀ o t, a ≠ .restore o t) → s.c.capacity ≤ (s.step a).c.capacity :=
  ⟨fun _ _ => rfl, run_sketch_sizing {} _ _ 0 (fun _ _ => rfl) _⟩

end WTinyLFU
