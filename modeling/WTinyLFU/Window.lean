import WTinyLFU.Sizing

/-! The sketch's window. `updateFrequenciesLocked` counts every call in `windowSize_`; when the
count reaches `maxWindowSize_` it halves the count and every counter (`decayCountsBy`). A rebuild
in `maybeGrowAccessCountersLocked` starts the count again at zero with an empty sketch. From a
rebuild on a window of `M`, the count climbs to `M`, falls to `⌊M/2⌋`, and then takes
`M − ⌊M/2⌋` calls to reach `M` again, so after `u` calls both the count and the calls that decay
have closed forms, and the sketch is the empty one with the counted keys replayed on them. -/
namespace WTinyLFU

/-- `windowSize_` after `u` calls from zero on a window of `M`. -/
def windowAfter (M u : Nat) : Nat := if u < M then u else M / 2 + (u - M) % (M - M / 2)

/-- The calls of `decayCountsBy` among those `u` calls. -/
def decaysAfter (M u : Nat) : Nat := if u < M then 0 else 1 + (u - M) / (M - M / 2)

/-- One more step: a remainder one below the divisor wraps to zero and carries into the
quotient. -/
theorem succ_div_mod {v h : Nat} (hh : 0 < h) :
    (v + 1) / h = (if v % h + 1 = h then v / h + 1 else v / h) ∧
      (v + 1) % h = if v % h + 1 = h then 0 else v % h + 1 := by
  have := Nat.div_add_mod v h
  have := Nat.mod_lt v hh
  split_ifs with hc
  · exact (Nat.div_mod_unique hh).mpr ⟨by rw [Nat.mul_succ]; omega, hh⟩
  · exact (Nat.div_mod_unique hh).mpr ⟨by omega, by omega⟩

section
variable {M : Nat}

theorem windowAfter_lt (hM : 0 < M) (u : Nat) : windowAfter M u < M := by
  unfold windowAfter
  split_ifs
  · assumption
  · have := Nat.mod_lt (u - M) (show 0 < M - M / 2 by omega); omega

/-- The closed forms take one more call as `updateFrequenciesLocked` counts it. -/
theorem window_succ (hM : 0 < M) (u : Nat) :
    windowAfter M (u + 1) = (if windowAfter M u + 1 = M then (windowAfter M u + 1) / 2
      else windowAfter M u + 1) ∧
    decaysAfter M (u + 1) =
      if windowAfter M u + 1 = M then decaysAfter M u + 1 else decaysAfter M u := by
  unfold windowAfter decaysAfter
  rcases Nat.lt_or_ge (u + 1) M with h | h
  · -- the first window is filling
    simp [h, Nat.lt_of_succ_lt h, show u + 1 ≠ M by omega]
  · rcases Nat.eq_or_lt_of_le h with h | h
    · -- the call that first reaches `M`
      subst h
      simp only [Nat.lt_irrefl, Nat.lt_succ_self, if_true, if_false, Nat.sub_self, Nat.zero_mod,
        Nat.zero_div, Nat.add_zero, and_self]
    · -- after the first decay
      obtain ⟨hd, hm⟩ := succ_div_mod (v := u - M) (show 0 < M - M / 2 by omega)
      have := Nat.mod_lt (u - M) (show 0 < M - M / 2 by omega)
      simp only [show ¬u < M by omega, show ¬u + 1 < M by omega, if_false,
        show u + 1 - M = u - M + 1 by omega, hd, hm]
      split_ifs <;> omega

/-- The decay scenario at `M = 200`: the 200th call decays and leaves 100, and the next decay
comes 100 calls later. -/
example : windowAfter 200 200 = 100 ∧ decaysAfter 200 200 = 1 ∧ windowAfter 200 299 = 199 ∧
    windowAfter 200 300 = 100 ∧ decaysAfter 200 300 = 2 := by decide

/-- The calls, numbered from zero, among the first `u` that bring the window to `M`. -/
def decayCalls (M u : Nat) : List Nat := (List.range u).filter fun i => windowAfter M i + 1 = M

/-- The calls that decay are as many as the closed form counts. -/
theorem decayCalls_length (hM : 0 < M) (u : Nat) : (decayCalls M u).length = decaysAfter M u := by
  induction u with
  | zero => simp [decayCalls, decaysAfter, hM]
  | succ u ih =>
    rw [decayCalls, List.range_succ, List.filter_append, List.length_append, ← decayCalls, ih,
      (window_succ hM u).2]
    split_ifs with h <;> simp [h]

end

/-- The sketch after the calls of `updateFrequenciesLocked` on the key hashes `ks`, newest first,
from the sketch `s₀` and an empty window of `M`: each key counted in turn, and every counter
halved at each call that brings the window to `M`, the calls of `decayCalls`. -/
def sketchAfter (s₀ : CountMinSketch) (M : Nat) : List Nat → CountMinSketch
  | [] => s₀
  | k :: ks =>
    let s := (sketchAfter s₀ M ks).increment k
    if windowAfter M ks.length + 1 = M then s.decayCountsBy else s

/-- An empty sketch of `kHashCount` rows with the width and row hashing of `s`: the sketch
`maybeGrowAccessCountersLocked` builds. -/
def CountMinSketch.rebuilt (s : CountMinSketch) : CountMinSketch :=
  CountMinSketch.create s.numCounters Container.kHashCount s.index

@[simp] theorem CountMinSketch.rebuilt_increment (s : CountMinSketch) (k : Nat) :
    (s.increment k).rebuilt = s.rebuilt := rfl

@[simp] theorem CountMinSketch.rebuilt_decayCountsBy (s : CountMinSketch) :
    s.decayCountsBy.rebuilt = s.rebuilt := rfl

namespace Container
variable {α : Type} [DecidableEq α] {c c' : Container α} {n : α} {ks : List Nat}

omit [DecidableEq α] in
/-- `updateFrequenciesLocked` reads only the sketch, the window and the entry's key hash. -/
theorem updateFrequenciesLocked_accessFreq_congr (ha : c'.accessFreq = c.accessFreq)
    (hw : c'.windowSize = c.windowSize) (hm : c'.maxWindowSize = c.maxWindowSize)
    (hh : c'.hashNode n = c.hashNode n) :
    (c'.updateFrequenciesLocked n).accessFreq = (c.updateFrequenciesLocked n).accessFreq := by
  simp only [updateFrequenciesLocked_accessFreq, ha, hw, hm, hh]

/-- The locked body of an access leaves the sketch as `updateFrequenciesLocked` leaves the
container's own: its list moves and its stamp touch neither the sketch nor a key hash. -/
theorem recordAccessLocked_accessFreq (c : Container α) (n : α) (t : Time) :
    (c.recordAccessLocked n t).accessFreq = (c.updateFrequenciesLocked n).accessFreq := by
  unfold recordAccessLocked; dsimp only
  apply updateFrequenciesLocked_accessFreq_congr <;> split_ifs <;> simp

/-- `addLocked` is list and bit work around the count of the new entry, which leaves the sketch
as `updateFrequenciesLocked` leaves the container's own, then `maybeGrowAccessCountersLocked`,
then the new entry's bits and stamp. -/
theorem addLocked_eq_count (c : Container α) (n : α) (t : Time) :
    ∃ c₁ : Container α, c₁.tuning = c.tuning ∧
      c₁.accessFreq = (c.updateFrequenciesLocked n).accessFreq ∧ c.addLocked n t =
        ((c₁.maybeGrowAccessCountersLocked.markInMMContainer n).setUpdateTime n t).unmarkAccessed n :=
  ⟨_, by split_ifs <;> simp [markTiny],
    by split_ifs <;> simp only [spillTinyTailLocked_accessFreq, maybePromoteTailLocked_accessFreq] <;>
      exact updateFrequenciesLocked_accessFreq_congr rfl rfl rfl (by simp [markTiny]), rfl⟩

/-- Unless it rebuilds the sketch, `addLocked` counts the new entry and nothing else. -/
theorem addLocked_accessFreq_of_lt {t : Time} (h : (c.addLocked n t).size < 2 * c.capacity) :
    (c.addLocked n t).accessFreq = (c.updateFrequenciesLocked n).accessFreq := by
  obtain ⟨c₁, h₁, hf, he⟩ := addLocked_eq_count c n t
  have hcap : c₁.capacity = c.capacity := congrArg Tuning.capacity h₁
  have hs : (c.addLocked n t).size = c₁.lru.size := by
    rw [he]
    simp only [size, unmarkAccessed, markInMMContainer, unSetFlag_lru, setUpdateTime_lru,
      setFlag_lru, maybeGrowAccessCountersLocked_lru]
  rw [he]
  simp only [unmarkAccessed, markInMMContainer, unSetFlag_accessFreq, setUpdateTime_accessFreq,
    setFlag_accessFreq]
  rw [maybeGrowAccessCountersLocked_accessFreq_of_lt (by omega), hf]

omit [DecidableEq α] in
/-- A rebuild leaves an empty sketch. -/
theorem maybeGrowAccessCountersLocked_accessFreq_of_ge (h : ¬c.lru.size < 2 * c.capacity) :
    c.maybeGrowAccessCountersLocked.accessFreq = c.maybeGrowAccessCountersLocked.accessFreq.rebuilt := by
  unfold maybeGrowAccessCountersLocked; dsimp only; rw [if_neg h]; rfl

/-- `addLocked` after its count of the new entry: the sketch it leaves is the one
`maybeGrowAccessCountersLocked` leaves. -/
theorem addLocked_accessFreq (c : Container α) (n : α) (t : Time) :
    ∃ c₁ : Container α, c₁.tuning = c.tuning ∧
      c₁.accessFreq = (c.updateFrequenciesLocked n).accessFreq ∧ c₁.lru = (c.addLocked n t).lru ∧
      (c.addLocked n t).accessFreq = c₁.maybeGrowAccessCountersLocked.accessFreq := by
  obtain ⟨c₁, h₁, hf, he⟩ := addLocked_eq_count c n t
  refine ⟨c₁, h₁, hf, ?_, ?_⟩ <;> rw [he] <;> simp [unmarkAccessed, markInMMContainer]

/-- The window and the sketch after the calls of `updateFrequenciesLocked` on the key hashes
`ks`, newest first, since the sketch was last built. -/
structure WindowAt (c : Container α) (ks : List Nat) : Prop where
  pos : 0 < c.maxWindowSize
  windowSize_eq : c.windowSize = windowAfter c.maxWindowSize ks.length
  accessFreq_eq : c.accessFreq = sketchAfter c.accessFreq.rebuilt c.maxWindowSize ks

omit [DecidableEq α] in
theorem WindowAt.rebuilt (hpos : 0 < c.maxWindowSize) (hw : c.windowSize = 0)
    (hf : c.accessFreq = c.accessFreq.rebuilt) : c.WindowAt [] :=
  ⟨hpos, by simp [hw, windowAfter, hpos], hf⟩

omit [DecidableEq α] in
theorem WindowAt.of_eq (h : c.WindowAt ks) (hm : c'.maxWindowSize = c.maxWindowSize)
    (hw : c'.windowSize = c.windowSize) (hf : c'.accessFreq = c.accessFreq) : c'.WindowAt ks :=
  ⟨hm ▸ h.pos, by rw [hw, hm, h.windowSize_eq], by rw [hf, hm, ← h.accessFreq_eq]⟩

omit [DecidableEq α] in
/-- One more call of `updateFrequenciesLocked`, on the key hash `k`. -/
theorem WindowAt.update (h : c.WindowAt ks) (k : Nat) (hm : c'.maxWindowSize = c.maxWindowSize)
    (hw : c'.windowSize =
      if c.windowSize + 1 = c.maxWindowSize then (c.windowSize + 1) / 2 else c.windowSize + 1)
    (hf : c'.accessFreq = if c.windowSize + 1 = c.maxWindowSize then
      (c.accessFreq.increment k).decayCountsBy else c.accessFreq.increment k) :
    c'.WindowAt (k :: ks) := by
  obtain ⟨hw', -⟩ := window_succ h.pos ks.length
  have hr : c'.accessFreq.rebuilt = c.accessFreq.rebuilt := by rw [hf]; split <;> rfl
  refine ⟨hm ▸ h.pos, ?_, ?_⟩
  · simp only [List.length_cons, hm, hw, hw', ← h.windowSize_eq]
  · rw [hr, hm, sketchAfter, ← h.accessFreq_eq, ← h.windowSize_eq, hf]

omit [DecidableEq α] in
/-- `updateFrequenciesLocked` on a container whose window and sketch are those of `c`. -/
theorem WindowAt.updateFrequenciesLocked (h : c.WindowAt ks) (hm : c'.maxWindowSize = c.maxWindowSize)
    (hw : c'.windowSize = c.windowSize) (hf : c'.accessFreq = c.accessFreq) (n : α) :
    (c'.updateFrequenciesLocked n).WindowAt (c'.hashNode n :: ks) :=
  h.update _ (by simp [hm]) (by rw [updateFrequenciesLocked_windowSize, hw, hm])
    (by rw [updateFrequenciesLocked_accessFreq, hw, hm, hf])

/-- The locked body of an access, on a container whose window and sketch are those of `c`. -/
theorem WindowAt.recordAccessLocked (h : c.WindowAt ks) (hm : c'.maxWindowSize = c.maxWindowSize)
    (hw : c'.windowSize = c.windowSize) (hf : c'.accessFreq = c.accessFreq) (n : α) (t : Time) :
    (c'.recordAccessLocked n t).WindowAt (c'.hashNode n :: ks) :=
  (h.updateFrequenciesLocked hm hw hf n).of_eq (by simp)
    (by rw [recordAccessLocked_windowSize, updateFrequenciesLocked_windowSize])
    (recordAccessLocked_accessFreq c' n t)

omit [DecidableEq α] in
/-- A sketch sized for at least `kDefaultCapacity` entries under a checked ratio has a window. -/
theorem Sized.maxWindowSize_pos (h : c.Sized c.config.windowToCacheSizeRatio)
    (hc : c.config.checkConfig = .ok ()) : 0 < c.maxWindowSize := by
  have := (Config.checkConfig_eq_ok.mp hc).2.2.1
  have := h.le_capacity
  rw [h.maxWindowSize_eq]
  unfold kDefaultCapacity at *
  exact Nat.mul_pos (by omega) (by omega)

omit [DecidableEq α] in
/-- A restore sizes the sketch afresh, with an empty window, an empty sketch and a checked
config. -/
theorem restore_window {object : MMTinyLFUObject α} {nodes : α → Node}
    {index : Nat → Nat → Nat → Nat} {now : Time} (hr : restore object nodes index now = .ok c) :
    c.windowSize = 0 ∧ c.accessFreq = c.accessFreq.rebuilt ∧ c.config.checkConfig = .ok () := by
  obtain ⟨config, hc, rfl⟩ := restore_eq_ok hr
  exact ⟨by simp [maybeGrowAccessCountersLocked_windowSize, fresh],
    maybeGrowAccessCountersLocked_accessFreq_of_ge (by simp [fresh]),
    (Config.Accepted.spec ⟨_, _, _, _, _, _, _, _, _, _, _, hc⟩).2.2.1⟩

end Container

namespace System
variable {α : Type} [DecidableEq α] {s : System α} {a : Action α} {r : Nat} {ks : List Nat}

open Container

/-- The key hash the action's call of `updateFrequenciesLocked` counts, if it makes one: an
`add`, or a `recordAccess` or resumed access that returns true. -/
def countedKey (s : System α) : Action α → Option Nat
  | .add n now => if s.returns (.add n now) then some (s.c.hashNode n) else none
  | .recordAccess n mode now statNow ok =>
    if s.returns (.recordAccess n mode now statNow ok) then some (s.c.hashNode n) else none
  | .resumeAccess n now statNow =>
    if s.returns (.resumeAccess n now statNow) then some (s.c.hashNode n) else none
  | _ => none

/-- The key hashes counted since the last rebuild, newest first, after one more action. A
rebuild after the call starts the list again. -/
def countedKeys (s : System α) (a : Action α) (ks : List Nat) : List Nat :=
  if s.rebuildsSketch a then [] else (s.countedKey a).toList ++ ks

/-- The key hashes counted after a run from `s`, from `ks` before it. -/
def countedKeysRun (s : System α) (ks : List Nat) : List (Action α) → List Nat
  | [] => ks
  | a :: acts => (s.step a).countedKeysRun (s.countedKeys a ks) acts

theorem countedKey_of_returns (h : s.returns a = false) : s.countedKey a = none := by
  cases a <;> simp_all [countedKey]

theorem countedKeys_of_returns (h : s.returns a = false) : s.countedKeys a ks = ks := by
  simp [countedKeys, rebuildsSketch_of_returns h, countedKey_of_returns h]

/-- Every installed config passes the check, the restored ones by construction. -/
theorem checkConfig_step (hc : s.c.config.checkConfig = .ok ())
    (ha : ∀ config now, a = .setConfig config now → config.checkConfig = .ok ()) :
    (s.step a).c.config.checkConfig = .ok () := by
  rcases step_cases s a with ⟨he, -⟩ | ⟨n, now, -, -, -, -, he⟩ | ⟨n, -, -, -, he⟩ |
    ⟨o, n, -, -, -, he⟩ | ⟨n, -, -, -, -, -, -, he⟩ | ⟨n, mode, now, u, ok, -, -, -, he⟩ |
    ⟨n, now, u, -, -, -, he⟩ | ⟨n, now, u, -, -, -, he⟩ | ⟨config, now, rfl, -, he⟩ |
    ⟨o, now, -, -, hr⟩ | ⟨it, m, -, -, -, -, he⟩ <;>
    (try rw [he])
  · exact hc
  · simpa using hc
  · simpa using hc
  · simpa using hc
  · exact hc
  · simpa [markAccessed] using hc
  · simpa using hc
  · simpa using hc
  · exact ha config now rfl
  · exact (restore_window hr).2.2
  · simpa using hc

/-- One action on the window and the sketch: a rebuild starts them again, a call of
`updateFrequenciesLocked` counts its key once more, and every other action leaves them. -/
theorem windowAt_step (hw : s.c.Wf) (hz : s.c.Sized r)
    (hc : (s.step a).c.config.checkConfig = .ok ()) (h : s.c.WindowAt ks) :
    (s.step a).c.WindowAt (s.countedKeys a ks) := by
  have hz' := sized_step hw hz a
  rcases step_cases s a with ⟨he, hr⟩ | ⟨n, now, rfl, hr, hi, hin, he⟩ | ⟨n, rfl, -, -, he⟩ |
    ⟨o, n, rfl, -, -, he⟩ | ⟨n, mode, now, statNow, ok, rfl, hr, he⟩ |
    ⟨n, mode, now, statNow, ok, rfl, hr, -, he⟩ | ⟨n, now, statNow, rfl, hr, -, he⟩ |
    ⟨n, now, statNow, rfl, hr, -, he⟩ | ⟨config, now, rfl, -, he⟩ |
    ⟨o, now, rfl, hr, hres⟩ | ⟨it, m, rfl, -, -, -, he⟩
  · rw [countedKeys_of_returns hr]
    exact h.of_eq (by rw [he]) (by rw [he]) (by rw [he])
  · -- an `add` of a new entry
    have hn : n ∉ s.c.lru.all := fun hm => by simp [(hw.inMM_iff n).mpr hm] at hin
    have hs := addLocked_size (t := now) hw.toSegWf hn
    have hrb : s.rebuildsSketch (.add n now) = decide (2 * s.c.capacity ≤ s.c.size + 1) := by
      simp [rebuildsSketch, hi, hin]
    have hws := addLocked_windowSize s.c n now
    have hms := (addLocked_sizing s.c n now).2
    obtain ⟨c₁, ht₁, hf₁, hl₁, hf⟩ := addLocked_accessFreq s.c n now
    have hcap : c₁.capacity = s.c.capacity := congrArg Tuning.capacity ht₁
    have hsz : c₁.lru.size = s.c.size + 1 := by rw [hl₁, ← hs]; rfl
    rw [hs] at hws hms
    rw [he] at hz' hc ⊢
    unfold countedKeys
    by_cases hg : 2 * s.c.capacity ≤ s.c.size + 1
    · rw [if_pos (by simpa [hrb] using hg)]
      rw [hrb, if_pos (by simpa using hg)] at hz'
      exact .rebuilt (hz'.maxWindowSize_pos hc) (by rw [hws, if_neg (by omega)])
        (by rw [hf, maybeGrowAccessCountersLocked_accessFreq_of_ge (by omega)]; rfl)
    · rw [if_neg (by simpa [hrb] using hg)]
      simp only [countedKey, hr, if_true, Option.toList_some, List.singleton_append]
      exact (h.updateFrequenciesLocked rfl rfl rfl n).of_eq
        (by rw [hms, if_pos (by omega)]; simp)
        (by rw [hws, if_pos (by omega), updateFrequenciesLocked_windowSize])
        (by rw [hf, maybeGrowAccessCountersLocked_accessFreq_of_lt (by rw [hsz, hcap]; omega), hf₁])
  · rw [he]
    exact h.of_eq (congrArg Tuning.maxWindowSize (tuning_removeLocked s.c n)) (by simp) (by simp)
  · rw [he]
    exact h.of_eq (congrArg Tuning.maxWindowSize (tuning_replaceLocked s.c o n)) (by simp)
      (by simp)
  · rw [countedKeys_of_returns hr, he]
    exact h.of_eq rfl rfl rfl
  · -- a `recordAccess` that returns true
    have hk : s.countedKeys (.recordAccess n mode now statNow ok) ks = s.c.hashNode n :: ks := by
      simp [countedKeys, countedKey, rebuildsSketch, hr]
    rw [hk, he]
    have hh : ((s.c.markAccessed n).reconfigureLocked now statNow).hashNode n = s.c.hashNode n := by
      rw [hashNode_reconfigureLocked, markAccessed, hashNode_setFlag]
    rw [← hh]
    exact h.recordAccessLocked (by simp [markAccessed, setFlag]) (by simp [markAccessed, setFlag])
      (by simp [markAccessed]) n now
  · -- a blocked access resumed, which returns true
    have hk : s.countedKeys (.resumeAccess n now statNow) ks = s.c.hashNode n :: ks := by
      simp [countedKeys, countedKey, rebuildsSketch, hr]
    rw [hk, he]
    rw [← hashNode_reconfigureLocked s.c now statNow]
    exact h.recordAccessLocked (by simp) (by simp) (by simp) n now
  · rw [countedKeys_of_returns hr, he]
    exact h.of_eq (by simp) (by simp) (by simp)
  · rw [he]
    exact h.of_eq rfl rfl rfl
  · -- a restart sizes the sketch afresh
    have hrb : s.rebuildsSketch (.restore o now) = true := hr
    rw [countedKeys, if_pos hrb]
    rw [hrb, if_pos rfl] at hz'
    exact .rebuilt (hz'.maxWindowSize_pos hc) (restore_window hres).1 (restore_window hres).2.1
  · rw [he]
    exact h.of_eq (congrArg Tuning.maxWindowSize (tuning_removeLocked s.c m)) (by simp) (by simp)

/-- Along a run whose `setConfig`s install checked configs, the window and the sketch keep their
closed forms. -/
theorem windowAt_run (hs : Reachable s) (hz : s.c.Sized r) (hc : s.c.config.checkConfig = .ok ())
    (h : s.c.WindowAt ks) (acts : List (Action α))
    (hacts : ∀ config now, Action.setConfig config now ∈ acts → config.checkConfig = .ok ()) :
    (s.run acts).c.WindowAt (s.countedKeysRun ks acts) := by
  induction acts generalizing s r ks with
  | nil => exact h
  | cons a acts ih =>
    have hc' := checkConfig_step (a := a) hc fun config now ha =>
      hacts config now (ha ▸ List.mem_cons_self _ _)
    exact ih (hs.step a) (sized_step hs.wf hz a) hc' (windowAt_step hs.wf hz hc' h)
      fun config now hm => hacts config now (List.mem_cons_of_mem _ hm)

end System

open Container

/-- On every run from a new container whose installed configs pass `checkConfig`, let `ks` be the
key hashes counted by `updateFrequenciesLocked` since the last rebuild of the sketch, `u` their
number, and `M` the window. The count stays below `M` and has its closed form; the sketch is the
empty one with `ks` replayed on it, every counter halved at the calls of `decayCalls`; and those
calls, the calls of `decayCountsBy`, are as many as the closed form counts. -/
theorem run_window_closed_form {α : Type} [DecidableEq α] (config : Config) (nodes : α → Node)
    (index : Nat → Nat → Nat → Nat) (now : Time) (hn : FlagsClear nodes)
    (hc : config.checkConfig = .ok ()) (acts : List (Action α))
    (hacts : ∀ config' now', Action.setConfig config' now' ∈ acts → config'.checkConfig = .ok ()) :
    let s := (System.init config nodes index now).run acts
    let ks := (System.init config nodes index now).countedKeysRun [] acts
    let u := ks.length
    let M := s.c.maxWindowSize
    s.c.windowSize < M ∧ s.c.accessFreq = sketchAfter s.c.accessFreq.rebuilt M ks ∧
      (decayCalls M u).length = (if u < M then 0 else 1 + (u - M) / (M - M / 2)) ∧
      s.c.windowSize = if u < M then u else M / 2 + (u - M) % (M - M / 2) := by
  intro s ks u M
  have h := System.windowAt_run (Reachable.init config nodes index now hn) (sized_new _ _ _ _) hc
    (.rebuilt ((sized_new _ _ _ _).maxWindowSize_pos hc)
      (by simp [System.init, new, maybeGrowAccessCountersLocked_windowSize, fresh])
      (maybeGrowAccessCountersLocked_accessFreq_of_ge (by simp [fresh]))) acts hacts
  exact ⟨h.windowSize_eq ▸ windowAfter_lt h.pos _, h.accessFreq_eq, decayCalls_length h.pos u,
    h.windowSize_eq⟩

/-- A run that counts one entry, installs a window ratio of four, and counts it again. -/
theorem run_window_closed_form_after_setConfig :
    let nodes := fun n : Nat => (⟨fun _ => false, 0, n⟩ : Node)
    let acts : List (Action Nat) :=
      [.add 1 0, .setConfig { windowToCacheSizeRatio := 4 } 0, .recordAccess 1 .read 0 0 true]
    let s := (System.init {} nodes (fun _ _ h => h) 0).run acts
    let ks := (System.init {} nodes (fun _ _ h => h) 0).countedKeysRun [] acts
    let u := ks.length
    let M := s.c.maxWindowSize
    FlagsClear nodes ∧ ({} : Config).checkConfig = .ok () ∧
      (∀ config' now', Action.setConfig config' now' ∈ acts → config'.checkConfig = .ok ()) ∧
      s.c.windowSize < M ∧ s.c.accessFreq = sketchAfter s.c.accessFreq.rebuilt M ks ∧
      (decayCalls M u).length = (if u < M then 0 else 1 + (u - M) / (M - M / 2)) ∧
      s.c.windowSize = if u < M then u else M / 2 + (u - M) % (M - M / 2) := by
  have hacts : ∀ config' now', Action.setConfig config' now' ∈
      ([.add 1 0, .setConfig { windowToCacheSizeRatio := 4 } 0, .recordAccess 1 .read 0 0 true] :
        List (Action Nat)) → config'.checkConfig = .ok () := by
    intro config' now' hm
    simp only [List.mem_cons, List.not_mem_nil, or_false, reduceCtorEq, false_or,
      Action.setConfig.injEq] at hm
    rw [hm.1]
    rfl
  exact ⟨fun _ _ => rfl, rfl, hacts,
    run_window_closed_form {} _ _ 0 (fun _ _ => rfl) rfl _ hacts⟩

end WTinyLFU
