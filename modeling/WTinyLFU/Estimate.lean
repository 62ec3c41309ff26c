import WTinyLFU.Window
import WTinyLFU.Replace

/-! The sketch never under-counts. Keep an exact count of one key hash on the sketch's own
schedule: one more at each call of `updateFrequenciesLocked` on an entry with that key, up to
the counters' cap `kCounterMax`, halved
at the call that ends the window, and zero again when `maybeGrowAccessCountersLocked` or a
restart builds a new sketch. Along every run `getCount` of the key stays at least that count:
the frequencies that `admitToProbation` and the promotion to Main compare are never below the
key's own decayed access count since the last rebuild, and collisions only raise them. -/
namespace WTinyLFU

namespace CountMinSketch

@[simp] theorem numHashes_decayCountsBy (s : CountMinSketch) :
    s.decayCountsBy.numHashes = s.numHashes := rfl

/-- Halving every counter at least halves the estimate. -/
theorem getCount_decayCountsBy (s : CountMinSketch) (k : Nat) (hpos : 0 < s.numHashes) :
    s.getCount k / 2 ≤ s.decayCountsBy.getCount k :=
  le_getCount hpos fun _ hr => Nat.div_le_div_right (s.getCount_le_table k hr)

/-- One more, up to the counters' cap. -/
def succSat (v : Nat) : Nat := if v < kCounterMax then v + 1 else v

theorem succSat_mono {v w : Nat} (h : v ≤ w) : succSat v ≤ succSat w := by
  unfold succSat
  split_ifs <;> omega

/-- Counting a key raises its estimate by one at least, up to the cap, and lowers no other
key's. -/
theorem getCount_increment (s : CountMinSketch) (h k : Nat) (hpos : 0 < s.numHashes) :
    (if h = k then succSat (s.getCount k) else s.getCount k) ≤ (s.increment h).getCount k := by
  split_ifs with hk
  · subst hk
    exact le_getCount hpos fun r hr => by
      have ht := s.getCount_le_table h hr
      rw [table_increment, column_increment]
      by_cases hc : s.table r (s.column r h) < kCounterMax
      · rw [if_pos ⟨hr, rfl, hc⟩]; unfold succSat; split_ifs <;> omega
      · rw [if_neg fun h' => hc h'.2.2]; unfold succSat; split_ifs <;> omega
  · exact s.getCount_le_increment h k hpos

end CountMinSketch

/-- The exact count of a key after a call of `updateFrequenciesLocked`, from `v` before it: one
more, up to the cap, if the call counts the key, then halved if the call ends the window. -/
def countAfter (counts ends : Prop) [Decidable counts] [Decidable ends] (v : Nat) : Nat :=
  let v := if counts then CountMinSketch.succSat v else v
  if ends then v / 2 else v

theorem countAfter_mono {counts ends : Prop} [Decidable counts] [Decidable ends] {v w : Nat}
    (h : v ≤ w) : countAfter counts ends v ≤ countAfter counts ends w := by
  have := CountMinSketch.succSat_mono h
  dsimp only [countAfter]
  split_ifs <;> omega

namespace Container
variable {α : Type} [DecidableEq α] {c c' : Container α} {n : α}

omit [DecidableEq α] in
theorem numHashes_updateFrequenciesLocked (c : Container α) (n : α) :
    (c.updateFrequenciesLocked n).accessFreq.numHashes = c.accessFreq.numHashes := by
  rw [updateFrequenciesLocked_accessFreq]; split <;> rfl

omit [DecidableEq α] in
/-- One call of `updateFrequenciesLocked` leaves every estimate at least at the exact count. -/
theorem getCount_updateFrequenciesLocked (hpos : 0 < c.accessFreq.numHashes) (n : α) (k : Nat) :
    countAfter (c.hashNode n = k) (c.windowSize + 1 = c.maxWindowSize) (c.accessFreq.getCount k) ≤
      (c.updateFrequenciesLocked n).accessFreq.getCount k := by
  have hinc := c.accessFreq.getCount_increment (c.hashNode n) k hpos
  rw [updateFrequenciesLocked_accessFreq]
  by_cases hw : c.windowSize + 1 = c.maxWindowSize <;> simp only [countAfter, hw, ↓reduceIte]
  · exact (Nat.div_le_div_right hinc).trans (CountMinSketch.getCount_decayCountsBy _ k hpos)
  · exact hinc

theorem numHashes_addLocked (h : c.accessFreq.numHashes = kHashCount) (n : α) (t : Time) :
    (c.addLocked n t).accessFreq.numHashes = kHashCount := by
  obtain ⟨c₁, -, hf, he⟩ := addLocked_eq_count c n t
  have h₁ : c₁.accessFreq.numHashes = kHashCount := by
    rw [hf, numHashes_updateFrequenciesLocked, h]
  rw [he]
  show c₁.maybeGrowAccessCountersLocked.accessFreq.numHashes = kHashCount
  rw [numHashes_maybeGrowAccessCountersLocked]
  split_ifs
  exacts [h₁, rfl]

omit [DecidableEq α] in
/-- A restore builds a sketch of `kHashCount` rows. -/
theorem numHashes_restore {object : MMTinyLFUObject α} {nodes : α → Node}
    {index : Nat → Nat → Nat → Nat} {now : Time} (hr : restore object nodes index now = .ok c) :
    c.accessFreq.numHashes = kHashCount := by
  obtain ⟨config, -, rfl⟩ := restore_eq_ok hr
  rw [numHashes_maybeGrowAccessCountersLocked, if_neg (by simp [fresh])]

end Container

namespace System
variable {α : Type} [DecidableEq α] {s : System α} {a : Action α} {k v w : Nat}

open Container

/-- The exact count of key hash `k` after one action, from `v` before it: zero after a rebuild
of the sketch, else the count after the action's call of `updateFrequenciesLocked` if it makes
one. -/
def keyCount (s : System α) (k : Nat) (a : Action α) (v : Nat) : Nat :=
  if s.rebuildsSketch a then 0
  else match s.countedKey a with
    | some h => countAfter (h = k) (s.c.windowSize + 1 = s.c.maxWindowSize) v
    | none => v

/-- The exact count of key hash `k` after a run from `s`, from `v` before it. -/
def keyCountRun (s : System α) (k : Nat) (v : Nat) : List (Action α) → Nat
  | [] => v
  | a :: acts => (s.step a).keyCountRun k (s.keyCount k a v) acts

theorem keyCount_mono (h : v ≤ w) : s.keyCount k a v ≤ s.keyCount k a w := by
  unfold keyCount
  split_ifs
  · exact le_rfl
  · split
    exacts [countAfter_mono h, h]

theorem keyCount_of_returns (h : s.returns a = false) : s.keyCount k a v = v := by
  simp [keyCount, rebuildsSketch_of_returns h, countedKey_of_returns h]

/-- Every action keeps a sketch of `kHashCount` rows. -/
theorem numHashes_step (h : s.c.accessFreq.numHashes = kHashCount) (a : Action α) :
    (s.step a).c.accessFreq.numHashes = kHashCount := by
  rcases step_cases s a with ⟨he, -⟩ | ⟨n, now, -, -, -, -, he⟩ | ⟨n, -, -, -, he⟩ |
    ⟨o, n, -, -, -, he⟩ | ⟨n, -, -, -, -, -, -, he⟩ | ⟨n, -, now, statNow, -, -, -, -, he⟩ |
    ⟨n, now, statNow, -, -, -, he⟩ | ⟨n, now, statNow, -, -, -, he⟩ |
    ⟨config, now, -, -, he⟩ | ⟨o, now, -, -, hr⟩ | ⟨it, m, -, -, -, -, he⟩ <;>
    (try rw [he])
  · exact h
  · exact numHashes_addLocked h n now
  · simpa using h
  · simpa using h
  · exact h
  · rw [recordAccessLocked_accessFreq, numHashes_updateFrequenciesLocked]
    simpa [markAccessed] using h
  · rw [recordAccessLocked_accessFreq, numHashes_updateFrequenciesLocked]
    simpa using h
  · simpa using h
  · exact h
  · exact numHashes_restore hr
  · simpa using h

/-- One action leaves the estimate of key hash `k` at least at the exact count it makes of the
estimate before it. -/
theorem getCount_step (hw : s.c.Wf) (hh : s.c.accessFreq.numHashes = kHashCount) (k : Nat)
    (a : Action α) :
    s.keyCount k a (s.c.accessFreq.getCount k) ≤ (s.step a).c.accessFreq.getCount k := by
  have hpos : 0 < s.c.accessFreq.numHashes := by rw [hh]; decide
  rcases step_cases s a with ⟨he, hr⟩ | ⟨n, now, rfl, hr, hi, hin, he⟩ | ⟨n, rfl, -, -, he⟩ |
    ⟨o, n, rfl, -, -, he⟩ | ⟨n, mode, now, statNow, ok, rfl, hr, he⟩ |
    ⟨n, mode, now, statNow, ok, rfl, hr, -, he⟩ | ⟨n, now, statNow, rfl, hr, -, he⟩ |
    ⟨n, now, statNow, rfl, hr, -, he⟩ | ⟨config, now, rfl, hr, he⟩ |
    ⟨o, now, rfl, hr, -⟩ | ⟨it, m, rfl, -, -, -, he⟩
  · rw [keyCount_of_returns hr, he]
  · -- an `add` of a new entry counts it, unless the container reaches twice the capacity
    have hn : n ∉ s.c.lru.all := fun hm => by simp [(hw.inMM_iff n).mpr hm] at hin
    have hs := addLocked_size (t := now) hw.toSegWf hn
    have hrb : s.rebuildsSketch (.add n now) = decide (2 * s.c.capacity ≤ s.c.size + 1) := by
      simp [rebuildsSketch, hi, hin]
    rw [he, keyCount, hrb]
    by_cases hg : 2 * s.c.capacity ≤ s.c.size + 1
    · simp [hg]
    · rw [if_neg (by simpa using hg), show s.countedKey (.add n now) = some (s.c.hashNode n) by
        simp [countedKey, hr], addLocked_accessFreq_of_lt (by rw [hs]; omega)]
      exact getCount_updateFrequenciesLocked hpos n k
  · rw [he]; simp [keyCount, rebuildsSketch, countedKey]
  · rw [he]; simp [keyCount, rebuildsSketch, countedKey]
  · rw [keyCount_of_returns hr, he]; rfl
  · -- an access that returns true counts the entry after its list moves
    rw [keyCount, if_neg (by simp [rebuildsSketch]), show s.countedKey _ = some (s.c.hashNode n) by
      simp [countedKey, hr], he, recordAccessLocked_accessFreq]
    simpa [markAccessed] using getCount_updateFrequenciesLocked
      (c := (s.c.markAccessed n).reconfigureLocked now statNow) (by simpa [markAccessed] using hpos) n k
  · -- and so does a blocked access resumed
    rw [keyCount, if_neg (by simp [rebuildsSketch]), show s.countedKey _ = some (s.c.hashNode n) by
      simp [countedKey, hr], he, recordAccessLocked_accessFreq]
    simpa using getCount_updateFrequenciesLocked
      (c := s.c.reconfigureLocked now statNow) (by simpa using hpos) n k
  · rw [keyCount_of_returns hr, he]; simp
  · rw [keyCount_of_returns hr, he]; simp [setConfig]
  · rw [keyCount, if_pos (show s.rebuildsSketch (.restore o now) = true from hr)]
    exact Nat.zero_le _
  · rw [he]; simp [keyCount, rebuildsSketch, countedKey]

end System

open System

theorem Reachable.numHashes {α : Type} [DecidableEq α] {s : System α} (hs : Reachable s) :
    s.c.accessFreq.numHashes = Container.kHashCount := by
  induction hs with
  | init config nodes index now =>
    show (Container.fresh ⟨[], [], []⟩ config nodes index).maybeGrowAccessCountersLocked.accessFreq.numHashes = _
    rw [Container.numHashes_maybeGrowAccessCountersLocked, if_neg (by simp [Container.fresh])]
  | step a _ ih => exact numHashes_step ih a

/-- Along every run from a reachable state, the sketch's estimate of a key hash stays at least
the exact count of the key on the sketch's own schedule, started from any count at most the
estimate: one more at each call of `updateFrequenciesLocked` on an entry with that key, up to
the counters' cap `kCounterMax`, halved
at each call that ends the window, and zero at each rebuild of the sketch. -/
theorem sketch_never_undercounts {α : Type} [DecidableEq α] {s : System α} (hs : Reachable s)
    {k v : Nat} (hv : v ≤ s.c.accessFreq.getCount k) (acts : List (Action α)) :
    s.keyCountRun k v acts ≤ (s.run acts).c.accessFreq.getCount k := by
  induction acts generalizing s v with
  | nil => exact hv
  | cons a acts ih =>
    exact ih (hs.step a) ((keyCount_mono hv).trans (getCount_step hs.wf hs.numHashes k a))

/-- An entry added and then read twice: its key is counted three times, and the sketch's
estimate is at least three. -/
theorem sketch_never_undercounts_two_reads :
    let s := System.init ({ defaultLruRefreshTime := 0 } : Config)
      (fun n : Nat => ⟨fun _ => false, 0, n⟩) (fun _ _ h => h) 0
    let acts : List (Action Nat) :=
      [.add 1 0, .recordAccess 1 .read 0 0 true, .recordAccess 1 .read 1 1 true]
    Reachable s ∧ 0 ≤ s.c.accessFreq.getCount 1 ∧ s.keyCountRun 1 0 acts = 3 ∧
      s.keyCountRun 1 0 acts ≤ (s.run acts).c.accessFreq.getCount 1 := by
  intro s acts
  have hs : Reachable s := Reachable.init _ _ _ _ fun _ _ => rfl
  exact ⟨hs, Nat.zero_le _, by decide, sketch_never_undercounts hs (Nat.zero_le _) acts⟩

end WTinyLFU
