import WTinyLFU.Access

/-! Restarts. `saveState` writes the config's fields and the three lists, and the restoring
constructor reads them back through the eleven-argument config constructor. The lists and the
refresh time come back as they were, and so does the config of a constructed container, but
for its refresh fields: the refresh time that reconfiguration last installed is read back as
both the default and the current refresh time. `saveState` never writes `tryLockUpdate`, which
keeps the value of the object it fills. -/
namespace WTinyLFU
namespace Container
variable {α : Type} [DecidableEq α] {c : Container α}

omit [DecidableEq α] in
/-- The config `saveState` writes reads back as the container's own, with its refresh time in
both refresh fields and the filled object's `tryLockUpdate`. -/
theorem ofSerialized_saveState (configObject : MMTinyLFUConfig) (ha : c.config.Accepted) :
    Config.ofSerialized (c.saveState configObject).config =
      .ok { c.config with
            defaultLruRefreshTime := c.lruRefreshTime, lruRefreshTime := c.lruRefreshTime,
            tryLockUpdate := configObject.tryLockUpdate } := by
  obtain ⟨-, hi, hc, hf, hp⟩ := ha.spec
  have hc' := Config.checkConfig_eq_ok.mp hc
  have hmod : (UInt32.ofNat c.config.mmReconfigureIntervalSecs).toNat =
      c.config.mmReconfigureIntervalSecs := UInt32.toNat_ofNat_of_lt (hi.trans_eq rfl)
  simp only [Config.ofSerialized, saveState, Config.make, bind, Except.bind, hmod, hf, hp,
    Config.checkConfig]
  rw [if_neg (by omega), if_neg (by omega)]
  rfl

omit [DecidableEq α] in
/-- A restore from `saveState` of a container under a constructed config succeeds, with the
saved lists and refresh time and with the container's config but for the two refresh fields,
which take the refresh time in force. `tryLockUpdate` is left open. -/
theorem restore_saveState (configObject : MMTinyLFUConfig) (nodes : α → Node)
    (index : Nat → Nat → Nat → Nat) (now : Time) (ha : c.config.Accepted) :
    ∃ c', restore (c.saveState configObject) nodes index now = .ok c' ∧ c'.lru = c.lru ∧
      c'.lruRefreshTime = c.lruRefreshTime ∧
      c'.config = { c.config with
        defaultLruRefreshTime := c.lruRefreshTime, lruRefreshTime := c.lruRefreshTime,
        tryLockUpdate := c'.config.tryLockUpdate } := by
  refine ⟨_, by rw [restore, ofSerialized_saveState configObject ha]; rfl, ?_, ?_, ?_⟩ <;>
    simp [saveState, fresh]

/-- A restart after two adds under the default config. -/
theorem restore_saveState_two_adds :
    let c := ((System.init ({} : Config) (fun n : Nat => ⟨fun _ => false, 0, n⟩)
      (fun _ _ h => h) 0).run [.add 1 0, .add 2 0]).c
    let o : MMTinyLFUConfig := ⟨60, 0, false, true, false, 32, 1, 0, true, 3, 80⟩
    c.config.Accepted ∧
      ∃ c', restore (c.saveState o) c.nodes c.accessFreq.index 0 = .ok c' ∧ c'.lru = c.lru ∧
        c'.lruRefreshTime = c.lruRefreshTime ∧
        c'.config = { c.config with
          defaultLruRefreshTime := c.lruRefreshTime, lruRefreshTime := c.lruRefreshTime,
          tryLockUpdate := c'.config.tryLockUpdate } :=
  have ha : ((System.init ({} : Config) (fun n : Nat => ⟨fun _ => false, 0, n⟩)
      (fun _ _ h => h) 0).run [.add 1 0, .add 2 0]).c.config.Accepted :=
    ⟨60, 0, false, true, false, 32, 1, 0, true, 3, 80, rfl⟩
  ⟨ha, restore_saveState _ _ _ _ ha⟩

/-- Raising to a default at or above the cap and then capping gives the cap. -/
theorem min_max_of_cap_le {d x k : UInt32} (h : k ≤ d) : min (max d x) k = k := by
  show (if (if d ≤ x then x else d) ≤ k then (if d ≤ x then x else d) else k) = k
  have key : ∀ y : UInt32, k ≤ y → y ≤ k → y = k := fun y h1 h2 =>
    UInt32.eq_of_toBitVec_eq (BitVec.le_antisymm h2 h1)
  split_ifs with h1 h2 h2
  · exact key x (UInt32.le_trans h h1) h2
  · rfl
  · exact key d h h2
  · rfl

omit [DecidableEq α] in
/-- A due reconfiguration under a default refresh time at or above `kLruRefreshTimeCap`
installs the cap, whatever the age of Main's tail. -/
theorem reconfigureLocked_lruRefreshTime_of_cap {t u : Time}
    (h : kLruRefreshTimeCap ≤ c.config.defaultLruRefreshTime) (ht : c.nextReconfigureTime ≤ t) :
    (c.reconfigureLocked t u).lruRefreshTime = kLruRefreshTimeCap := by
  rw [reconfigureLocked_lruRefreshTime, if_neg (UInt32.not_lt.mpr ht), min_max_of_cap_le h]

end Container

open Container

/-- Under a default refresh time of 1000 seconds and a reconfiguration interval of one second,
the first access reconfigures and installs the 900-second cap; the restored config then has a
default refresh time of 900, where the saved container's config has 1000. -/
theorem restore_saveState_after_reconfigure :
    let config : Config := { defaultLruRefreshTime := 1000, mmReconfigureIntervalSecs := 1 }
    let s := (System.init config (fun n : Nat => ⟨fun _ => false, 0, n⟩) (fun _ _ h => h) 0).run
      [.add 0 0, .recordAccess 0 .read 1 1 true]
    config.Accepted ∧ Reachable s ∧ s.c.config.defaultLruRefreshTime = 1000 ∧
      ∀ configObject nodes index now, ∃ c',
        restore (s.c.saveState configObject) nodes index now = .ok c' ∧
          c'.config.defaultLruRefreshTime = 900 := by
  intro config s
  have hs : s.c = (((new config (fun n : Nat => ⟨fun _ => false, 0, n⟩) (fun _ _ h => h) 0).add
      0 0).2.recordAccess 0 .read 1 1 true).2 := by
    simp only [s, System.run, List.foldl, System.step, System.withLock, System.init,
      Option.isNone_none, Bool.and_true, ↓reduceIte]
  have h₁ : (((new config (fun n : Nat => ⟨fun _ => false, 0, n⟩) (fun _ _ h => h) 0).add
      0 0).2.recordAccess 0 .read 1 1 true).1 = true := by decide
  have hcap : s.c.lruRefreshTime = kLruRefreshTimeCap := by
    rw [hs, (recordAccess_of_fst h₁).2, recordAccessLocked_lruRefreshTime,
      reconfigureLocked_lruRefreshTime_of_cap (by decide) (by decide)]
  have hacc : config.Accepted := ⟨1000, 0, false, true, false, 32, 1, 1, true, 3, 80, rfl⟩
  have h₀ : ((new config (fun n : Nat => ⟨fun _ => false, 0, n⟩) (fun _ _ h => h) 0).add
      0 0).1 = true := by decide
  have ha : s.c.config.Accepted := by
    rw [hs, (recordAccess_of_fst h₁).2, recordAccessLocked_config, reconfigureLocked_config,
      markAccessed, setFlag_config, add_of_fst h₀, addLocked_config]
    exact hacc
  refine ⟨hacc, (Reachable.init _ _ _ _ fun _ _ => rfl).run _, by decide,
    fun configObject nodes index now =>
      ⟨_, by rw [restore, ofSerialized_saveState configObject ha]; rfl, ?_⟩⟩
  simp [fresh, hcap, kLruRefreshTimeCap]

end WTinyLFU
