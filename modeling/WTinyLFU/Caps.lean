import WTinyLFU.Access

/-! The caps on Tiny and Main. `add` moves at most one entry out of Tiny and an access at most
one out of Main, so a cap holds after the call only when it held before, up to the entry the
call brings in: removals that shrink the container can leave Tiny or Main above its cap, and
later calls do not bring it back under. -/
namespace WTinyLFU
namespace Container
variable {α : Type} [DecidableEq α] {c : Container α} {n : α} {t : Time}

theorem addLocked_size (h : c.SegWf) (hn : n ∉ c.lru.all) :
    (c.addLocked n t).size = c.size + 1 := by
  rw [size, size, MultiDList.size_eq_length_all, MultiDList.size_eq_length_all,
    (addLocked_all_perm h hn).length_eq, List.length_cons]

/-- Tiny after `addLocked`, when the cap's product does not wrap: one longer, unless with the
new entry it is above its cap, and then its tail spills to Probation. -/
theorem addLocked_tiny_length (h : c.SegWf) (hn : n ∉ c.lru.all)
    (hw : c.config.tinySizePercent * (c.size + 1) < 2 ^ 64) :
    (c.addLocked n t).lru.tiny.length =
      if c.lru.tiny.length < c.config.tinySizePercent * (c.size + 1) / 100
      then c.lru.tiny.length + 1 else c.lru.tiny.length := by
  have h1 : (((c.modifyLru .tiny (DList.linkAtHead n)).markTiny n).updateFrequenciesLocked n).SegWf :=
    segWf_updateFrequenciesLocked.mpr (h.linkTiny hn)
  simp only [addLocked, unmarkAccessed, unSetFlag, setUpdateTime, markInMMContainer, setFlag,
    setNode_lru, maybeGrowAccessCountersLocked_lru]
  set c₂ := ((c.modifyLru .tiny (DList.linkAtHead n)).markTiny n).updateFrequenciesLocked n
  have ht : c₂.lru.tiny.length = c.lru.tiny.length + 1 := by simp [c₂, markTiny]
  have hs : c₂.lru.size = c.size + 1 := by
    simp [c₂, markTiny, size, MultiDList.size]; omega
  have hc : c₂.config = c.config := by simp [c₂, markTiny]
  split_ifs with hspill hlt hlt <;> rw [hs, hc, ht, Nat.mod_eq_of_lt hw] at hspill
  · omega
  · have := spillTinyTailLocked_tiny_length h1 (List.ne_nil_of_length_pos (by omega))
    omega
  · rw [maybePromoteTailLocked_tiny_length h1, ht]
  · omega

end Container

open Container

/-- An `add` that returns true, with a Tiny cap whose `size_t` product does not wrap, grows the
container by one and lengthens Tiny by one when Tiny was under its cap on the grown container;
otherwise its tail spills to Probation and Tiny keeps its length, above the cap if it was above
it. -/
theorem add_tiny_cap {α : Type} [DecidableEq α] {s : System α} (hs : Reachable s) {n : α}
    {t : Time} (hw : s.c.config.tinySizePercent * (s.c.size + 1) < 2 ^ 64)
    (hr : (s.c.add n t).1 = true) :
    (s.c.add n t).2.size = s.c.size + 1 ∧
      (s.c.add n t).2.lru.tiny.length =
        if s.c.lru.tiny.length < s.c.config.tinySizePercent * (s.c.add n t).2.size / 100
        then s.c.lru.tiny.length + 1 else s.c.lru.tiny.length := by
  have h := hs.wf
  have hin : s.c.isInMMContainer n = false := by simpa [add_fst] using hr
  have hn : n ∉ s.c.lru.all := fun hm => by simp [(h.inMM_iff n).mpr hm] at hin
  have he : (s.c.add n t).2 = s.c.addLocked n t := by simp [Container.add, hin]
  rw [he, addLocked_size h.toSegWf hn]
  exact ⟨rfl, addLocked_tiny_length h.toSegWf hn hw⟩

/-- An entry added once Tiny is back under its cap. -/
theorem add_tiny_cap_second_entry :
    let s := (System.init
      ({ tinySizePercent := 50, protectionFreq_ := 0, protectionSegmentSizePct := 100 } : Config)
      (fun n : Nat => ⟨fun _ => false, 0, n⟩) (fun _ _ h => h) 0).run
      [.add 1 0, .recordAccess 1 .read 0 0 true, .add 2 0, .add 3 0,
        .recordAccess 2 .read 0 0 true, .add 4 0, .remove 1, .remove 2]
    Reachable s ∧ s.c.config.tinySizePercent * (s.c.size + 1) < 2 ^ 64 ∧ (s.c.add 5 0).1 = true ∧
      (s.c.add 5 0).2.size = s.c.size + 1 ∧
      (s.c.add 5 0).2.lru.tiny.length =
        if s.c.lru.tiny.length < s.c.config.tinySizePercent * (s.c.add 5 0).2.size / 100
        then s.c.lru.tiny.length + 1 else s.c.lru.tiny.length := by
  intro s
  have hs : Reachable s := (Reachable.init _ _ _ _ fun _ _ => rfl).run _
  exact ⟨hs, by decide, by decide, add_tiny_cap hs (by decide) (by decide)⟩

/-- Two Main entries removed leave Tiny's two entries above a cap of one, and the next `add`
keeps Tiny at two on a container of three. -/
theorem add_tiny_above_cap :
    let s := (System.init
      ({ tinySizePercent := 50, protectionFreq_ := 0, protectionSegmentSizePct := 100 } : Config)
      (fun n : Nat => ⟨fun _ => false, 0, n⟩) (fun _ _ h => h) 0).run
      [.add 1 0, .recordAccess 1 .read 0 0 true, .add 2 0, .add 3 0,
        .recordAccess 2 .read 0 0 true, .add 4 0, .remove 1, .remove 2]
    Reachable s ∧ (s.c.add 5 0).1 = true ∧
      s.c.config.tinySizePercent * (s.c.add 5 0).2.size / 100 < (s.c.add 5 0).2.lru.tiny.length :=
  ⟨(Reachable.init _ _ _ _ fun _ _ => rfl).run _, by decide, by decide⟩

/-- Under the default share of 80%, five promotions fill Main with five of seven entries, and
the two Probation entries are removed. The promotion of a new entry then demotes one Main entry
and leaves Main holding five of six entries, where 80% of six rounds down to four. -/
theorem recordAccess_main_above_cap :
    let s : System Nat := (System.init ({ protectionFreq_ := 0 } : Config)
      (fun n : Nat => ⟨fun _ => false, 0, n⟩) (fun _ _ h => h) 0).run
      [.add 1 0, .add 2 0, .add 3 0, .add 4 0, .add 5 0, .add 6 0, .add 7 0,
        .recordAccess 1 .read 0 0 true, .recordAccess 2 .read 0 0 true,
        .recordAccess 3 .read 0 0 true, .recordAccess 4 .read 0 0 true,
        .recordAccess 5 .read 0 0 true, .remove 6, .remove 7, .add 8 0]
    let a : Action Nat := .recordAccess 8 .read 0 0 true
    Reachable s ∧ 8 ∈ s.c.lru.probation ∧ s.returns a = true ∧
      (s.step a).c.lru.main = [8, 5, 4, 3, 2] ∧ (s.step a).c.lru.probation = [1] ∧
      (s.step a).c.config.protectionSegmentSizePct *
          ((s.step a).c.lru.main.length + (s.step a).c.lru.probation.length) / 100 <
        (s.step a).c.lru.main.length :=
  ⟨(Reachable.init _ _ _ _ fun _ _ => rfl).run _, by decide, by decide, by decide, by decide,
    by decide⟩

end WTinyLFU
