import WTinyLFU.Membership

/-! The admission policy of `add`. The new entry is linked at the head of Tiny and counted;
then, if Tiny is above `tinySizePercent` of the container, Tiny's tail `t` spills to the head of
Probation. Otherwise `t` duels with Probation's tail `p` on their sketch counts, with the new
entry already counted: an admitted `t` swaps places with `p`, and a `t` that loses leaves Tiny
as it is and rotates `p` to the head of Probation. Main is never touched. -/
namespace WTinyLFU

namespace DList
variable {α : Type}

/-- A list with an entry linked at its head, split before its tail. -/
theorem cons_eq_dropLast_append (x : α) (l : List α) :
    x :: l = (x :: l).dropLast ++ [(getTail l).getD x] := by
  induction l generalizing x with
  | nil => rfl
  | cons y l ih =>
    have ht : (getTail (y :: l)).getD x = (getTail l).getD y := by
      simp [getTail, List.getLast?_cons]
    rw [List.dropLast_cons₂, List.cons_append, ht, ← ih y]

end DList

namespace Container
variable {α : Type} [DecidableEq α] {c : Container α} {n : α}

/-- The lists `addLocked` leaves: Main as it was, and Tiny and Probation after the spill, the
swap or the rotation. -/
theorem addLocked_lru_cases (h : c.SegWf) (hn : n ∉ c.lru.all) (now : Time) :
    let t := (DList.getTail c.lru.tiny).getD n
    let l' := (c.addLocked n now).lru
    l'.main = c.lru.main ∧
      if c.config.tinySizePercent * (c.lru.size + 1) % 2 ^ 64 / 100 < c.lru.tiny.length + 1 then
        l'.tiny = (n :: c.lru.tiny).dropLast ∧ l'.probation = t :: c.lru.probation
      else match DList.getTail c.lru.probation with
        | none => l'.tiny = n :: c.lru.tiny ∧ l'.probation = []
        | some p =>
          if (c.updateFrequenciesLocked n).admitToProbation t p then
            l'.tiny = (n :: c.lru.tiny).dropLast ++ [p] ∧
              l'.probation = t :: c.lru.probation.dropLast
          else l'.tiny = n :: c.lru.tiny ∧ l'.probation = p :: c.lru.probation.dropLast := by
  intro t l'
  refine ⟨addLocked_main c n now, ?_⟩
  -- the state the arbitration runs in: the entry linked at the head of Tiny and counted
  obtain ⟨c₀, hc₀⟩ : ∃ c₀, c₀ =
      ((c.modifyLru .tiny (DList.linkAtHead n)).markTiny n).updateFrequenciesLocked n := ⟨_, rfl⟩
  have hs₀ : c₀.SegWf := by rw [hc₀]; exact segWf_updateFrequenciesLocked.mpr (h.linkTiny hn)
  have hl₀ : c₀.lru = { c.lru with tiny := n :: c.lru.tiny } := by
    simp [hc₀, markTiny, DList.linkAtHead]
  have ht₀ : c₀.lru.tiny = (n :: c.lru.tiny).dropLast ++ [t] := by
    rw [hl₀]; exact DList.cons_eq_dropLast_append n _
  have hadm : c₀.admitToProbation = (c.updateFrequenciesLocked n).admitToProbation := by
    have hh : ∀ d : Container α, (d.updateFrequenciesLocked n).hashNode = d.hashNode :=
      fun d => funext fun m => by simp [hashNode]
    have hw : ((c.modifyLru .tiny (DList.linkAtHead n)).markTiny n).windowSize = c.windowSize ∧
        ((c.modifyLru .tiny (DList.linkAtHead n)).markTiny n).maxWindowSize = c.maxWindowSize ∧
        ((c.modifyLru .tiny (DList.linkAtHead n)).markTiny n).accessFreq = c.accessFreq ∧
        ((c.modifyLru .tiny (DList.linkAtHead n)).markTiny n).config = c.config ∧
        ((c.modifyLru .tiny (DList.linkAtHead n)).markTiny n).hashNode = c.hashNode :=
      ⟨rfl, rfl, rfl, rfl, by simp [markTiny]⟩
    funext a b
    simp only [admitToProbation, hc₀, updateFrequenciesLocked_accessFreq,
      updateFrequenciesLocked_config, hh, hw]
  have hl' : l' = (if c.config.tinySizePercent * (c.lru.size + 1) % 2 ^ 64 / 100 < c.lru.tiny.length + 1
      then c₀.spillTinyTailLocked else c₀.maybePromoteTailLocked).lru := by
    have hcfg : c₀.config = c.config := by simp [hc₀, markTiny]
    have hsize : c₀.lru.size = c.lru.size + 1 := by rw [hl₀]; simp [MultiDList.size]; omega
    have hlen : c₀.lru.tiny.length = c.lru.tiny.length + 1 := by rw [hl₀]; rfl
    simp only [l', addLocked, ← hc₀, unmarkAccessed, markInMMContainer, setUpdateTime_lru,
      unSetFlag_lru, setFlag_lru, maybeGrowAccessCountersLocked_lru, hcfg, hsize, hlen]
  rw [hl']
  split_ifs with hspill
  · rw [spillTinyTailLocked_lru hs₀ ht₀, hl₀]
    exact ⟨rfl, rfl⟩
  · cases hp : DList.getTail c.lru.probation with
    | none =>
      rw [maybePromoteTailLocked_of_probation_nil (by rw [hl₀]; exact DList.getTail_eq_none.mp hp),
        hl₀]
      exact ⟨rfl, DList.getTail_eq_none.mp hp⟩
    | some p =>
      obtain ⟨lp, hlp⟩ := DList.getTail_eq_some.mp hp
      have hp₀ : c₀.lru.probation = lp ++ [p] := by rw [hl₀]; exact hlp
      have hdrop : c.lru.probation.dropLast = lp := by rw [hlp, List.dropLast_concat]
      dsimp only
      split_ifs with ha
      · rw [maybePromoteTailLocked_lru_of_admitted hs₀ ht₀ hp₀ (by rw [hadm]; exact ha), hdrop]
        exact ⟨rfl, rfl⟩
      · have hpl : p ∉ lp := not_mem_of_nodup_append_singleton (hp₀ ▸ hs₀.nodup_probation)
        rw [maybePromoteTailLocked_of_not_admitted ht₀ hp₀ (by rw [hadm]; simpa using ha), hdrop]
        simp [hl₀, hlp, DList.moveToHead, erase_append_singleton hpl]

end Container

/-- In every reachable state, an `add(n)` that returns true leaves Main as it was. Let `t` be
the Tiny tail once `n` is linked at Tiny's head. If Tiny, with `n`, is above `tinySizePercent`
of the container, the product taken as a `size_t`, `t` moves to the head of Probation. Otherwise, when Probation is empty nothing
more moves; and when Probation's tail is `p`, `t` and `p` trade places if `admitToProbation`
admits `t` on the counts after `n` is counted, and else `p` moves to the head of Probation. -/
theorem add_admission {α : Type} [DecidableEq α] {s : System α} (hs : Reachable s) {n : α}
    {now : Time} (h : (s.c.add n now).1 = true) :
    let t := (DList.getTail s.c.lru.tiny).getD n
    let l' := (s.c.add n now).2.lru
    l'.main = s.c.lru.main ∧
      if s.c.config.tinySizePercent * (s.c.size + 1) % 2 ^ 64 / 100 < s.c.lru.tiny.length + 1 then
        l'.tiny = (n :: s.c.lru.tiny).dropLast ∧ l'.probation = t :: s.c.lru.probation
      else match DList.getTail s.c.lru.probation with
        | none => l'.tiny = n :: s.c.lru.tiny ∧ l'.probation = []
        | some p =>
          if (s.c.updateFrequenciesLocked n).admitToProbation t p then
            l'.tiny = (n :: s.c.lru.tiny).dropLast ++ [p] ∧
              l'.probation = t :: s.c.lru.probation.dropLast
          else l'.tiny = n :: s.c.lru.tiny ∧ l'.probation = p :: s.c.lru.probation.dropLast := by
  have hw := hs.wf
  have hin : s.c.isInMMContainer n = false := by
    simpa [Container.add_fst] using h
  rw [Container.add_of_fst h]
  exact Container.addLocked_lru_cases hw.toSegWf
    (fun hm => by simp [(hw.inMM_iff n).mpr hm] at hin) now

/-- Under a Tiny share of half the container, the second entry is linked in a Tiny under its
cap and wins its duel with the first entry, alone in Probation, on a tie. -/
example :
    let s := (System.init ({ tinySizePercent := 50 } : Config)
      (fun n : Nat => ⟨fun _ => false, 0, n⟩) (fun _ _ h => h) 0).run [.add 1 0]
    s.c.lru.probation = [1] ∧ (s.c.add 2 0).2.lru.tiny = [1] ∧
      (s.c.add 2 0).2.lru.probation = [2] := by
  decide

end WTinyLFU
