import WTinyLFU.Membership

/-! `recordAccess`. A call that returns true has marked the entry accessed, reconfigured and run
the locked body; a call that returns false has changed nothing, except on a failed `try_lock`,
where the accessed bit is already set. On a Probation entry counted above `protectionFreq_`
the locked body promotes it to the head of Main and then enforces Main's share, which takes the
promoted entry back when Main was empty and its share of the entries rounds down to zero. -/
namespace WTinyLFU
namespace Container
variable {α : Type} [DecidableEq α] {c : Container α} {n : α} {mode : AccessMode}
  {now statNow : Time} {ok : Bool}

section Promote
variable {t : Time}

/-- The state after the promotion and before the Main cap. -/
theorem expectedMainSize_promote (hn : n ∈ c.lru.probation) :
    (((c.modifyLru .probation (DList.remove n)).modifyLru .main
      (DList.linkAtHead n)).unmarkProbation n).expectedMainSize = c.expectedMainSize := by
  have := DList.length_remove hn
  simp only [expectedMainSize, unmarkProbation, unSetFlag_config, unSetFlag, setNode_lru,
    modifyLru_lru, modifyLru_config, MultiDList.modify_probation, MultiDList.modify_main,
    DList.length_linkAtHead]
  congr 3; omega

/-- The locked body on a Probation entry above `protectionFreq_` is the promotion followed by
the Main cap. -/
theorem recordAccessLocked_lru_of_promote (h : c.SegWf) (hn : n ∈ c.lru.probation)
    (hf : c.config.protectionFreq_ < c.accessFreq.getCount (c.hashNode n)) :
    (c.recordAccessLocked n t).lru =
      (((c.modifyLru .probation (DList.remove n)).modifyLru .main
        (DList.linkAtHead n)).unmarkProbation n).demoteMainTailLocked.lru := by
  have hp : c.getLruType n = .probation := by
    have := h.not_mem_probation_of_tiny (n := n)
    simp only [getLruType, (h.probation_iff n).mpr hn, if_true]
    rw [if_neg (fun ht => this ((h.tiny_iff n).mp ht) hn)]
  have hmv : (c.modifyLru .probation (DList.moveToHead n)).modifyLru .probation (DList.remove n) =
      c.modifyLru .probation (DList.remove n) := by
    simp [modifyLru, DList.moveToHead, DList.remove]
  simp only [recordAccessLocked, hp, if_true, updateFrequenciesLocked_lru, setUpdateTime_lru,
    promoteToMainLocked, modifyLru_accessFreq, hashNode_modifyLru, modifyLru_config, hf, hmv]

/-- Main's length after a promotion: one more, unless Main was at its share. -/
theorem recordAccessLocked_main_length_of_promote (h : c.SegWf) (hn : n ∈ c.lru.probation)
    (hf : c.config.protectionFreq_ < c.accessFreq.getCount (c.hashNode n)) :
    (c.recordAccessLocked n t).lru.main.length =
      if c.lru.main.length < c.expectedMainSize then c.lru.main.length + 1
      else c.lru.main.length := by
  rw [recordAccessLocked_lru_of_promote h hn hf]
  set p := ((c.modifyLru .probation (DList.remove n)).modifyLru .main
    (DList.linkAtHead n)).unmarkProbation n
  have hpm : p.lru.main = n :: c.lru.main := rfl
  have hE : p.expectedMainSize = c.expectedMainSize := expectedMainSize_promote hn
  by_cases hlt : p.expectedMainSize < p.lru.main.length
  · obtain ⟨l, x, hm⟩ : ∃ l x, p.lru.main = l ++ [x] :=
      ⟨_, _, (List.dropLast_append_getLast (List.ne_nil_of_length_pos (by omega))).symm⟩
    have hps : p.SegWf := h.promote hn
    rw [demoteMainTailLocked_lru hps hlt hm, if_neg (by rw [hpm] at hlt; simp at hlt; omega)]
    have := congrArg List.length hm
    simp [hpm] at this ⊢; omega
  · rw [demoteMainTailLocked_of_le (by omega), if_pos (by rw [hpm] at hlt; simp at hlt; omega)]
    simp [hpm]

/-- Where the promoted entry ends: back at the tail of Probation when Main was empty and its
share rounds down to zero, else at the head of Main. -/
theorem recordAccessLocked_promoted (h : c.SegWf) (hn : n ∈ c.lru.probation)
    (hf : c.config.protectionFreq_ < c.accessFreq.getCount (c.hashNode n))
    (hw : c.config.protectionSegmentSizePct * (c.lru.probation.length + c.lru.main.length) <
      2 ^ 64) :
    if c.lru.main = [] ∧ c.config.protectionSegmentSizePct * c.lru.probation.length < 100 then
      (c.recordAccessLocked n t).lru.main = [] ∧
        (c.recordAccessLocked n t).lru.probation.getLast? = some n
    else (c.recordAccessLocked n t).lru.main.head? = some n := by
  rw [recordAccessLocked_lru_of_promote h hn hf]
  set p := ((c.modifyLru .probation (DList.remove n)).modifyLru .main
    (DList.linkAtHead n)).unmarkProbation n
  have hpm : p.lru.main = n :: c.lru.main := rfl
  have hE : p.expectedMainSize = c.expectedMainSize := expectedMainSize_promote hn
  have hps : p.SegWf := h.promote hn
  rcases hm : c.lru.main with _ | ⟨m, ms⟩
  · -- an empty Main: the promoted entry is Main's tail
    have hE0 : c.expectedMainSize =
        c.config.protectionSegmentSizePct * c.lru.probation.length / 100 := by
      simp only [hm, List.length_nil, Nat.add_zero] at hw
      simp only [expectedMainSize, hm, List.length_nil, Nat.add_zero]
      rw [Nat.mod_eq_of_lt hw]
    by_cases hsmall : c.config.protectionSegmentSizePct * c.lru.probation.length < 100
    · have hlt : p.expectedMainSize < p.lru.main.length := by
        rw [hE, hE0, hpm, hm]; simp; omega
      rw [if_pos ⟨rfl, hsmall⟩, demoteMainTailLocked_lru hps hlt (l := []) (x := n)
        (by rw [hpm, hm]; rfl)]
      simp
    · rw [if_neg fun hc => hsmall hc.2,
        demoteMainTailLocked_of_le (by rw [hE, hE0, hpm, hm]; simp; omega), hpm, hm]
      rfl
  · -- a Main with a tail of its own keeps the promoted entry at its head
    rw [if_neg fun hc => by simp at hc]
    obtain ⟨l, x, hlx⟩ : ∃ l x, m :: ms = l ++ [x] :=
      ⟨_, _, (List.dropLast_append_getLast (List.cons_ne_nil m ms)).symm⟩
    by_cases hlt : p.expectedMainSize < p.lru.main.length
    · rw [demoteMainTailLocked_lru hps hlt (l := n :: l) (x := x) (by rw [hpm, hm, hlx]; rfl)]
      rfl
    · rw [demoteMainTailLocked_of_le (by omega), hpm, hm]
      rfl

end Promote

/-- Marking the entry and reconfiguring keep what the locked body reads. -/
theorem markAccessed_reconfigureLocked_segWf (h : c.SegWf) :
    ((c.markAccessed n).reconfigureLocked now statNow).SegWf :=
  h.frame (by simp [markAccessed]) (fun _ => by simp [markAccessed])
    (fun _ => by simp [markAccessed])

end Container

open Container

/-- For a Probation entry counted above `protectionFreq_`, and a Main share whose `size_t`
product does not wrap, a `recordAccess` that returns true leaves the entry at the head of Main,
unless Main was empty and `protectionSegmentSizePct` of Probation's length is below one entry:
then the Main cap takes it back to the tail of Probation. -/
theorem recordAccess_promotion {α : Type} [DecidableEq α] {s : System α} (hs : Reachable s)
    {n : α} {mode : AccessMode} {now statNow : Time} {ok : Bool}
    (hn : n ∈ s.c.lru.probation)
    (hf : s.c.config.protectionFreq_ < s.c.accessFreq.getCount (s.c.hashNode n))
    (hw : s.c.config.protectionSegmentSizePct * (s.c.lru.main.length + s.c.lru.probation.length) <
      2 ^ 64)
    (hr : (s.c.recordAccess n mode now statNow ok).1 = true) :
    if s.c.lru.main = [] ∧ s.c.config.protectionSegmentSizePct * s.c.lru.probation.length < 100
    then (s.c.recordAccess n mode now statNow ok).2.lru.main = [] ∧
      (s.c.recordAccess n mode now statNow ok).2.lru.probation.getLast? = some n
    else (s.c.recordAccess n mode now statNow ok).2.lru.main.head? = some n := by
  rw [(recordAccess_of_fst hr).2]
  have hs' : ((s.c.markAccessed n).reconfigureLocked now statNow).SegWf :=
    markAccessed_reconfigureLocked_segWf hs.wf.toSegWf
  have := recordAccessLocked_promoted (t := now) hs' (by simpa [markAccessed] using hn)
    (by simpa [markAccessed] using hf) (by simpa [markAccessed, Nat.add_comm] using hw)
  simpa [markAccessed] using this

/-- The first access to the newer of two Probation entries under a `protectionFreq_` of zero:
Main's share of two entries is one, so the entry stays at the head of Main. -/
theorem recordAccess_promotion_second_entry :
    let s := (System.init ({ defaultLruRefreshTime := 0, protectionFreq_ := 0 } : Config)
      (fun n : Nat => ⟨fun _ => false, 0, n⟩) (fun _ _ h => h) 0).run [.add 7 0, .add 8 0]
    Reachable s ∧ 8 ∈ s.c.lru.probation ∧
      s.c.config.protectionFreq_ < s.c.accessFreq.getCount (s.c.hashNode 8) ∧
      s.c.config.protectionSegmentSizePct * (s.c.lru.main.length + s.c.lru.probation.length) <
        2 ^ 64 ∧
      (s.c.recordAccess 8 .read 0 0 true).1 = true ∧
      if s.c.lru.main = [] ∧ s.c.config.protectionSegmentSizePct * s.c.lru.probation.length < 100
      then (s.c.recordAccess 8 .read 0 0 true).2.lru.main = [] ∧
        (s.c.recordAccess 8 .read 0 0 true).2.lru.probation.getLast? = some 8
      else (s.c.recordAccess 8 .read 0 0 true).2.lru.main.head? = some 8 := by
  intro s
  have hs : Reachable s := (Reachable.init _ _ _ _ fun _ _ => rfl).run _
  exact ⟨hs, by decide, by decide, by decide, by decide,
    recordAccess_promotion hs (by decide) (by decide) (by decide) (by decide)⟩

/-- The fourth access to a lone entry with the default `protectionFreq_` of three: its count of
four promotes it, and the Main cap takes it straight back to Probation. -/
theorem recordAccess_promotion_undone :
    let s := (System.init ({ defaultLruRefreshTime := 0 } : Config)
      (fun n : Nat => ⟨fun _ => false, 0, n⟩) (fun _ _ h => h) 0).run
      [.add 7 0, .recordAccess 7 .read 0 0 true, .recordAccess 7 .read 0 0 true,
        .recordAccess 7 .read 0 0 true]
    Reachable s ∧ 7 ∈ s.c.lru.probation ∧
      s.c.config.protectionFreq_ < s.c.accessFreq.getCount (s.c.hashNode 7) ∧
      (s.c.recordAccess 7 .read 0 0 true).1 = true ∧
      7 ∉ (s.c.recordAccess 7 .read 0 0 true).2.lru.main :=
  ⟨(Reachable.init _ _ _ _ fun _ _ => rfl).run _, by decide, by decide, by decide, by decide⟩

/-- A `recordAccess` call that returns false at once leaves the container as it was, but for
the entry's accessed bit, which a failed `try_lock` leaves set; a call that blocks in `lock()`
has set the bit. A blocked call that, resumed with the lock, finds the entry gone returns false
after `reconfigureLocked`, which writes `lruRefreshTime_` and `nextReconfigureTime_` and nothing
else. -/
theorem recordAccess_false_frame {α : Type} [DecidableEq α] {s : System α} {a : Action α}
    (h : s.returns a = false) :
    (∀ n mode now statNow ok, a = .recordAccess n mode now statNow ok →
      (s.step a).iter = s.iter ∧
      ((s.step a).c = s.c ∧ (s.step a).waiting = s.waiting ∨
        s.c.isInMMContainer n = true ∧ (s.step a).c = s.c.markAccessed n ∧
          (s.c.config.tryLockUpdate = true ∧ (s.step a).waiting = s.waiting ∨
            s.c.config.tryLockUpdate = false ∧ (s.step a).waiting = (n, now) :: s.waiting))) ∧
    (∀ n now statNow, a = .resumeAccess n now statNow →
      (s.step a).iter = s.iter ∧
      ((s.step a).c = s.c ∧ (s.step a).waiting = s.waiting ∨
        s.c.isInMMContainer n = false ∧ (n, now) ∈ s.waiting ∧
          (s.step a).c = { s.c with
            lruRefreshTime := (s.step a).c.lruRefreshTime,
            nextReconfigureTime := (s.step a).c.nextReconfigureTime } ∧
          (s.step a).waiting = s.waiting.erase (n, now))) := by
  refine ⟨fun n mode now statNow ok ha => ?_, fun n now statNow ha => ?_⟩ <;> subst ha
  · rcases System.step_recordAccess_cases (s := s) n mode now statNow ok with
      ⟨-, -, hs, hr⟩ | ⟨hl, hs, -⟩ | ⟨hl, -, ⟨-, hs⟩ | ⟨hin, hs⟩⟩ <;> rw [hs] <;>
      refine ⟨rfl, ?_⟩
    · rw [hr] at h
      rcases recordAccess_cases s.c n mode now statNow true with he | ⟨-, hok, -⟩ | ⟨-, -, he⟩
      · exact .inl ⟨by rw [he], rfl⟩
      · exact absurd hok (by decide)
      · simp [he] at h
    · rcases recordAccess_cases s.c n mode now statNow false with
        he | ⟨-, -, hin, he⟩ | ⟨-, hok, -⟩
      · exact .inl ⟨by rw [he], rfl⟩
      · exact .inr ⟨hin, by rw [he], .inl ⟨hl, rfl⟩⟩
      · exact absurd (hok hl) (by decide)
    · exact .inl ⟨rfl, rfl⟩
    · exact .inr ⟨hin, rfl, .inr ⟨hl, rfl⟩⟩
  · rcases System.step_resumeAccess_cases (s := s) n now statNow with
      ⟨-, hw, hs, hr⟩ | ⟨-, hs, -⟩ <;> rw [hs] <;> refine ⟨rfl, ?_⟩
    · rw [hr] at h
      rcases s.c.recordAccessUnderLock_cases n now statNow with ⟨hin, he⟩ | ⟨-, he⟩
      · rw [he]
        exact .inr ⟨hin, hw, reconfigureLocked_eq s.c now statNow, rfl⟩
      · simp [he] at h
    · exact .inl ⟨rfl, rfl⟩

/-- A call that blocks behind the eviction iterator, whose entry `remove(it)` then unlinks:
resumed once the iterator is destroyed, it reconfigures, which moves `nextReconfigureTime_` from
1 to 6, and returns false. -/
theorem recordAccess_false_frame_after_removal :
    let s := (System.init ({ defaultLruRefreshTime := 1000, mmReconfigureIntervalSecs := 1 } : Config)
      (fun n : Nat => ⟨fun _ => false, 0, n⟩) (fun _ _ h => h) 0).run
      [.add 0 0, .getEvictionIterator, .recordAccess 0 .read 5 5 true, .removeIt, .destroy]
    let a : Action Nat := .resumeAccess 0 5 5
    s.returns a = false ∧ s.c.nextReconfigureTime = 1 ∧ (s.step a).c.nextReconfigureTime = 6 ∧
    (∀ n mode now statNow ok, a = .recordAccess n mode now statNow ok →
      (s.step a).iter = s.iter ∧
      ((s.step a).c = s.c ∧ (s.step a).waiting = s.waiting ∨
        s.c.isInMMContainer n = true ∧ (s.step a).c = s.c.markAccessed n ∧
          (s.c.config.tryLockUpdate = true ∧ (s.step a).waiting = s.waiting ∨
            s.c.config.tryLockUpdate = false ∧ (s.step a).waiting = (n, now) :: s.waiting))) ∧
    (∀ n now statNow, a = .resumeAccess n now statNow →
      (s.step a).iter = s.iter ∧
      ((s.step a).c = s.c ∧ (s.step a).waiting = s.waiting ∨
        s.c.isInMMContainer n = false ∧ (n, now) ∈ s.waiting ∧
          (s.step a).c = { s.c with
            lruRefreshTime := (s.step a).c.lruRefreshTime,
            nextReconfigureTime := (s.step a).c.nextReconfigureTime } ∧
          (s.step a).waiting = s.waiting.erase (n, now))) :=
  ⟨by decide, by decide, by decide, recordAccess_false_frame (by decide)⟩

/-- With `tryLockUpdate` set, a failed `try_lock` makes `recordAccess` return false after it has
set the entry's accessed bit. -/
theorem recordAccess_false_sets_accessed :
    let s := (System.init ({ tryLockUpdate := true } : Config)
      (fun n : Nat => ⟨fun _ => false, 0, n⟩) (fun _ _ h => h) 0).run [.add 0 0]
    Reachable s ∧ (s.c.recordAccess 0 .read 0 0 false).1 = false ∧
      s.c.isAccessed 0 = false ∧ (s.c.recordAccess 0 .read 0 0 false).2.isAccessed 0 = true :=
  ⟨(Reachable.init _ _ _ _ fun _ _ => rfl).run _, by decide, by decide, by decide⟩

end WTinyLFU
