import Mathlib.Data.List.MinMax
import Mathlib.Data.List.Sort
import WTinyLFU.Sizing

/-! Ages. An entry enters Main only at its head, and only in the access that stamps it with the
clock reading of that access; every other path keeps Main's stamps or drops some of them. So
along a run whose clock readings never decrease, Main is stamped newest first, and the age of its
tail, which `getEvictionAgeStatLocked` reports and `reconfigureLocked` scales into the refresh
time, is the largest age in Main. -/
namespace WTinyLFU
open scoped List

/-- The clock readings an action makes: one on entry to `add`, `setConfig` and the restoring
constructor, and for `recordAccess` one on entry and one in `reconfigureLocked`. A blocked call
resumes with the reading it made on entry. -/
def Action.readings {α : Type} : Action α → List Time
  | .add _ now => [now]
  | .recordAccess _ _ now statNow _ => [now, statNow]
  | .resumeAccess _ now statNow => [now, statNow]
  | .setConfig _ now => [now]
  | .restore _ now => [now]
  | _ => []

namespace Container
variable {α : Type} [DecidableEq α] {c c' : Container α} {n : α} {T t : Time}

/-- The stamps of Main, head first. -/
def mainStamps (c : Container α) : List Time := c.lru.main.map c.getUpdateTime

/-- Main is stamped newest first, none later than `T`. -/
def StampedBy (c : Container α) (T : Time) : Prop := (T :: c.mainStamps).Sorted (· ≥ ·)

omit [DecidableEq α] in
theorem StampedBy.mono (h : c.StampedBy T) {T' : Time} (hT : T ≤ T') : c.StampedBy T' := by
  unfold StampedBy at *
  rw [List.sorted_cons] at h ⊢
  exact ⟨fun b hb => UInt32.le_trans (h.1 b hb) hT, h.2⟩

omit [DecidableEq α] in
theorem StampedBy.of_sublist (h : c.StampedBy T) (hs : c'.mainStamps <+ c.mainStamps) :
    c'.StampedBy T :=
  List.Pairwise.sublist (hs.cons₂ T) h

omit [DecidableEq α] in
/-- A stamp `t` no earlier than the bound, put in front, keeps the order under `t`. -/
theorem StampedBy.of_sublist_cons (h : c.StampedBy T) (ht : T ≤ t)
    (hs : c'.mainStamps <+ t :: c.mainStamps) : c'.StampedBy t := by
  have ht' := List.sorted_cons.mp (h.mono ht)
  exact List.Pairwise.sublist (hs.cons₂ t)
    (List.sorted_cons.mpr ⟨List.forall_mem_cons.mpr ⟨UInt32.le_refl t, ht'.1⟩, h.mono ht⟩)

theorem mainStamps_addLocked (hn : n ∉ c.lru.main) :
    (c.addLocked n t).mainStamps = c.mainStamps := by
  simp only [mainStamps, addLocked_main]
  exact List.map_congr_left fun m hm =>
    (getUpdateTime_addLocked c n m t).trans (if_neg (ne_of_mem_of_not_mem hm hn))

theorem mainStamps_removeLocked (h : c.SegWf) : (c.removeLocked n).mainStamps <+ c.mainStamps := by
  have hu : (c.removeLocked n).getUpdateTime = c.getUpdateTime :=
    funext (getUpdateTime_removeLocked c n)
  simp only [mainStamps, removeLocked_lru h, hu]
  exact (List.erase_sublist n _).map _

omit [DecidableEq α] in
/-- Replacing `o` by a fresh `n` that takes `o`'s image keeps the image of the list. -/
theorem map_replace_of_not_mem {β : Type} [BEq α] [LawfulBEq α] {l : List α} {o : α}
    {f g : α → β} (hn : n ∉ l) (ho : g n = f o) (hl : ∀ x ∈ l, g x = f x) :
    (l.replace o n).map g = l.map f := by
  induction l with
  | nil => rfl
  | cons a l ih =>
    rw [List.forall_mem_cons] at hl
    rw [List.mem_cons, not_or] at hn
    rw [List.replace_cons]
    split
    · rename_i hoa
      rw [List.map_cons, List.map_cons, ho, eq_of_beq hoa, List.map_congr_left hl.2]
    · rw [List.map_cons, List.map_cons, hl.1, ih hn.2 hl.2]

theorem mainStamps_replaceLocked (h : c.SegWf) {o : α} (hn : n ∉ c.lru.main) :
    (c.replaceLocked o n).mainStamps = c.mainStamps := by
  simp only [mainStamps, replaceLocked_lru h, DList.replace]
  exact map_replace_of_not_mem hn (by simp [getUpdateTime_replaceLocked])
    fun x hx => by simp [getUpdateTime_replaceLocked, ne_of_mem_of_not_mem hx hn]

theorem demoteMainTailLocked_main_sublist : c.demoteMainTailLocked.lru.main <+ c.lru.main := by
  unfold demoteMainTailLocked; dsimp only
  split_ifs <;> (try split) <;> simp [markProbation, DList.remove, List.erase_sublist]

theorem promoteToMainLocked_main_sublist :
    (c.promoteToMainLocked n).lru.main <+ n :: c.lru.main := by
  unfold promoteToMainLocked; dsimp only
  split_ifs
  exacts [demoteMainTailLocked_main_sublist, List.sublist_cons_self n _]

/-- An access moves its entry to the head of Main, or leaves Main alone, and may drop Main's
tail. -/
theorem recordAccessLocked_main_sublist (h : c.SegWf) (hn : n ∈ c.lru.all) :
    (c.recordAccessLocked n t).lru.main <+ n :: c.lru.main.erase n := by
  have hmem := h.mem_getList_getLruType hn
  simp only [recordAccessLocked, updateFrequenciesLocked_lru, setUpdateTime_lru]
  cases hl : c.getLruType n
  · exact List.Sublist.refl _
  · rw [hl] at hmem
    rw [List.erase_of_not_mem (h.not_mem_main_of_probation hmem)]
    exact promoteToMainLocked_main_sublist
  · rw [hl] at hmem
    rw [List.erase_of_not_mem (h.not_mem_main_of_tiny hmem)]
    exact List.sublist_cons_self n _

theorem mainStamps_recordAccessLocked (h : c.SegWf) (hn : n ∈ c.lru.all) :
    (c.recordAccessLocked n t).mainStamps <+ t :: c.mainStamps := by
  have htail : (c.lru.main.erase n).map (c.recordAccessLocked n t).getUpdateTime =
      (c.lru.main.erase n).map c.getUpdateTime :=
    List.map_congr_left fun m hm => (getUpdateTime_recordAccessLocked c n m t).trans
      (if_neg (h.nodup_main.mem_erase_iff.mp hm).1)
  refine ((recordAccessLocked_main_sublist (t := t) h hn).map _).trans ?_
  rw [List.map_cons, getUpdateTime_recordAccessLocked, if_pos rfl, htail]
  exact ((List.erase_sublist n _).map _).cons₂ t

@[simp] theorem mainStamps_markAccessed : (c.markAccessed n).mainStamps = c.mainStamps := by
  simp [mainStamps, markAccessed]

omit [DecidableEq α] in
@[simp] theorem mainStamps_reconfigureLocked (t u : Time) :
    (c.reconfigureLocked t u).mainStamps = c.mainStamps := by
  simp [mainStamps]

/-- The part of an access under the lock may stamp its entry with `now` and put it at the head
of Main. -/
theorem mainStamps_reconfigureLocked_recordAccessLocked (h : c.Wf) (hin : c.isInMMContainer n = true)
    (now u : Time) : ((c.reconfigureLocked now u).recordAccessLocked n now).mainStamps <+
      now :: c.mainStamps := by
  have e : (c.reconfigureLocked now u).mainStamps = c.mainStamps := mainStamps_reconfigureLocked now u
  have hs : (c.reconfigureLocked now u).SegWf :=
    h.toSegWf.frame (by simp) (fun _ => by simp) fun _ => by simp
  rw [← e]
  exact mainStamps_recordAccessLocked hs (by simpa using (h.inMM_iff n).mp hin)

omit [DecidableEq α] in
/-- A restart over the same entries keeps the lists and the stamps. -/
theorem mainStamps_restore {configObject : MMTinyLFUConfig} {index : Nat → Nat → Nat → Nat}
    {now : Time} (hr : Container.restore (c.saveState configObject) c.nodes index now = .ok c') :
    c'.mainStamps = c.mainStamps := by
  obtain ⟨config, -, rfl⟩ := restore_eq_ok hr
  simp [mainStamps, saveState, fresh, getUpdateTime]

omit [DecidableEq α] in
theorem stampedBy_new (config : Config) (nodes : α → Node) (index : Nat → Nat → Nat → Nat)
    (now T : Time) : (new config nodes index now).StampedBy T := by
  have hm : (new config nodes index now).lru.main = [] := by
    rw [new]; exact congrArg MultiDList.main (maybeGrowAccessCountersLocked_lru _)
  simp [StampedBy, mainStamps, hm]

/-- Of two stamps no later than `curr`, the earlier is the older. -/
theorem age_le_age {curr a b : Time} (ha : a ≤ curr) (hab : b ≤ a) :
    (curr - a).toNat ≤ (curr - b).toNat := by
  have hab' : b.toNat ≤ a.toNat := hab
  rw [UInt32.toNat_sub_of_le _ _ ha, UInt32.toNat_sub_of_le _ _ (UInt32.le_trans hab ha)]
  omega

/-- With Main stamped newest first and no later than `curr`, the age of Main's tail is the
largest age in Main, and the age `projectedLength` places before the tail is no larger. -/
theorem StampedBy.getEvictionAgeStatLocked (h : c.StampedBy curr) (p : Nat) :
    (c.getEvictionAgeStatLocked p curr).warmQueueStat.oldestElementAge =
        (c.lru.main.map fun n => (curr - c.getUpdateTime n).toNat).foldr max 0 ∧
      (c.getEvictionAgeStatLocked p curr).warmQueueStat.projectedAge ≤
        (c.getEvictionAgeStatLocked p curr).warmQueueStat.oldestElementAge := by
  by_cases hnil : c.lru.main = []
  · simp [Container.getEvictionAgeStatLocked, hnil]
  obtain ⟨l, x, hm⟩ : ∃ l x, c.lru.main = l ++ [x] :=
    ⟨_, _, (List.dropLast_append_getLast hnil).symm⟩
  obtain ⟨hle, hsorted⟩ := List.sorted_cons.mp h
  have hcurr : ∀ m ∈ c.lru.main, c.getUpdateTime m ≤ curr :=
    fun m hm => hle _ (List.mem_map_of_mem _ hm)
  have hx : ∀ m ∈ c.lru.main, (curr - c.getUpdateTime m).toNat ≤ (curr - c.getUpdateTime x).toNat := by
    have hxl := (List.pairwise_append.mp (by simpa [mainStamps, hm] using hsorted)).2.2
    intro m hm'
    rcases List.mem_append.mp (hm ▸ hm') with hml | hmx
    · exact age_le_age (hcurr m hm') (hxl _ (List.mem_map_of_mem _ hml) _ (List.mem_singleton_self _))
    · rw [List.mem_singleton.mp hmx]
  have hmax : (c.lru.main.map fun n => (curr - c.getUpdateTime n).toNat).foldr max 0 =
      (curr - c.getUpdateTime x).toNat :=
    le_antisymm (List.max_le_of_forall_le _ _ (by simpa using hx))
      (List.le_max_of_le (List.mem_map_of_mem _ (by simp [hm])) le_rfl)
  have hold : (c.getEvictionAgeStatLocked p curr).warmQueueStat.oldestElementAge =
      (curr - c.getUpdateTime x).toNat := by
    simp [Container.getEvictionAgeStatLocked, hm]
  refine ⟨hold.trans hmax.symm, ?_⟩
  rw [hold]
  simp only [Container.getEvictionAgeStatLocked]
  split
  · rename_i y hy
    exact hx y (List.mem_reverse.mp (List.mem_of_mem_drop (List.mem_of_mem_head? hy)))
  · simp [hm]

end Container

namespace System
variable {α : Type} [DecidableEq α] {s : System α} {T : Time}

open Container

/-- An action keeps Main's stamps in order: it drops some, or, as an access whose first clock
reading is `now`, may put `now` in front. -/
theorem mainStamps_step (hw : s.c.Wf) (a : Action α) :
    (s.step a).c.mainStamps <+ s.c.mainStamps ∨
      ∃ now rest, a.readings = now :: rest ∧
        (s.step a).c.mainStamps <+ now :: s.c.mainStamps := by
  rcases step_cases s a with ⟨he, -⟩ | ⟨n, now, rfl, -, -, hin, he⟩ | ⟨n, rfl, -, -, he⟩ |
    ⟨o, n, rfl, -, hr, he⟩ | ⟨n, mode, now, statNow, ok, rfl, -, he⟩ |
    ⟨n, mode, now, statNow, ok, rfl, -, hin, he⟩ | ⟨n, now, statNow, rfl, -, hin, he⟩ |
    ⟨n, now, statNow, rfl, -, -, he⟩ | ⟨config, now, rfl, -, he⟩ |
    ⟨o, now, rfl, -, hres⟩ | ⟨it, m, rfl, -, -, -, he⟩ <;> (try rw [he])
  · exact .inl (List.Sublist.refl _)
  · exact .inl (by rw [mainStamps_addLocked (hw.not_mem_of_not_inMM hin).2.2])
  · exact .inl (mainStamps_removeLocked hw.toSegWf)
  · exact .inl (by
      rw [mainStamps_replaceLocked hw.toSegWf (hw.not_mem_of_not_inMM (replace_guard hr).2.2.2).2.2])
  · exact .inl (by simp)
  · -- the locked body of an access may stamp its entry with `now`
    exact .inr ⟨now, [statNow], rfl, by
      simpa using mainStamps_reconfigureLocked_recordAccessLocked (wf_markAccessed.mpr hw)
        (by simpa [markAccessed] using hin) now statNow⟩
  · exact .inr ⟨now, [statNow], rfl,
      mainStamps_reconfigureLocked_recordAccessLocked hw hin now statNow⟩
  · exact .inl (by simp)
  · exact .inl (List.Sublist.refl _)
  · exact .inl (by rw [mainStamps_restore hres])
  · exact .inl (mainStamps_removeLocked hw.toSegWf)

/-- Along a run whose clock readings, and a last reading `curr`, never decrease, Main stays
stamped newest first, none later than `curr`. -/
theorem stampedBy_run (hs : Reachable s) (h : s.c.StampedBy T) (acts : List (Action α))
    (curr : Time) (hclock : (T :: (acts.flatMap Action.readings ++ [curr])).Sorted (· ≤ ·)) :
    (s.run acts).c.StampedBy curr := by
  induction acts generalizing s T with
  | nil => exact h.mono (List.rel_of_sorted_cons hclock curr (by simp))
  | cons a acts ih =>
    rw [List.flatMap_cons, List.append_assoc] at hclock
    rcases mainStamps_step hs.wf a with hsub | ⟨now, rest, hr, hsub⟩
    · exact ih (hs.step a) (h.of_sublist hsub)
        (hclock.sublist ((List.sublist_append_right _ _).cons₂ T))
    · rw [hr, List.cons_append] at hclock
      obtain ⟨hT, hnow⟩ := List.sorted_cons.mp hclock
      exact ih (hs.step _) (h.of_sublist_cons (hT now (by simp)) hsub)
        (hnow.sublist ((List.sublist_append_right rest _).cons₂ now))

end System

open Container

/-- Along a run from a new container whose clock readings never decrease, Main is stamped
newest first. Read at a later `curr`, the age of Main's tail is therefore the largest age in
Main, both as `getEvictionAgeStat` reports it and as a due `reconfigureLocked` scales it into
the refresh time, and the projected age is no larger. -/
theorem main_stamps_ordered {α : Type} [DecidableEq α] (config : Config) (nodes : α → Node)
    (index : Nat → Nat → Nat → Nat) (now : Time) (hn : FlagsClear nodes) (acts : List (Action α))
    (curr : Time) (hclock : (now :: acts.flatMap Action.readings ++ [curr]).Sorted (· ≤ ·))
    (projectedLength : Nat) :
    let c := ((System.init config nodes index now).run acts).c
    let stat := (c.getEvictionAgeStat projectedLength curr).warmQueueStat
    let oldest := (c.lru.main.map fun n => (curr - c.getUpdateTime n).toNat).foldr max 0
    (c.lru.main.map c.getUpdateTime).Sorted (· ≥ ·) ∧ stat.oldestElementAge = oldest ∧
      stat.projectedAge ≤ stat.oldestElementAge ∧
      ∀ t, c.nextReconfigureTime ≤ t → (c.reconfigureLocked t curr).lruRefreshTime =
        min (max c.config.defaultLruRefreshTime
          (Float.toUInt32 (oldest.toFloat * c.config.lruRefreshRatio))) kLruRefreshTimeCap := by
  intro c stat oldest
  have h : c.StampedBy curr := System.stampedBy_run (Reachable.init config nodes index now hn)
    (stampedBy_new config nodes index now now) acts curr hclock
  obtain ⟨hold, hproj⟩ := h.getEvictionAgeStatLocked projectedLength
  refine ⟨(List.sorted_cons.mp h).2, hold, hproj, fun t ht => ?_⟩
  rw [reconfigureLocked_lruRefreshTime, if_neg (UInt32.not_lt.mpr ht),
    (h.getEvictionAgeStatLocked 0).1]

/-- Four entries, two promoted to Main by accesses at increasing clock readings. -/
theorem main_stamps_ordered_two_promotions :
    let nodes := fun n : Nat => (⟨fun _ => false, 0, n⟩ : Node)
    let acts : List (Action Nat) := [.add 1 1, .add 2 2, .add 3 3, .add 4 4,
      .recordAccess 1 .read 5 5 true, .recordAccess 2 .read 6 6 true]
    let c := ((System.init { protectionFreq_ := 0 } nodes (fun _ _ h => h) 0).run acts).c
    let stat := (c.getEvictionAgeStat 1 9).warmQueueStat
    let oldest := (c.lru.main.map fun n => (9 - c.getUpdateTime n).toNat).foldr max 0
    FlagsClear nodes ∧ (0 :: acts.flatMap Action.readings ++ [9]).Sorted (· ≤ ·) ∧
      (c.lru.main.map c.getUpdateTime).Sorted (· ≥ ·) ∧ stat.oldestElementAge = oldest ∧
      stat.projectedAge ≤ stat.oldestElementAge ∧
      ∀ t, c.nextReconfigureTime ≤ t → (c.reconfigureLocked t 9).lruRefreshTime =
        min (max c.config.defaultLruRefreshTime
          (Float.toUInt32 (oldest.toFloat * c.config.lruRefreshRatio))) kLruRefreshTimeCap :=
  ⟨fun _ _ => rfl, by decide,
    main_stamps_ordered _ _ _ 0 (fun _ _ => rfl) _ 9 (by decide) 1⟩

end WTinyLFU
