import Mathlib.Data.Set.Card
import WTinyLFU.Segments

/-! The segment invariant in every reachable state: each public operation keeps it, and so do
the eviction iterator's removal and a restart through `saveState`. -/
namespace WTinyLFU
namespace Container
variable {α : Type} [DecidableEq α] {c : Container α}

omit [DecidableEq α] in
/-- An entry is in the container exactly when it is linked in one list. -/
theorem SegWf.existsUnique_mem_getList_iff (h : c.SegWf) {n : α} :
    (∃! t, n ∈ c.lru.getList t) ↔ n ∈ c.lru.all := by
  refine ⟨fun ⟨t, ht, _⟩ => by cases t <;> simp_all, fun hn => ?_⟩
  rcases mem_all.mp hn with hn | hn | hn
  · exact ⟨.tiny, hn, fun t ht => by
      cases t <;> simp_all [h.not_mem_probation_of_tiny hn, h.not_mem_main_of_tiny hn]⟩
  · exact ⟨.probation, hn, fun t ht => by
      cases t <;> simp_all [h.not_mem_main_of_probation hn,
        fun ht => h.not_mem_probation_of_tiny ht hn]⟩
  · exact ⟨.main, hn, fun t ht => by
      cases t <;> simp_all [fun ht => h.not_mem_main_of_tiny ht hn,
        fun hp => h.not_mem_main_of_probation hp hn]⟩

omit [DecidableEq α] in
/-- Main holds the entries in the container with neither segment bit. -/
theorem Wf.mem_main_iff (h : c.Wf) {n : α} :
    n ∈ c.lru.main ↔
      c.isInMMContainer n = true ∧ c.isTiny n = false ∧ c.isProbation n = false := by
  rw [h.inMM_iff, Bool.eq_false_iff, Bool.eq_false_iff, Ne, Ne, h.tiny_iff, h.probation_iff,
    mem_all]
  refine ⟨fun hm => ⟨.inr (.inr hm), fun ht => h.not_mem_main_of_tiny ht hm,
    fun hp => h.not_mem_main_of_probation hp hm⟩, ?_⟩
  rintro ⟨ht | hp | hm, hnt, hnp⟩
  exacts [absurd ht hnt, absurd hp hnp, hm]

/-- `size()` counts the entries whose in-container bit is set. -/
theorem Wf.size_eq_ncard (h : c.Wf) : c.size = {n | c.isInMMContainer n = true}.ncard := by
  have e : {n | c.isInMMContainer n = true} = ↑c.lru.all.toFinset := by
    ext n; simp [h.inMM_iff n]
  rw [e, Set.ncard_coe_Finset, List.toFinset_card_of_nodup h.nodup, size,
    MultiDList.size_eq_length_all]

theorem Wf.recordAccessLocked (h : c.Wf) {n : α} (hn : c.isInMMContainer n = true) (t : Time) :
    (c.recordAccessLocked n t).Wf :=
  have hn' := (h.inMM_iff n).mp hn
  h.of_perm (h.toSegWf.recordAccessLocked hn') (recordAccessLocked_all_perm h.toSegWf hn')
    fun m => isFlagSet_recordAccessLocked (by decide) m

theorem Wf.add (h : c.Wf) (n : α) (t : Time) : (c.add n t).2.Wf := by
  unfold Container.add
  split
  · exact h
  · exact h.addLocked (Bool.eq_false_iff.mpr ‹_›)

theorem Wf.remove (h : c.Wf) (n : α) : (c.remove n).2.Wf := by
  unfold Container.remove
  split
  · exact h
  · exact h.removeLocked n

theorem Wf.replace (h : c.Wf) (o n : α) : (c.replace o n).2.Wf := by
  cases hr : (c.replace o n).1
  · rw [replace_of_fst_eq_false hr]
    exact h
  · obtain ⟨-, -, ho, hn⟩ := replace_guard hr
    rw [replace_of_fst hr]
    exact h.replaceLocked ho hn

theorem Wf.recordAccess (h : c.Wf) (n : α) (mode : AccessMode) (t u : Time) (ok : Bool) :
    (c.recordAccess n mode t u ok).2.Wf := by
  rcases recordAccess_cases c n mode t u ok with he | ⟨-, -, he⟩ | ⟨hin, -, he⟩ <;>
    simp only [he]
  exacts [h, wf_markAccessed.mpr h,
    Wf.recordAccessLocked (by simp [h]) (by simpa [markAccessed] using hin) t]

omit [DecidableEq α] in
theorem Wf.setConfig (h : c.Wf) (config : Config) (now : Time) : (c.setConfig config now).Wf :=
  h.frame rfl fun _ _ _ => rfl

theorem Wf.removeIt (h : c.Wf) (it : LockedIterator α) : (c.removeIt it).1.Wf := by
  unfold Container.removeIt
  split
  · exact h.removeLocked _
  · exact h

omit [DecidableEq α] in
/-- A restart over the same entries keeps the lists and the bits. -/
theorem Wf.restore (h : c.Wf) {configObject : MMTinyLFUConfig} {index : Nat → Nat → Nat → Nat}
    {now : Time} {c' : Container α}
    (hr : Container.restore (c.saveState configObject) c.nodes index now = .ok c') : c'.Wf := by
  obtain ⟨config, -, rfl⟩ := restore_eq_ok hr
  exact h.frame (by simp [saveState, fresh]) fun _ _ _ => by simp [isFlagSet, fresh]

omit [DecidableEq α] in
/-- A new container over entries with clear flags. -/
theorem wf_new {config : Config} {nodes : α → Node} (hn : FlagsClear nodes)
    (index : Nat → Nat → Nat → Nat) (now : Time) : (new config nodes index now).Wf :=
  ⟨⟨List.nodup_nil, fun m => by simp [new, fresh, isFlagSet, Node.isFlagSet, hn m],
    fun m => by simp [new, fresh, isFlagSet, Node.isFlagSet, hn m]⟩,
    fun m => by simp [new, fresh, isFlagSet, Node.isFlagSet, hn m, MultiDList.all]⟩

end Container

namespace System
variable {α : Type} [DecidableEq α] {s : System α}

/-- Every action keeps the segment invariant. -/
theorem wf_step (h : s.c.Wf) (a : Action α) : (s.step a).c.Wf := by
  rcases step_cases s a with ⟨he, -⟩ | ⟨n, now, -, -, -, hin, he⟩ | ⟨n, -, -, -, he⟩ |
    ⟨o, n, -, -, hr, he⟩ | ⟨n, -, -, -, -, -, -, he⟩ | ⟨n, mode, now, u, ok, -, -, hin, he⟩ |
    ⟨n, now, u, -, -, hin, he⟩ | ⟨n, now, u, -, -, -, he⟩ | ⟨config, now, -, -, he⟩ |
    ⟨o, now, -, -, hr⟩ | ⟨it, m, -, -, -, -, he⟩
  · exact he ▸ h
  · exact he ▸ h.addLocked hin
  · exact he ▸ h.removeLocked n
  · obtain ⟨-, -, ho, hn⟩ := Container.replace_guard hr
    exact he ▸ h.replaceLocked ho hn
  · exact he ▸ Container.wf_markAccessed.mpr h
  · exact he ▸ Container.Wf.recordAccessLocked (by simp [h])
      (by simpa [Container.markAccessed] using hin) now
  · exact he ▸ Container.Wf.recordAccessLocked (by simp [h]) (by simpa using hin) now
  · exact he ▸ Container.wf_reconfigureLocked.mpr h
  · exact he ▸ h.setConfig config now
  · exact h.restore hr
  · exact he ▸ h.removeLocked m

end System

/-- The segment invariant holds in every reachable state. -/
theorem Reachable.wf {α : Type} [DecidableEq α] {s : System α} (hs : Reachable s) : s.c.Wf := by
  induction hs with
  | init config nodes index now hn => exact Container.wf_new hn index now
  | step a _ ih => exact System.wf_step ih a

/-- In every reachable state the three lists are disjoint and free of duplicates, the Tiny and
Probation bits name the list an entry is in, and the in-container bit marks the entries linked
in exactly one list, which `size()` counts. -/
theorem reachable_segment_invariant {α : Type} [DecidableEq α] {s : System α}
    (hs : Reachable s) :
    s.c.lru.tiny.Nodup ∧ s.c.lru.probation.Nodup ∧ s.c.lru.main.Nodup ∧
      s.c.lru.tiny.Disjoint s.c.lru.probation ∧ s.c.lru.tiny.Disjoint s.c.lru.main ∧
      s.c.lru.probation.Disjoint s.c.lru.main ∧
      (∀ n, n ∈ s.c.lru.tiny ↔ s.c.isTiny n = true) ∧
      (∀ n, n ∈ s.c.lru.probation ↔ s.c.isProbation n = true) ∧
      (∀ n, n ∈ s.c.lru.main ↔
        s.c.isInMMContainer n = true ∧ s.c.isTiny n = false ∧ s.c.isProbation n = false) ∧
      (∀ n, ¬(s.c.isTiny n = true ∧ s.c.isProbation n = true)) ∧
      (∀ n, s.c.isInMMContainer n = true ↔ ∃! t, n ∈ s.c.lru.getList t) ∧
      s.c.size = {n | s.c.isInMMContainer n = true}.ncard := by
  have h := hs.wf
  exact ⟨h.nodup_tiny, h.nodup_probation, h.nodup_main,
    fun _ ht hp => h.not_mem_probation_of_tiny ht hp, fun _ ht hm => h.not_mem_main_of_tiny ht hm,
    fun _ hp hm => h.not_mem_main_of_probation hp hm, fun n => (h.tiny_iff n).symm,
    fun n => (h.probation_iff n).symm, fun _ => h.mem_main_iff, h.not_tiny_and_probation,
    fun n => (h.inMM_iff n).trans h.existsUnique_mem_getList_iff.symm, h.size_eq_ncard⟩

/-- Three entries added to a new container. -/
theorem reachable_segment_invariant_three_adds :
    let s := (System.init ({} : Config) (fun n : Nat => ⟨fun _ => false, 0, n⟩) (fun _ _ h => h) 0).run
      [.add 1 0, .add 2 0, .add 3 0]
    Reachable s ∧ s.c.lru.tiny.Nodup ∧ s.c.lru.probation.Nodup ∧ s.c.lru.main.Nodup ∧
      s.c.lru.tiny.Disjoint s.c.lru.probation ∧ s.c.lru.tiny.Disjoint s.c.lru.main ∧
      s.c.lru.probation.Disjoint s.c.lru.main ∧
      (∀ n, n ∈ s.c.lru.tiny ↔ s.c.isTiny n = true) ∧
      (∀ n, n ∈ s.c.lru.probation ↔ s.c.isProbation n = true) ∧
      (∀ n, n ∈ s.c.lru.main ↔
        s.c.isInMMContainer n = true ∧ s.c.isTiny n = false ∧ s.c.isProbation n = false) ∧
      (∀ n, ¬(s.c.isTiny n = true ∧ s.c.isProbation n = true)) ∧
      (∀ n, s.c.isInMMContainer n = true ↔ ∃! t, n ∈ s.c.lru.getList t) ∧
      s.c.size = {n | s.c.isInMMContainer n = true}.ncard := by
  intro s
  have hs : Reachable s := (Reachable.init _ _ _ _ fun _ _ => rfl).run _
  exact ⟨hs, reachable_segment_invariant hs⟩

end WTinyLFU
