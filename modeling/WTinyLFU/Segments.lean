import WTinyLFU.System

/-! The segment invariant. The three lists are disjoint and free of duplicates, the Tiny
and Probation bits say which list an entry is in, and the in-container bit says whether it
is in one. Every operation keeps it, so every reachable state has it. -/
namespace WTinyLFU
namespace Container
variable {α : Type} {c : Container α}

/-- The lists against the Tiny and Probation bits. -/
structure SegWf (c : Container α) : Prop where
  nodup : c.lru.all.Nodup
  tiny_iff : ∀ n, c.isTiny n = true ↔ n ∈ c.lru.tiny
  probation_iff : ∀ n, c.isProbation n = true ↔ n ∈ c.lru.probation

/-- The segment invariant: `SegWf` and the in-container bit against the lists. -/
structure Wf (c : Container α) extends c.SegWf : Prop where
  inMM_iff : ∀ n, c.isInMMContainer n = true ↔ n ∈ c.lru.all

@[simp] theorem mem_all {m : MultiDList α} {n : α} :
    n ∈ m.all ↔ n ∈ m.tiny ∨ n ∈ m.probation ∨ n ∈ m.main := by
  simp [MultiDList.all, or_assoc]

namespace SegWf

theorem nodup_tiny (h : c.SegWf) : c.lru.tiny.Nodup :=
  (List.nodup_append.mp (List.nodup_append.mp h.nodup).1).1

theorem nodup_probation (h : c.SegWf) : c.lru.probation.Nodup :=
  (List.nodup_append.mp (List.nodup_append.mp h.nodup).1).2.1

theorem nodup_main (h : c.SegWf) : c.lru.main.Nodup := (List.nodup_append.mp h.nodup).2.1

theorem not_mem_probation_of_tiny (h : c.SegWf) {n : α} (hn : n ∈ c.lru.tiny) :
    n ∉ c.lru.probation :=
  (List.nodup_append.mp (List.nodup_append.mp h.nodup).1).2.2 hn

theorem not_mem_main_of_tiny (h : c.SegWf) {n : α} (hn : n ∈ c.lru.tiny) : n ∉ c.lru.main :=
  (List.nodup_append.mp h.nodup).2.2 (List.mem_append_left _ hn)

theorem not_mem_main_of_probation (h : c.SegWf) {n : α} (hn : n ∈ c.lru.probation) :
    n ∉ c.lru.main :=
  (List.nodup_append.mp h.nodup).2.2 (List.mem_append_right _ hn)

/-- No entry has both bits. -/
theorem not_tiny_and_probation (h : c.SegWf) (n : α) :
    ¬(c.isTiny n = true ∧ c.isProbation n = true) := fun ⟨ht, hp⟩ =>
  h.not_mem_probation_of_tiny ((h.tiny_iff n).mp ht) ((h.probation_iff n).mp hp)

theorem probation_eq_false_of_tiny (h : c.SegWf) {n : α} (ht : c.isTiny n = true) :
    c.isProbation n = false :=
  Bool.eq_false_iff.mpr fun hp => h.not_tiny_and_probation n ⟨ht, hp⟩

theorem tiny_eq_false_of_probation (h : c.SegWf) {n : α} (hp : c.isProbation n = true) :
    c.isTiny n = false :=
  Bool.eq_false_iff.mpr fun ht => h.not_tiny_and_probation n ⟨ht, hp⟩

/-- The invariant reads only the lists and the Tiny and Probation bits. -/
theorem frame {c' : Container α} (h : c.SegWf) (hl : c'.lru = c.lru)
    (ht : ∀ m, c'.isTiny m = c.isTiny m) (hp : ∀ m, c'.isProbation m = c.isProbation m) :
    c'.SegWf :=
  ⟨hl ▸ h.nodup, fun m => by rw [ht, hl, h.tiny_iff], fun m => by rw [hp, hl, h.probation_iff]⟩

end SegWf

/-- The invariant reads only the lists and the Tiny, Probation and in-container bits. -/
theorem Wf.frame {c' : Container α} (h : c.Wf) (hl : c'.lru = c.lru)
    (hf : ∀ m f, f ≠ .mmFlag1 → c'.isFlagSet m f = c.isFlagSet m f) : c'.Wf :=
  ⟨h.toSegWf.frame hl (fun m => hf m _ (by decide)) (fun m => hf m _ (by decide)),
    fun m => by
      simp only [isInMMContainer, hf m .inMMContainer (by decide), hl]; exact h.inMM_iff m⟩

theorem Wf.not_mem_of_not_inMM (h : c.Wf) {n : α} (hn : c.isInMMContainer n = false) :
    n ∉ c.lru.tiny ∧ n ∉ c.lru.probation ∧ n ∉ c.lru.main := by
  have := (h.inMM_iff n).not.mp (by simp [hn])
  simpa [not_or] using this

theorem not_mem_of_nodup_append_singleton {l : List α} {t : α} (h : (l ++ [t]).Nodup) :
    t ∉ l := fun ht => (List.nodup_append.mp h).2.2 ht (List.mem_singleton_self t)

variable [DecidableEq α]

theorem erase_append_singleton {l : List α} {t : α} (h : t ∉ l) : (l ++ [t]).erase t = l := by
  simp [List.erase_append_right _ h]

omit [DecidableEq α] in
/-- A permutation of the lists that keeps the in-container bits carries the invariant from
the lists' bits. -/
theorem Wf.of_perm {c' : Container α} (hw : c.Wf) (hs : c'.SegWf)
    (hperm : c'.lru.all.Perm c.lru.all)
    (hmm : ∀ m, c'.isInMMContainer m = c.isInMMContainer m) : c'.Wf :=
  ⟨hs, fun m => by rw [hmm, hw.inMM_iff, hperm.mem_iff]⟩

omit [DecidableEq α] in
theorem all_modify_perm {m : MultiDList α} {t : LruType} {f : List α → List α}
    (hf : (f (m.getList t)).Perm (m.getList t)) : (m.modify t f).all.Perm m.all := by
  cases t <;> simp only [MultiDList.all, MultiDList.modify, MultiDList.getList] at hf ⊢
  · exact hf.append_left _
  · exact (hf.append_left _).append_right _
  · exact (hf.append_right _).append_right _

omit [DecidableEq α] in
/-- Reordering one list keeps the lists' bits right. -/
theorem SegWf.modifyLru_perm (h : c.SegWf) {t : LruType} {f : List α → List α}
    (hf : (f (c.lru.getList t)).Perm (c.lru.getList t)) : (c.modifyLru t f).SegWf := by
  have hall := all_modify_perm hf
  refine ⟨hall.nodup_iff.mpr h.nodup, fun m => ?_, fun m => ?_⟩ <;> cases t <;>
    simp only [MultiDList.getList] at hf <;> simp [h.tiny_iff, h.probation_iff, hf.mem_iff]

section Frame
variable {n : α} {t u : Time}

@[simp] theorem segWf_setUpdateTime : (c.setUpdateTime n t).SegWf ↔ c.SegWf :=
  ⟨fun h => h.frame rfl (by simp) (by simp), fun h => h.frame rfl (by simp) (by simp)⟩

omit [DecidableEq α] in
@[simp] theorem segWf_updateFrequenciesLocked : (c.updateFrequenciesLocked n).SegWf ↔ c.SegWf :=
  ⟨fun h => h.frame (by simp) (by simp) (by simp), fun h => h.frame (by simp) (by simp) (by simp)⟩

omit [DecidableEq α] in
@[simp] theorem segWf_maybeGrowAccessCountersLocked :
    c.maybeGrowAccessCountersLocked.SegWf ↔ c.SegWf :=
  ⟨fun h => h.frame (by simp) (by simp) (by simp), fun h => h.frame (by simp) (by simp) (by simp)⟩

@[simp] theorem segWf_markInMMContainer : (c.markInMMContainer n).SegWf ↔ c.SegWf :=
  ⟨fun h => h.frame rfl (by simp [markInMMContainer]) (by simp [markInMMContainer]),
    fun h => h.frame rfl (by simp [markInMMContainer]) (by simp [markInMMContainer])⟩

@[simp] theorem segWf_unmarkAccessed : (c.unmarkAccessed n).SegWf ↔ c.SegWf :=
  ⟨fun h => h.frame rfl (by simp [unmarkAccessed]) (by simp [unmarkAccessed]),
    fun h => h.frame rfl (by simp [unmarkAccessed]) (by simp [unmarkAccessed])⟩

@[simp] theorem wf_setUpdateTime : (c.setUpdateTime n t).Wf ↔ c.Wf :=
  ⟨fun h => h.frame rfl (by simp), fun h => h.frame rfl (by simp)⟩

omit [DecidableEq α] in
@[simp] theorem wf_updateFrequenciesLocked : (c.updateFrequenciesLocked n).Wf ↔ c.Wf :=
  ⟨fun h => h.frame (by simp) (by simp), fun h => h.frame (by simp) (by simp)⟩

omit [DecidableEq α] in
@[simp] theorem wf_maybeGrowAccessCountersLocked : c.maybeGrowAccessCountersLocked.Wf ↔ c.Wf :=
  ⟨fun h => h.frame (by simp) (by simp), fun h => h.frame (by simp) (by simp)⟩

omit [DecidableEq α] in
@[simp] theorem wf_reconfigureLocked : (c.reconfigureLocked t u).Wf ↔ c.Wf :=
  ⟨fun h => h.frame (by simp) (by simp), fun h => h.frame (by simp) (by simp)⟩

@[simp] theorem wf_markAccessed : (c.markAccessed n).Wf ↔ c.Wf :=
  ⟨fun h => h.frame rfl fun _ _ hf => by simp [markAccessed, hf],
    fun h => h.frame rfl fun _ _ hf => by simp [markAccessed, hf]⟩

@[simp] theorem wf_unmarkAccessed : (c.unmarkAccessed n).Wf ↔ c.Wf :=
  ⟨fun h => h.frame rfl fun _ _ hf => by simp [unmarkAccessed, hf],
    fun h => h.frame rfl fun _ _ hf => by simp [unmarkAccessed, hf]⟩

end Frame

/-- Under the invariant `removeLocked` erases the entry from every list. -/
theorem removeLocked_lru (h : c.SegWf) (n : α) :
    (c.removeLocked n).lru =
      ⟨c.lru.main.erase n, c.lru.probation.erase n, c.lru.tiny.erase n⟩ := by
  unfold removeLocked
  split_ifs with ht hp
  · have hn := (h.tiny_iff n).mp ht
    simp [unmarkAccessed, unmarkInMMContainer, unmarkTiny, unSetFlag, DList.remove,
      List.erase_of_not_mem (h.not_mem_probation_of_tiny hn),
      List.erase_of_not_mem (h.not_mem_main_of_tiny hn)]
  · have hn := (h.probation_iff n).mp hp
    simp [unmarkAccessed, unmarkInMMContainer, unmarkProbation, unSetFlag, DList.remove,
      List.erase_of_not_mem (h.not_mem_main_of_probation hn),
      List.erase_of_not_mem (mt (h.tiny_iff n).mpr ht)]
  · simp [unmarkAccessed, unmarkInMMContainer, unSetFlag, DList.remove,
      List.erase_of_not_mem (mt (h.tiny_iff n).mpr ht),
      List.erase_of_not_mem (mt (h.probation_iff n).mpr hp)]

/-- Under the invariant `removeLocked` clears every flag of the entry. -/
theorem isFlagSet_removeLocked (h : c.SegWf) (n m : α) (f : RefFlag) :
    (c.removeLocked n).isFlagSet m f = if m = n then false else c.isFlagSet m f := by
  have htp : c.isTiny n = true → c.isProbation n = false := h.probation_eq_false_of_tiny
  -- push the flag test through every update, then compare flag by flag
  simp only [removeLocked, unmarkAccessed, unmarkInMMContainer, unmarkTiny, unmarkProbation,
    isTiny, isProbation, apply_ite (fun x : Container α => x.isFlagSet m f), isFlagSet_unSetFlag,
    isFlagSet_modifyLru] at htp ⊢
  by_cases hm : m = n
  · subst hm
    cases f <;> simp_all
  · simp [hm]

section Spill
variable {l : List α} {t : α}

/-- The Tiny tail moves to the head of Probation. -/
theorem spillTinyTailLocked_lru (h : c.SegWf) (hl : c.lru.tiny = l ++ [t]) :
    c.spillTinyTailLocked.lru = { c.lru with tiny := l, probation := t :: c.lru.probation } := by
  have ht : t ∉ l := not_mem_of_nodup_append_singleton (hl ▸ h.nodup_tiny)
  simp [spillTinyTailLocked, hl, unmarkTiny, markProbation, unSetFlag, setFlag,
    DList.remove, DList.linkAtHead, erase_append_singleton ht]

/-- The spilled entry trades its Tiny bit for the Probation bit. -/
theorem isFlagSet_spillTinyTailLocked (hl : c.lru.tiny = l ++ [t]) (m : α) (f : RefFlag) :
    c.spillTinyTailLocked.isFlagSet m f =
      if m = t ∧ f = .mmFlag2 then true else if m = t ∧ f = .mmFlag0 then false
      else c.isFlagSet m f := by
  simp [spillTinyTailLocked, hl, unmarkTiny, markProbation]

theorem spillTinyTailLocked_of_nil (hl : c.lru.tiny = []) : c.spillTinyTailLocked = c := by
  simp [spillTinyTailLocked, DList.getTail, hl]

theorem spillTinyTailLocked_all (h : c.SegWf) : c.spillTinyTailLocked.lru.all = c.lru.all := by
  cases hl : DList.getTail c.lru.tiny with
  | none => rw [spillTinyTailLocked_of_nil (DList.getTail_eq_none.mp hl)]
  | some t =>
    obtain ⟨l, hl⟩ := DList.getTail_eq_some.mp hl
    simp [spillTinyTailLocked_lru h hl, MultiDList.all, hl]

theorem spillTinyTailLocked_tiny_length (h : c.SegWf) (hne : c.lru.tiny ≠ []) :
    c.spillTinyTailLocked.lru.tiny.length + 1 = c.lru.tiny.length := by
  obtain ⟨l, t, hl⟩ : ∃ l t, c.lru.tiny = l ++ [t] :=
    ⟨_, _, (List.dropLast_append_getLast hne).symm⟩
  simp [spillTinyTailLocked_lru h hl, hl]

/-- The spill touches only the Tiny and Probation bits. -/
theorem isFlagSet_spillTinyTailLocked_of_ne {f : RefFlag} (h0 : f ≠ .mmFlag0)
    (h2 : f ≠ .mmFlag2) (m : α) : c.spillTinyTailLocked.isFlagSet m f = c.isFlagSet m f := by
  unfold spillTinyTailLocked
  split <;> simp [unmarkTiny, markProbation, h0, h2]

theorem SegWf.spillTinyTailLocked (h : c.SegWf) : c.spillTinyTailLocked.SegWf := by
  cases hl : DList.getTail c.lru.tiny with
  | none => rwa [spillTinyTailLocked_of_nil (DList.getTail_eq_none.mp hl)]
  | some t =>
    obtain ⟨l, hl⟩ := DList.getTail_eq_some.mp hl
    have ht : t ∉ l := not_mem_of_nodup_append_singleton (hl ▸ h.nodup_tiny)
    refine ⟨spillTinyTailLocked_all h ▸ h.nodup, fun m => ?_, fun m => ?_⟩ <;>
      have := h.tiny_iff m <;> have := h.probation_iff m <;> by_cases hm : m = t <;>
      simp_all [isTiny, isProbation, isFlagSet_spillTinyTailLocked hl,
        spillTinyTailLocked_lru h hl]

end Spill

section PromoteTail
variable {lt lp : List α} {t p : α}

theorem maybePromoteTailLocked_of_tiny_nil (ht : c.lru.tiny = []) :
    c.maybePromoteTailLocked = c := by
  simp only [maybePromoteTailLocked, DList.getTail, ht, List.getLast?_nil]
  split <;> simp_all

theorem maybePromoteTailLocked_of_probation_nil (hp : c.lru.probation = []) :
    c.maybePromoteTailLocked = c := by
  simp [maybePromoteTailLocked, DList.getTail, hp]

/-- An admitted Tiny tail swaps places with the Probation tail. -/
theorem maybePromoteTailLocked_lru_of_admitted (h : c.SegWf) (ht : c.lru.tiny = lt ++ [t])
    (hp : c.lru.probation = lp ++ [p]) (hadm : c.admitToProbation t p = true) :
    c.maybePromoteTailLocked.lru = { c.lru with tiny := lt ++ [p], probation := t :: lp } := by
  have htl : t ∉ lt := not_mem_of_nodup_append_singleton (ht ▸ h.nodup_tiny)
  have hpl : p ∉ lp := not_mem_of_nodup_append_singleton (hp ▸ h.nodup_probation)
  have htp : t ≠ p := fun e =>
    h.not_mem_probation_of_tiny (n := t) (by simp [ht]) (by simp [hp, e])
  simp [maybePromoteTailLocked, ht, hp, hadm, unmarkTiny, markTiny,
    unmarkProbation, markProbation, DList.remove, DList.linkAtHead, DList.linkAtTail,
    erase_append_singleton htl, List.erase_cons_tail (by simp [htp] : ¬(t == p) = true),
    erase_append_singleton hpl]

/-- The two swapped entries trade their bits. -/
theorem isFlagSet_maybePromoteTailLocked_of_admitted (ht : c.lru.tiny = lt ++ [t])
    (hp : c.lru.probation = lp ++ [p]) (hadm : c.admitToProbation t p = true) (htp : t ≠ p)
    (m : α) (f : RefFlag) :
    c.maybePromoteTailLocked.isFlagSet m f =
      if m = t ∧ f = .mmFlag2 then true else if m = t ∧ f = .mmFlag0 then false
      else if m = p ∧ f = .mmFlag0 then true else if m = p ∧ f = .mmFlag2 then false
      else c.isFlagSet m f := by
  simp only [maybePromoteTailLocked, ht, hp, DList.getTail_append_singleton, hadm, if_true,
    unmarkTiny, markTiny,
    unmarkProbation, markProbation, isFlagSet_setFlag, isFlagSet_unSetFlag, isFlagSet_modifyLru]
  by_cases hmt : m = t <;> by_cases hmp : m = p <;> cases f <;> simp_all

/-- A Tiny tail that is not admitted stays, and the Probation tail rotates to the head. -/
theorem maybePromoteTailLocked_of_not_admitted (ht : c.lru.tiny = lt ++ [t])
    (hp : c.lru.probation = lp ++ [p]) (hadm : c.admitToProbation t p = false) :
    c.maybePromoteTailLocked = c.modifyLru .probation (DList.moveToHead p) := by
  simp [maybePromoteTailLocked, ht, hp, hadm]

theorem maybePromoteTailLocked_all_perm (h : c.SegWf) :
    c.maybePromoteTailLocked.lru.all.Perm c.lru.all := by
  cases hp : DList.getTail c.lru.probation with
  | none => rw [maybePromoteTailLocked_of_probation_nil (DList.getTail_eq_none.mp hp)]
  | some p =>
  cases ht : DList.getTail c.lru.tiny with
  | none => rw [maybePromoteTailLocked_of_tiny_nil (DList.getTail_eq_none.mp ht)]
  | some t =>
  obtain ⟨lp, hp⟩ := DList.getTail_eq_some.mp hp
  obtain ⟨lt, ht⟩ := DList.getTail_eq_some.mp ht
  cases hadm : c.admitToProbation t p
  · rw [maybePromoteTailLocked_of_not_admitted ht hp hadm]
    exact all_modify_perm (DList.moveToHead_perm (by simp [hp]))
  · rw [maybePromoteTailLocked_lru_of_admitted h ht hp hadm, MultiDList.all, MultiDList.all, ht, hp]
    exact List.perm_iff_count.mpr fun a => by simp [List.count_cons]; omega

/-- The arbiter keeps Tiny's length: a swap trades one entry for one. -/
theorem maybePromoteTailLocked_tiny_length (h : c.SegWf) :
    c.maybePromoteTailLocked.lru.tiny.length = c.lru.tiny.length := by
  cases hp : DList.getTail c.lru.probation with
  | none => rw [maybePromoteTailLocked_of_probation_nil (DList.getTail_eq_none.mp hp)]
  | some p =>
  cases ht : DList.getTail c.lru.tiny with
  | none => rw [maybePromoteTailLocked_of_tiny_nil (DList.getTail_eq_none.mp ht)]
  | some t =>
  obtain ⟨lp, hp⟩ := DList.getTail_eq_some.mp hp
  obtain ⟨lt, ht⟩ := DList.getTail_eq_some.mp ht
  cases hadm : c.admitToProbation t p
  · rw [maybePromoteTailLocked_of_not_admitted ht hp hadm]; rfl
  · simp [maybePromoteTailLocked_lru_of_admitted h ht hp hadm, ht]

/-- The arbiter touches only the Tiny and Probation bits. -/
theorem isFlagSet_maybePromoteTailLocked_of_ne {f : RefFlag} (h0 : f ≠ .mmFlag0)
    (h2 : f ≠ .mmFlag2) (m : α) : c.maybePromoteTailLocked.isFlagSet m f = c.isFlagSet m f := by
  unfold maybePromoteTailLocked
  split
  · split_ifs <;> simp [unmarkTiny, markTiny, unmarkProbation, markProbation, h0, h2]
  · rfl

theorem SegWf.maybePromoteTailLocked (h : c.SegWf) : c.maybePromoteTailLocked.SegWf := by
  cases hp : DList.getTail c.lru.probation with
  | none => rwa [maybePromoteTailLocked_of_probation_nil (DList.getTail_eq_none.mp hp)]
  | some p =>
  cases ht : DList.getTail c.lru.tiny with
  | none => rwa [maybePromoteTailLocked_of_tiny_nil (DList.getTail_eq_none.mp ht)]
  | some t =>
  obtain ⟨lp, hp⟩ := DList.getTail_eq_some.mp hp
  obtain ⟨lt, ht⟩ := DList.getTail_eq_some.mp ht
  cases hadm : c.admitToProbation t p
  · rw [maybePromoteTailLocked_of_not_admitted ht hp hadm]
    exact h.modifyLru_perm (DList.moveToHead_perm (by simp [hp]))
  · have htl : t ∉ lt := not_mem_of_nodup_append_singleton (ht ▸ h.nodup_tiny)
    have hpl : p ∉ lp := not_mem_of_nodup_append_singleton (hp ▸ h.nodup_probation)
    have htp : t ≠ p := fun e =>
      h.not_mem_probation_of_tiny (n := t) (by simp [ht]) (by simp [hp, e])
    have hlru := maybePromoteTailLocked_lru_of_admitted h ht hp hadm
    refine ⟨(maybePromoteTailLocked_all_perm h).nodup_iff.mpr h.nodup, fun m => ?_, fun m => ?_⟩ <;>
      have := h.tiny_iff m <;> have := h.probation_iff m <;>
      by_cases hmt : m = t <;> by_cases hmp : m = p <;>
      simp_all [isTiny, isProbation, isFlagSet_maybePromoteTailLocked_of_admitted ht hp hadm htp]

end PromoteTail

section Protect
variable {l : List α} {x n : α}

/-- The share of Main and Probation that Main may hold, from the `size_t` product. -/
def expectedMainSize (c : Container α) : Nat :=
  c.config.protectionSegmentSizePct * (c.lru.probation.length + c.lru.main.length) % 2 ^ 64 / 100

theorem demoteMainTailLocked_of_le (h : c.lru.main.length ≤ c.expectedMainSize) :
    c.demoteMainTailLocked = c := by
  simp [demoteMainTailLocked, expectedMainSize] at h ⊢; omega

/-- Above its share, Main's tail moves to the tail of Probation. -/
theorem demoteMainTailLocked_lru (h : c.SegWf) (hlt : c.expectedMainSize < c.lru.main.length)
    (hm : c.lru.main = l ++ [x]) :
    c.demoteMainTailLocked.lru = { c.lru with main := l, probation := c.lru.probation ++ [x] } := by
  have hx : x ∉ l := not_mem_of_nodup_append_singleton (hm ▸ h.nodup_main)
  simp only [expectedMainSize] at hlt
  simp only [demoteMainTailLocked]
  rw [if_pos hlt]
  simp [hm, markProbation, DList.remove, DList.linkAtTail, erase_append_singleton hx]

theorem isFlagSet_demoteMainTailLocked (hlt : c.expectedMainSize < c.lru.main.length)
    (hm : c.lru.main = l ++ [x]) (m : α) (f : RefFlag) :
    c.demoteMainTailLocked.isFlagSet m f = if m = x ∧ f = .mmFlag2 then true
      else c.isFlagSet m f := by
  simp only [expectedMainSize] at hlt
  simp only [demoteMainTailLocked]
  rw [if_pos hlt]
  simp [hm, markProbation]

@[simp] theorem demoteMainTailLocked_tiny : c.demoteMainTailLocked.lru.tiny = c.lru.tiny := by
  simp only [demoteMainTailLocked]
  split_ifs
  · split <;> simp [markProbation]
  · rfl

theorem demoteMainTailLocked_all_perm (h : c.SegWf) :
    c.demoteMainTailLocked.lru.all.Perm c.lru.all := by
  by_cases hlt : c.expectedMainSize < c.lru.main.length
  · obtain ⟨l, x, hm⟩ : ∃ l x, c.lru.main = l ++ [x] :=
      ⟨_, _, (List.dropLast_append_getLast (List.ne_nil_of_length_pos (by omega))).symm⟩
    rw [demoteMainTailLocked_lru h hlt hm, MultiDList.all, MultiDList.all, hm]
    exact List.perm_iff_count.mpr fun a => by simp [List.count_cons]
  · rw [demoteMainTailLocked_of_le (by omega)]

theorem SegWf.demoteMainTailLocked (h : c.SegWf) : c.demoteMainTailLocked.SegWf := by
  by_cases hlt : c.expectedMainSize < c.lru.main.length
  · obtain ⟨l, x, hm⟩ : ∃ l x, c.lru.main = l ++ [x] :=
      ⟨_, _, (List.dropLast_append_getLast (List.ne_nil_of_length_pos (by omega))).symm⟩
    have hxt : x ∉ c.lru.tiny := fun hx => h.not_mem_main_of_tiny hx (by simp [hm])
    have hxp : x ∉ c.lru.probation := fun hx => h.not_mem_main_of_probation hx (by simp [hm])
    refine ⟨(demoteMainTailLocked_all_perm h).nodup_iff.mpr h.nodup, fun m => ?_, fun m => ?_⟩ <;>
      have := h.tiny_iff m <;> have := h.probation_iff m <;> by_cases hmx : m = x <;>
      simp_all [isFlagSet_demoteMainTailLocked hlt hm, demoteMainTailLocked_lru h hlt hm]
  · rwa [demoteMainTailLocked_of_le (by omega)]

/-- The promotion itself: out of Probation, onto the head of Main, Probation bit cleared. -/
theorem SegWf.promote (h : c.SegWf) (hn : n ∈ c.lru.probation) :
    (((c.modifyLru .probation (DList.remove n)).modifyLru .main
      (DList.linkAtHead n)).unmarkProbation n).SegWf := by
  have hnt : n ∉ c.lru.tiny := fun ht => h.not_mem_probation_of_tiny ht hn
  have hnm : n ∉ c.lru.main := h.not_mem_main_of_probation hn
  have hperm : (c.lru.tiny ++ c.lru.probation.erase n ++ n :: c.lru.main).Perm c.lru.all := by
    rw [MultiDList.all, List.append_assoc, List.append_assoc]
    exact (List.perm_middle.trans ((List.perm_cons_erase hn).symm.append_right _)).append_left _
  refine ⟨by simpa [MultiDList.all, DList.remove, DList.linkAtHead] using hperm.nodup_iff.mpr h.nodup,
    fun m => ?_, fun m => ?_⟩ <;>
    have := h.tiny_iff m <;> have := h.probation_iff m <;> by_cases hmn : m = n <;>
    simp_all [unmarkProbation, DList.remove, h.nodup_probation.mem_erase_iff]

theorem promoteToMainLocked_all_perm (h : c.SegWf) (hn : n ∈ c.lru.probation) :
    (c.promoteToMainLocked n).lru.all.Perm c.lru.all := by
  simp only [promoteToMainLocked]
  split_ifs
  · refine (demoteMainTailLocked_all_perm (h.promote hn)).trans ?_
    simp only [MultiDList.all, unmarkProbation, unSetFlag, setNode_lru, modifyLru_lru,
      MultiDList.modify_probation, MultiDList.modify_main, DList.remove, DList.linkAtHead]
    rw [List.append_assoc, List.append_assoc]
    exact (List.perm_middle.trans ((List.perm_cons_erase hn).symm.append_right _)).append_left _
  · rfl

theorem SegWf.promoteToMainLocked (h : c.SegWf) (hn : n ∈ c.lru.probation) :
    (c.promoteToMainLocked n).SegWf := by
  simp only [Container.promoteToMainLocked]
  split_ifs
  exacts [(h.promote hn).demoteMainTailLocked, h]

/-- Promotion and demotion touch only the Probation bit. -/
theorem isFlagSet_promoteToMainLocked {f : RefFlag} (hf : f ≠ .mmFlag2) (m : α) :
    (c.promoteToMainLocked n).isFlagSet m f = c.isFlagSet m f := by
  simp only [promoteToMainLocked, demoteMainTailLocked]
  split_ifs <;> (try split) <;> simp [unmarkProbation, markProbation, hf]

end Protect

section Access
variable {n : α} {t : Time}

omit [DecidableEq α] in
/-- The bits of an entry in the container name the list it is in. -/
theorem SegWf.mem_getList_getLruType (h : c.SegWf) (hn : n ∈ c.lru.all) :
    n ∈ c.lru.getList (c.getLruType n) := by
  unfold getLruType
  split_ifs with ht hp
  · exact (h.tiny_iff n).mp ht
  · exact (h.probation_iff n).mp hp
  · simpa [mt (h.tiny_iff n).mpr ht, mt (h.probation_iff n).mpr hp] using hn

theorem recordAccessLocked_all_perm (h : c.SegWf) (hn : n ∈ c.lru.all) :
    (c.recordAccessLocked n t).lru.all.Perm c.lru.all := by
  have hmv := DList.moveToHead_perm (h.mem_getList_getLruType hn)
  have h1 := h.modifyLru_perm hmv
  simp only [recordAccessLocked, updateFrequenciesLocked_lru, setUpdateTime_lru]
  split_ifs with hp
  · rw [hp] at hmv h1 ⊢
    exact (promoteToMainLocked_all_perm h1 (by simp [DList.moveToHead])).trans
      (all_modify_perm hmv)
  · exact all_modify_perm hmv

theorem SegWf.recordAccessLocked (h : c.SegWf) (hn : n ∈ c.lru.all) :
    (c.recordAccessLocked n t).SegWf := by
  have h1 := h.modifyLru_perm (DList.moveToHead_perm (h.mem_getList_getLruType hn))
  simp only [Container.recordAccessLocked, segWf_updateFrequenciesLocked, segWf_setUpdateTime]
  split_ifs with hp
  · rw [hp] at h1 ⊢
    exact h1.promoteToMainLocked (by simp [DList.moveToHead])
  · exact h1

/-- Under the lock an access moves entries between lists but adds or drops none, and changes
no bit other than Probation. -/
theorem isFlagSet_recordAccessLocked {f : RefFlag} (hf : f ≠ .mmFlag2) (m : α) :
    (c.recordAccessLocked n t).isFlagSet m f = c.isFlagSet m f := by
  simp only [recordAccessLocked, isFlagSet_updateFrequenciesLocked, isFlagSet_setUpdateTime]
  split_ifs
  · rw [isFlagSet_promoteToMainLocked hf]; rfl
  · rfl

end Access

section Add
variable {n : α} {t : Time}

/-- A new entry linked at the head of Tiny with its Tiny bit. -/
theorem SegWf.linkTiny (h : c.SegWf) (hn : n ∉ c.lru.all) :
    ((c.modifyLru .tiny (DList.linkAtHead n)).markTiny n).SegWf := by
  refine ⟨List.nodup_cons.mpr ⟨hn, h.nodup⟩, fun m => ?_, fun m => ?_⟩ <;>
    have := h.tiny_iff m <;> have := h.probation_iff m <;> by_cases hmn : m = n <;>
    simp_all [markTiny, DList.linkAtHead]

/-- `addLocked` adds the entry to the lists and moves none out. -/
theorem addLocked_all_perm (h : c.SegWf) (hn : n ∉ c.lru.all) :
    (c.addLocked n t).lru.all.Perm (n :: c.lru.all) := by
  have h1 : (((c.modifyLru .tiny (DList.linkAtHead n)).markTiny n).updateFrequenciesLocked n).SegWf :=
    segWf_updateFrequenciesLocked.mpr (h.linkTiny hn)
  have e : (((c.modifyLru .tiny (DList.linkAtHead n)).markTiny n).updateFrequenciesLocked n).lru.all =
      n :: c.lru.all := by simp [markTiny, MultiDList.all, DList.linkAtHead]
  simp only [addLocked, unmarkAccessed, unSetFlag, setUpdateTime, markInMMContainer, setFlag,
    setNode_lru, maybeGrowAccessCountersLocked_lru]
  split_ifs
  · rw [spillTinyTailLocked_all h1, e]
  · exact e ▸ maybePromoteTailLocked_all_perm h1

theorem SegWf.addLocked (h : c.SegWf) (hn : n ∉ c.lru.all) : (c.addLocked n t).SegWf := by
  have h1 : (((c.modifyLru .tiny (DList.linkAtHead n)).markTiny n).updateFrequenciesLocked n).SegWf :=
    segWf_updateFrequenciesLocked.mpr (h.linkTiny hn)
  simp only [Container.addLocked, segWf_unmarkAccessed, segWf_setUpdateTime,
    segWf_markInMMContainer, segWf_maybeGrowAccessCountersLocked]
  split_ifs
  exacts [h1.spillTinyTailLocked, h1.maybePromoteTailLocked]

/-- Of another entry, `addLocked` can change only the segment bits. -/
theorem isFlagSet_addLocked_of_ne {m : α} (hm : m ≠ n) {f : RefFlag} (h0 : f ≠ .mmFlag0)
    (h2 : f ≠ .mmFlag2) : (c.addLocked n t).isFlagSet m f = c.isFlagSet m f := by
  simp only [addLocked, unmarkAccessed, markInMMContainer, isFlagSet_unSetFlag,
    isFlagSet_setUpdateTime, isFlagSet_setFlag, isFlagSet_maybeGrowAccessCountersLocked, hm,
    false_and, if_false]
  split_ifs <;> simp [isFlagSet_spillTinyTailLocked_of_ne h0 h2,
    isFlagSet_maybePromoteTailLocked_of_ne h0 h2, markTiny, hm]

/-- `addLocked` sets the entry's in-container bit and no other. -/
theorem isInMMContainer_addLocked (m : α) :
    (c.addLocked n t).isInMMContainer m = (decide (m = n) || c.isInMMContainer m) := by
  by_cases hm : m = n
  · subst hm
    simp [addLocked, isInMMContainer, unmarkAccessed, markInMMContainer]
  · simp [isInMMContainer, isFlagSet_addLocked_of_ne hm (f := .inMMContainer) (by decide) (by decide),
      hm]

theorem Wf.addLocked (h : c.Wf) (hn : c.isInMMContainer n = false) : (c.addLocked n t).Wf := by
  have hn' : n ∉ c.lru.all := fun hm => by simp [(h.inMM_iff n).mpr hm] at hn
  refine ⟨h.toSegWf.addLocked hn', fun m => ?_⟩
  rw [isInMMContainer_addLocked, (addLocked_all_perm h.toSegWf hn').mem_iff, List.mem_cons,
    ← h.inMM_iff]
  simp

end Add

theorem Wf.removeLocked (h : c.Wf) (n : α) : (c.removeLocked n).Wf := by
  have hs := h.toSegWf
  refine ⟨⟨?_, fun m => ?_, fun m => ?_⟩, fun m => ?_⟩
  · rw [removeLocked_lru hs]
    exact (List.Sublist.append (List.Sublist.append (List.erase_sublist _ _)
      (List.erase_sublist _ _)) (List.erase_sublist _ _)).nodup h.nodup
  all_goals
    have := h.tiny_iff m; have := h.probation_iff m; have := h.inMM_iff m
    by_cases hmn : m = n <;>
    simp_all [isFlagSet_removeLocked hs, removeLocked_lru hs, hs.nodup_tiny.mem_erase_iff,
      hs.nodup_probation.mem_erase_iff, hs.nodup_main.mem_erase_iff]

section Replace
variable {o n : α}

/-- Under the invariant `replaceLocked` puts the new entry in the old one's place. -/
theorem replaceLocked_lru (h : c.SegWf) :
    (c.replaceLocked o n).lru = ⟨DList.replace o n c.lru.main,
      DList.replace o n c.lru.probation, DList.replace o n c.lru.tiny⟩ := by
  have hacc : ∀ c' : Container α,
      (if c'.isAccessed o then c'.markAccessed n else c'.unmarkAccessed n).lru = c'.lru :=
    fun c' => by split <;> rfl
  simp only [replaceLocked, hacc, setUpdateTime_lru, markInMMContainer, unmarkInMMContainer,
    setFlag_lru, unSetFlag_lru]
  split_ifs with ht hp
  · have ho := (h.tiny_iff o).mp ht
    simp [unmarkTiny, markTiny, DList.replace_of_not_mem (h.not_mem_probation_of_tiny ho),
      DList.replace_of_not_mem (h.not_mem_main_of_tiny ho)]
  · have ho := (h.probation_iff o).mp hp
    simp [unmarkProbation, markProbation, DList.replace_of_not_mem (h.not_mem_main_of_probation ho),
      DList.replace_of_not_mem (mt (h.tiny_iff o).mpr ht)]
  · simp [DList.replace_of_not_mem (mt (h.tiny_iff o).mpr ht),
      DList.replace_of_not_mem (mt (h.probation_iff o).mpr hp)]

/-- The new entry takes the old one's bits and in-container bit; the old one keeps only its
accessed bit. -/
theorem isFlagSet_replaceLocked (h : c.SegWf) (hne : n ≠ o) (hnt : c.isTiny n = false)
    (hnp : c.isProbation n = false) (m : α) (f : RefFlag) :
    (c.replaceLocked o n).isFlagSet m f =
      if m = n then (decide (f = .inMMContainer) || c.isFlagSet o f)
      else if m = o then (decide (f = .mmFlag1) && c.isFlagSet o f)
      else c.isFlagSet m f := by
  have hto : c.isTiny o = true → c.isProbation o = false := h.probation_eq_false_of_tiny
  have hpo : c.isProbation o = true → c.isTiny o = false := h.tiny_eq_false_of_probation
  -- push the flag test through every update, then compare flag by flag
  simp only [replaceLocked, markTiny, unmarkTiny, markProbation, unmarkProbation, markAccessed,
    unmarkAccessed, markInMMContainer, unmarkInMMContainer, isAccessed, isTiny, isProbation,
    apply_ite (fun x : Container α => x.isFlagSet m f),
    apply_ite (fun x : Container α => x.isFlagSet o .mmFlag1), isFlagSet_setFlag,
    isFlagSet_unSetFlag, isFlagSet_modifyLru, isFlagSet_setUpdateTime, hne.symm, false_and,
    if_false] at hnt hnp hto hpo ⊢
  by_cases hmn : m = n
  · subst hmn
    cases f <;> simp_all
  · by_cases hmo : m = o
    · subst hmo
      cases f <;> simp_all
    · simp [hmn, hmo]

/-- The new entry takes the old one's `updateTime`. -/
theorem getUpdateTime_replaceLocked (m : α) :
    (c.replaceLocked o n).getUpdateTime m =
      if m = n then c.getUpdateTime o else c.getUpdateTime m := by
  simp only [replaceLocked, markTiny, unmarkTiny, markProbation, unmarkProbation, markAccessed,
    unmarkAccessed, markInMMContainer, unmarkInMMContainer,
    apply_ite (fun x : Container α => x.getUpdateTime m), getUpdateTime_setFlag,
    getUpdateTime_unSetFlag, getUpdateTime_setUpdateTime, getUpdateTime_modifyLru, ite_self]

theorem replaceLocked_all (h : c.SegWf) :
    (c.replaceLocked o n).lru.all = DList.replace o n c.lru.all := by
  rw [replaceLocked_lru h]
  simp only [MultiDList.all, DList.replace, List.replace_append]
  by_cases ht : o ∈ c.lru.tiny
  · simp [ht, h.not_mem_probation_of_tiny ht, h.not_mem_main_of_tiny ht]
  · by_cases hp : o ∈ c.lru.probation <;> simp [ht, hp, h.not_mem_main_of_probation]

theorem Wf.replaceLocked (h : c.Wf) (ho : c.isInMMContainer o = true)
    (hn : c.isInMMContainer n = false) : (c.replaceLocked o n).Wf := by
  have hs := h.toSegWf
  have hn' : n ∉ c.lru.all := fun hm => by simp [(h.inMM_iff n).mpr hm] at hn
  have hne : n ≠ o := fun e => by simp [e, ho] at hn
  have hnt : c.isTiny n = false :=
    Bool.eq_false_iff.mpr fun ht => hn' (by simp [(hs.tiny_iff n).mp ht])
  have hnp : c.isProbation n = false :=
    Bool.eq_false_iff.mpr fun hp => hn' (by simp [(hs.probation_iff n).mp hp])
  have hperm := replaceLocked_all hs ▸ DList.replace_perm (n := n) ((h.inMM_iff o).mp ho)
  refine ⟨⟨hperm.nodup_iff.mpr
    (List.nodup_cons.mpr ⟨fun hm => hn' (List.mem_of_mem_erase hm), h.nodup.erase o⟩),
    fun m => ?_, fun m => ?_⟩, fun m => ?_⟩
  · rw [isTiny, isFlagSet_replaceLocked hs hne hnt hnp, replaceLocked_lru hs,
      DList.mem_replace hs.nodup_tiny]
    by_cases hmn : m = n <;> by_cases hmo : m = o <;> simp [← hs.tiny_iff, hmn, hmo, hne, hnt]
  · rw [isProbation, isFlagSet_replaceLocked hs hne hnt hnp, replaceLocked_lru hs,
      DList.mem_replace hs.nodup_probation]
    by_cases hmn : m = n <;> by_cases hmo : m = o <;>
      simp [← hs.probation_iff, hmn, hmo, hne, hnp]
  · rw [isInMMContainer, isFlagSet_replaceLocked hs hne hnt hnp, hperm.mem_iff, List.mem_cons,
      h.nodup.mem_erase_iff]
    by_cases hmn : m = n <;> by_cases hmo : m = o <;> simp [← h.inMM_iff, hmn, hmo, hne, ho]

end Replace

end Container
end WTinyLFU
