import WTinyLFU.Membership

/-! `replace` undone. A `replace(o, n)` that succeeds leaves `n` in `o`'s place with `o`'s bits
and `o` out of the container with only its accessed bit, so the reverse `replace(n, o)` passes
its checks and puts every list and every bit back. What it cannot put back is what the first
call wrote over: `n`'s `updateTime` and accessed bit, which stay `o`'s. -/
namespace WTinyLFU

namespace DList
variable {α : Type} [DecidableEq α]

/-- Replacing back an entry that was not in the list restores the list. -/
theorem replace_replace {o n : α} {l : List α} (hn : n ∉ l) : replace n o (replace o n l) = l := by
  induction l with
  | nil => rfl
  | cons x l ih =>
    have hxn : x ≠ n := fun e => hn (e ▸ List.mem_cons_self x l)
    by_cases hx : x = o
    · subst hx; simp [replace]
    · simp only [replace, List.replace_cons, beq_false_of_ne (Ne.symm hx),
        beq_false_of_ne (Ne.symm hxn)] at ih ⊢
      rw [ih fun h => hn (List.mem_cons_of_mem x h)]

end DList

namespace Container
variable {α : Type} [DecidableEq α] {c : Container α}

@[simp] theorem hashNode_replaceLocked (c : Container α) (o n : α) :
    (c.replaceLocked o n).hashNode = c.hashNode := by
  unfold replaceLocked; dsimp only
  split_ifs <;> simp [markTiny, unmarkTiny, markProbation, unmarkProbation, markInMMContainer,
    unmarkInMMContainer, markAccessed, unmarkAccessed]

omit [DecidableEq α] in
/-- Two containers with the same lists, members, sketch and entries are equal. -/
theorem ext_entries {c c' : Container α} (hl : c'.lru = c.lru) (ht : c'.tuning = c.tuning)
    (hw : c'.windowSize = c.windowSize) (ha : c'.accessFreq = c.accessFreq)
    (hf : ∀ m f, c'.isFlagSet m f = c.isFlagSet m f)
    (hu : ∀ m, c'.getUpdateTime m = c.getUpdateTime m) (hk : c'.hashNode = c.hashNode) :
    c' = c := by
  have hn : c'.nodes = c.nodes := funext fun m => by
    have h₁ : (c'.nodes m).flags = (c.nodes m).flags := funext (hf m)
    have h₂ : (c'.nodes m).updateTime = (c.nodes m).updateTime := hu m
    have h₃ : (c'.nodes m).keyHash = (c.nodes m).keyHash := congrFun hk m
    revert h₁ h₂ h₃
    cases c'.nodes m; cases c.nodes m
    intro h₁ h₂ h₃
    simp_all
  cases c; cases c'
  simp only [tuning, Tuning.mk.injEq] at ht
  simp_all

/-- `replace(n, o)` after a successful `replace(o, n)` succeeds and restores the container, but
for the two fields of `n` that `replace` copies from `o`: its `updateTime` and its accessed bit. -/
theorem replace_round_trip (h : c.Wf) {o n : α} (hr : (c.replace o n).1 = true) :
    ((c.replace o n).2.replace n o).1 = true ∧
      ((c.replace o n).2.replace n o).2 =
        (if c.isAccessed o then c.markAccessed n else c.unmarkAccessed n).setUpdateTime n
          (c.getUpdateTime o) := by
  obtain ⟨hnt, hnp, hino, hinn⟩ := replace_guard hr
  have hs := h.toSegWf
  have hno : n ≠ o := fun e => by simp [e, hino] at hinn
  have hn := h.not_mem_of_not_inMM hinn
  have hf₁ := isFlagSet_replaceLocked hs hno hnt hnp
  have h₁ := h.replaceLocked hino hinn
  rw [replace_of_fst hr]
  have hr₂ : ((c.replaceLocked o n).replace n o).1 = true := by
    rw [replace_fst h₁]; simp [hf₁, hno.symm]
  refine ⟨hr₂, ?_⟩
  rw [replace_of_fst hr₂]
  have hf₂ := isFlagSet_replaceLocked h₁.toSegWf hno.symm (by simp [hf₁, hno.symm])
    (by simp [hf₁, hno.symm])
  -- what the right-hand side keeps and what it writes
  have hR : ∀ b : Bool,
      let R := (if b then c.markAccessed n else c.unmarkAccessed n).setUpdateTime n
        (c.getUpdateTime o)
      R.lru = c.lru ∧ R.tuning = c.tuning ∧ R.windowSize = c.windowSize ∧
        R.accessFreq = c.accessFreq ∧ R.hashNode = c.hashNode ∧
        (∀ m f, R.isFlagSet m f = if m = n ∧ f = .mmFlag1 then b else c.isFlagSet m f) ∧
        ∀ m, R.getUpdateTime m = if m = n then c.getUpdateTime o else c.getUpdateTime m := by
    intro b
    cases b <;> exact ⟨rfl, rfl, rfl, rfl, by simp [markAccessed, unmarkAccessed],
      fun m f => by simp [markAccessed, unmarkAccessed], fun m => by simp [markAccessed, unmarkAccessed]⟩
  obtain ⟨hl, ht, hw, ha, hk, hf, hu⟩ := hR (c.isAccessed o)
  refine ext_entries ?_ (by rw [ht]; simp) (by rw [hw]; simp) (by rw [ha]; simp)
    (fun m f => ?_) (fun m => ?_) (by rw [hk]; simp)
  · rw [hl, replaceLocked_lru h₁.toSegWf, replaceLocked_lru hs]
    simp [DList.replace_replace, hn]
  · rw [hf, hf₂]
    by_cases hmo : m = o
    · subst hmo
      cases f <;> simp [hf₁, hno.symm, hino]
    · by_cases hmn : m = n
      · subst hmn
        cases f <;> simp [hf₁, hmo, hinn, hnt, hnp]
      · simp [hf₁, hmo, hmn]
  · rw [hu, getUpdateTime_replaceLocked, getUpdateTime_replaceLocked, getUpdateTime_replaceLocked]
    by_cases hmo : m = o <;> by_cases hmn : m = n <;> simp [hmo, hmn, hno.symm]

end Container

/-- Two entries added to a new container; the second replaced by a third, and back. -/
theorem replace_round_trip_two_adds :
    let c := ((System.init ({} : Config) (fun n : Nat => ⟨fun _ => false, 0, n⟩)
      (fun _ _ h => h) 0).run [.add 1 0, .add 2 0]).c
    (c.replace 2 3).1 = true ∧ ((c.replace 2 3).2.replace 3 2).1 = true ∧
      ((c.replace 2 3).2.replace 3 2).2 =
        (if c.isAccessed 2 then c.markAccessed 3 else c.unmarkAccessed 3).setUpdateTime 3
          (c.getUpdateTime 2) := by
  intro c
  have hs : Reachable ((System.init ({} : Config) (fun n : Nat => ⟨fun _ => false, 0, n⟩)
      (fun _ _ h => h) 0).run [.add 1 0, .add 2 0]) := (Reachable.init _ _ _ _ fun _ _ => rfl).run _
  exact ⟨by decide, Container.replace_round_trip hs.wf (by decide)⟩

end WTinyLFU
