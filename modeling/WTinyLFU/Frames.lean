import WTinyLFU.Refresh

/-! What `add`, `recordAccess` and `replace` move. Every list operation of the container unlinks
or links one named entry, so the other entries keep their segment and their order among
themselves. `add` links the new entry at the head of Tiny and then moves at most the Tiny tail
and the Probation tail; an access moves the entry to the head of its list and, on a promotion,
at most Main's tail; `replace` puts the new entry in the old one's place. -/
namespace WTinyLFU
namespace Container
variable {α : Type} [DecidableEq α] {c c' c'' : Container α} {E : List α} {n : α}

/-- Every entry outside `E` keeps its segment and its place among the other entries outside
`E`: each list, with the entries of `E` filtered out, is as it was. -/
def KeepsOrder (c c' : Container α) (E : List α) : Prop :=
  ∀ t : LruType,
    (c'.lru.getList t).filter (fun x => x ∉ E) = (c.lru.getList t).filter (fun x => x ∉ E)

theorem KeepsOrder.refl (c : Container α) (E : List α) : c.KeepsOrder c E := fun _ => rfl

theorem KeepsOrder.trans (h : c.KeepsOrder c' E) (h' : c'.KeepsOrder c'' E) :
    c.KeepsOrder c'' E := fun t => (h' t).trans (h t)

theorem KeepsOrder.of_lru (h : c.KeepsOrder c' E) (he : c''.lru = c'.lru) :
    c.KeepsOrder c'' E := fun t => by rw [he]; exact h t

/-- A list operation that keeps the filtered list keeps the order. -/
theorem keepsOrder_modifyLru (t : LruType) {f : List α → List α}
    (hf : ∀ l, (f l).filter (fun x => x ∉ E) = l.filter (fun x => x ∉ E)) :
    c.KeepsOrder (c.modifyLru t f) E := by
  intro t'
  cases t <;> cases t' <;> first | exact hf _ | rfl

omit [DecidableEq α] in
/-- The tail of a list with an entry linked at its head is in `E` when the entry and the old
tail are. -/
theorem getTail_linkAtHead_mem {l : List α} (hn : n ∈ E)
    (hl : ∀ x, DList.getTail l = some x → x ∈ E) :
    ∀ x, DList.getTail (DList.linkAtHead n l) = some x → x ∈ E := by
  intro x hx
  rw [DList.getTail_linkAtHead, Option.some_inj] at hx
  cases hm : DList.getTail l <;> simp_all

/-- The spill moves only the Tiny tail. -/
theorem keepsOrder_spillTinyTailLocked (hT : ∀ x, DList.getTail c.lru.tiny = some x → x ∈ E) :
    c.KeepsOrder c.spillTinyTailLocked E := by
  unfold spillTinyTailLocked
  split
  · rename_i x hx
    intro t'
    cases t' <;> simp [unmarkTiny, markProbation, hT x hx]
  · exact KeepsOrder.refl c E

/-- The swap or the rotation moves only the Tiny and the Probation tails. -/
theorem keepsOrder_maybePromoteTailLocked
    (hT : ∀ x, DList.getTail c.lru.tiny = some x → x ∈ E)
    (hP : ∀ x, DList.getTail c.lru.probation = some x → x ∈ E) :
    c.KeepsOrder c.maybePromoteTailLocked E := by
  unfold maybePromoteTailLocked
  split
  · rename_i p t hp ht
    split_ifs
    · intro t'
      cases t' <;> simp [unmarkTiny, markTiny, unmarkProbation, markProbation, hP p hp, hT t ht]
    · exact keepsOrder_modifyLru .probation (DList.filter_moveToHead (by simp [hP p hp]))
  · exact KeepsOrder.refl c E

/-- The Main cap moves only Main's tail. -/
theorem keepsOrder_demoteMainTailLocked (hM : ∀ x, DList.getTail c.lru.main = some x → x ∈ E) :
    c.KeepsOrder c.demoteMainTailLocked E := by
  unfold demoteMainTailLocked; dsimp only
  split_ifs
  · split
    · rename_i x hx
      intro t'
      cases t' <;> simp [markProbation, hM x hx]
    · exact KeepsOrder.refl c E
  · exact KeepsOrder.refl c E

/-- A promotion moves only the promoted entry and Main's tail. -/
theorem keepsOrder_promoteToMainLocked (hn : n ∈ E)
    (hM : ∀ x, DList.getTail c.lru.main = some x → x ∈ E) :
    c.KeepsOrder (c.promoteToMainLocked n) E := by
  unfold promoteToMainLocked; dsimp only
  split_ifs
  · refine KeepsOrder.trans (fun t' => ?_) (keepsOrder_demoteMainTailLocked ?_)
    · cases t' <;> simp [unmarkProbation, hn]
    · simpa [unmarkProbation] using getTail_linkAtHead_mem hn hM
  · exact KeepsOrder.refl c E

/-- The locked body of an access moves only the entry and Main's tail. -/
theorem keepsOrder_recordAccessLocked (hn : n ∈ E)
    (hM : ∀ x, DList.getTail c.lru.main = some x → x ∈ E) (t : Time) :
    c.KeepsOrder (c.recordAccessLocked n t) E := by
  have h₁ : c.KeepsOrder (c.modifyLru (c.getLruType n) (DList.moveToHead n)) E :=
    keepsOrder_modifyLru _ (DList.filter_moveToHead (by simp [hn]))
  unfold recordAccessLocked; dsimp only
  split_ifs with hp
  · refine (h₁.trans (keepsOrder_promoteToMainLocked hn fun x hx => hM x ?_)).of_lru
      (by simp [setUpdateTime])
    rwa [modifyLru_lru, hp, MultiDList.modify_probation] at hx
  · exact h₁.of_lru (by simp [setUpdateTime])

/-- `addLocked` moves only the new entry, the Tiny tail and the Probation tail. -/
theorem keepsOrder_addLocked (t : Time) :
    c.KeepsOrder (c.addLocked n t)
      (n :: ((DList.getTail c.lru.tiny).toList ++ (DList.getTail c.lru.probation).toList)) := by
  generalize hE : n :: ((DList.getTail c.lru.tiny).toList ++
    (DList.getTail c.lru.probation).toList) = E
  have hn : n ∈ E := by simp [← hE]
  have hT : ∀ x, DList.getTail c.lru.tiny = some x → x ∈ E := fun x hx => by simp [← hE, hx]
  have hP : ∀ x, DList.getTail c.lru.probation = some x → x ∈ E := fun x hx => by simp [← hE, hx]
  obtain ⟨c₀, hc₀⟩ : ∃ c₀ : Container α,
      c₀ = ((c.modifyLru .tiny (DList.linkAtHead n)).markTiny n).updateFrequenciesLocked n :=
    ⟨_, rfl⟩
  have h₀ : c.KeepsOrder c₀ E :=
    (keepsOrder_modifyLru .tiny (DList.filter_linkAtHead (x := n) (by simp [hn]))).of_lru
      (by simp [hc₀, markTiny])
  have hT₀ : ∀ x, DList.getTail c₀.lru.tiny = some x → x ∈ E := by
    simpa [hc₀, markTiny] using getTail_linkAtHead_mem hn hT
  have hP₀ : ∀ x, DList.getTail c₀.lru.probation = some x → x ∈ E := by
    simpa [hc₀, markTiny] using hP
  unfold addLocked; dsimp only
  rw [← hc₀]
  split_ifs
  · exact (h₀.trans (keepsOrder_spillTinyTailLocked hT₀)).of_lru
      (by simp [markInMMContainer, unmarkAccessed])
  · exact (h₀.trans (keepsOrder_maybePromoteTailLocked hT₀ hP₀)).of_lru
      (by simp [markInMMContainer, unmarkAccessed])

end Container

open Container

/-- In every reachable state: a successful `add(n)` moves no entry but `n`, the Tiny tail and the
Probation tail, and a successful `recordAccess(n)` none but `n` and Main's tail, out of its segment
or its order among the others; a successful `replace(o, n)` puts `n` in `o`'s place in `o`'s list
with `o`'s `updateTime` and accessed bit, takes `o` out of the container and changes no other
entry; and none of them changes the `updateTime` or the accessed bit of an entry it does not
name. -/
theorem operation_frames {α : Type} [DecidableEq α] {s : System α} (hs : Reachable s) :
    (∀ n now, (s.c.add n now).1 = true →
      let c' := (s.c.add n now).2
      s.c.KeepsOrder c'
        (n :: ((DList.getTail s.c.lru.tiny).toList ++ (DList.getTail s.c.lru.probation).toList)) ∧
      ∀ m, m ≠ n → c'.getUpdateTime m = s.c.getUpdateTime m ∧ c'.isAccessed m = s.c.isAccessed m) ∧
    (∀ n mode now statNow ok, (s.c.recordAccess n mode now statNow ok).1 = true →
      let c' := (s.c.recordAccess n mode now statNow ok).2
      s.c.KeepsOrder c' (n :: (DList.getTail s.c.lru.main).toList) ∧
      ∀ m, m ≠ n → c'.getUpdateTime m = s.c.getUpdateTime m ∧ c'.isAccessed m = s.c.isAccessed m) ∧
    (∀ o n, (s.c.replace o n).1 = true →
      let c' := (s.c.replace o n).2
      (∀ t, c'.lru.getList t = DList.replace o n (s.c.lru.getList t)) ∧
      c'.getUpdateTime n = s.c.getUpdateTime o ∧ c'.isAccessed n = s.c.isAccessed o ∧
      c'.isInMMContainer o = false ∧
      ∀ m, m ≠ o → m ≠ n →
        c'.getUpdateTime m = s.c.getUpdateTime m ∧ ∀ f, c'.isFlagSet m f = s.c.isFlagSet m f) := by
  have hw := hs.wf
  refine ⟨fun n now h => ?_, fun n mode now statNow ok h => ?_, fun o n h => ?_⟩
  · -- `add`
    rw [add_of_fst h]
    exact ⟨keepsOrder_addLocked now, fun m hm =>
      ⟨by rw [getUpdateTime_addLocked, if_neg hm], isFlagSet_addLocked_of_ne hm (by decide) (by decide)⟩⟩
  · -- `recordAccess`
    obtain ⟨-, he⟩ := recordAccess_of_fst h
    rw [he]
    refine ⟨((KeepsOrder.refl s.c _).of_lru (by simp [markAccessed])).trans
      (keepsOrder_recordAccessLocked (List.mem_cons_self n _) (fun x hx => ?_) now),
      fun m hm => ⟨?_, ?_⟩⟩
    · simpa [markAccessed] using List.mem_cons_of_mem n (Option.mem_toList.mpr hx)
    · simp [getUpdateTime_recordAccessLocked, hm, markAccessed]
    · rw [isAccessed, isFlagSet_recordAccessLocked (by decide)]
      simp [markAccessed, hm]
  · -- `replace`
    obtain ⟨hnt, hnp, hino, hinn⟩ := replace_guard h
    have hno : n ≠ o := fun e => by simp [e, hino] at hinn
    have hf := isFlagSet_replaceLocked hw.toSegWf hno hnt hnp
    rw [replace_of_fst h]
    refine ⟨fun t => by cases t <;> simp [replaceLocked_lru hw.toSegWf], ?_, by simp [hf], ?_,
      fun m hmo hmn => ⟨by rw [getUpdateTime_replaceLocked, if_neg hmn], fun f => by
        simp [hf, hmo, hmn]⟩⟩
    · rw [getUpdateTime_replaceLocked, if_pos rfl]
    · simp [hf, hno.symm]

/-- Three adds, the first of which spills; the frames of the next calls. -/
theorem operation_frames_three_adds :
    let s := (System.init ({} : Config) (fun n : Nat => ⟨fun _ => false, 0, n⟩) (fun _ _ h => h)
      0).run [.add 1 0, .add 2 0, .add 3 0]
    Reachable s ∧
    (∀ n now, (s.c.add n now).1 = true →
      let c' := (s.c.add n now).2
      s.c.KeepsOrder c'
        (n :: ((DList.getTail s.c.lru.tiny).toList ++ (DList.getTail s.c.lru.probation).toList)) ∧
      ∀ m, m ≠ n → c'.getUpdateTime m = s.c.getUpdateTime m ∧ c'.isAccessed m = s.c.isAccessed m) ∧
    (∀ n mode now statNow ok, (s.c.recordAccess n mode now statNow ok).1 = true →
      let c' := (s.c.recordAccess n mode now statNow ok).2
      s.c.KeepsOrder c' (n :: (DList.getTail s.c.lru.main).toList) ∧
      ∀ m, m ≠ n → c'.getUpdateTime m = s.c.getUpdateTime m ∧ c'.isAccessed m = s.c.isAccessed m) ∧
    (∀ o n, (s.c.replace o n).1 = true →
      let c' := (s.c.replace o n).2
      (∀ t, c'.lru.getList t = DList.replace o n (s.c.lru.getList t)) ∧
      c'.getUpdateTime n = s.c.getUpdateTime o ∧ c'.isAccessed n = s.c.isAccessed o ∧
      c'.isInMMContainer o = false ∧
      ∀ m, m ≠ o → m ≠ n →
        c'.getUpdateTime m = s.c.getUpdateTime m ∧ ∀ f, c'.isFlagSet m f = s.c.isFlagSet m f) :=
  have hs := (Reachable.init _ _ _ _ fun _ _ => rfl).run _
  ⟨hs, operation_frames hs⟩

end WTinyLFU
