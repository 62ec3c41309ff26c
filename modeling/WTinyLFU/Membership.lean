import WTinyLFU.Eviction

/-! The container as the set of its entries. Under the segment invariant `add`, `remove` and
`replace` act on that set as their names say, and `recordAccess` leaves it alone; a call that
returns false leaves the container as it was. -/
namespace WTinyLFU
namespace Container
variable {α : Type} [DecidableEq α] {c : Container α}

/-- The entries whose in-container bit is set: the set the container stands for. -/
def members (c : Container α) : Set α := {n | c.isInMMContainer n = true}

omit [DecidableEq α] in
@[simp] theorem mem_members {n : α} : n ∈ c.members ↔ c.isInMMContainer n = true := Iff.rfl

omit [DecidableEq α] in
/-- Under the invariant `isEmpty()` holds exactly when no entry is in the container. -/
theorem Wf.isEmpty_iff (h : c.Wf) : c.isEmpty = true ↔ c.members = ∅ := by
  rw [isEmpty, beq_iff_eq, MultiDList.size_eq_length_all, List.length_eq_zero,
    List.eq_nil_iff_forall_not_mem, Set.eq_empty_iff_forall_not_mem]
  simp only [mem_members, h.inMM_iff]

theorem add_fst (n : α) (t : Time) : (c.add n t).1 = !c.isInMMContainer n := by
  unfold Container.add; split <;> simp_all

theorem add_of_fst_eq_false {n : α} {t : Time} (h : (c.add n t).1 = false) : (c.add n t).2 = c := by
  unfold Container.add at h ⊢; split <;> simp_all

theorem members_add (n : α) (t : Time) : (c.add n t).2.members = insert n c.members := by
  unfold Container.add
  split
  · exact (Set.insert_eq_of_mem ‹_›).symm
  · ext m; simp [isInMMContainer_addLocked]

theorem remove_fst (n : α) : (c.remove n).1 = c.isInMMContainer n := by
  unfold Container.remove; split <;> simp_all

theorem remove_of_fst_eq_false {n : α} (h : (c.remove n).1 = false) : (c.remove n).2 = c := by
  unfold Container.remove at h ⊢; split <;> simp_all

theorem members_removeLocked (h : c.SegWf) (n : α) :
    (c.removeLocked n).members = c.members \ {n} := by
  ext m; by_cases hm : m = n <;> simp [isFlagSet_removeLocked h, hm]

theorem members_remove (h : c.SegWf) (n : α) : (c.remove n).2.members = c.members \ {n} := by
  unfold Container.remove
  split
  · ext m; by_cases hm : m = n <;> simp_all
  · exact members_removeLocked h n

/-- Under the invariant an entry outside the container has neither segment bit, so `replace`
succeeds exactly when the old entry is in and the new one is out. -/
theorem replace_fst (h : c.Wf) (o n : α) :
    (c.replace o n).1 = (c.isInMMContainer o && !c.isInMMContainer n) := by
  have hb : c.isInMMContainer n = false → c.isTiny n = false ∧ c.isProbation n = false :=
    fun hn => by
      have := (h.inMM_iff n).not.mp (by simp [hn])
      simp only [mem_all, not_or] at this
      exact ⟨Bool.eq_false_iff.mpr (mt (h.tiny_iff n).mp this.1),
        Bool.eq_false_iff.mpr (mt (h.probation_iff n).mp this.2.1)⟩
  unfold Container.replace
  cases hn : c.isInMMContainer n
  · split_ifs <;> simp_all
  · split_ifs <;> simp_all

theorem members_replace (h : c.Wf) {o n : α} (hr : (c.replace o n).1 = true) :
    (c.replace o n).2.members = insert n (c.members \ {o}) := by
  obtain ⟨hnt, hnp, ho, hn⟩ := replace_guard hr
  have hne : n ≠ o := fun e => by simp [e, ho] at hn
  rw [replace_of_fst hr]
  ext m
  by_cases hmn : m = n <;> by_cases hmo : m = o <;>
    simp_all [isFlagSet_replaceLocked h.toSegWf hne hnt hnp]

@[simp] theorem members_markAccessed (n : α) : (c.markAccessed n).members = c.members :=
  Set.ext fun m => by simp [markAccessed]

omit [DecidableEq α] in
@[simp] theorem members_reconfigureLocked (t u : Time) : (c.reconfigureLocked t u).members = c.members :=
  Set.ext fun m => by simp

@[simp] theorem members_recordAccessLocked (n : α) (t : Time) :
    (c.recordAccessLocked n t).members = c.members :=
  Set.ext fun m => by
    rw [mem_members, mem_members, isInMMContainer, isFlagSet_recordAccessLocked (by decide)]

theorem members_recordAccess (n : α) (mode : AccessMode) (now statNow : Time) (ok : Bool) :
    (c.recordAccess n mode now statNow ok).2.members = c.members := by
  rcases recordAccess_cases c n mode now statNow ok with he | ⟨-, -, -, he⟩ | ⟨-, -, he⟩ <;>
    simp [he]

end Container

/-- In every reachable state the container is the set `S` of its in-container entries:
`add`, `remove` and `replace` succeed exactly when `S` allows them and then change `S` by
that entry; `recordAccess` never changes `S`; `remove(it)` removes the iterator's entry, which
is in `S`; `size()` is the size of `S`; and a call that returns false changes nothing. -/
theorem reachable_membership {α : Type} [DecidableEq α] {s : System α} (hs : Reachable s) :
    (∀ n t, ((s.c.add n t).1 = true ↔ n ∉ s.c.members) ∧
      (s.c.add n t).2.members = insert n s.c.members) ∧
    (∀ n, ((s.c.remove n).1 = true ↔ n ∈ s.c.members) ∧
      (s.c.remove n).2.members = s.c.members \ {n}) ∧
    (∀ o n, ((s.c.replace o n).1 = true ↔ o ∈ s.c.members ∧ n ∉ s.c.members) ∧
      ((s.c.replace o n).1 = true →
        (s.c.replace o n).2.members = insert n (s.c.members \ {o}))) ∧
    (∀ n mode now statNow ok, (s.c.recordAccess n mode now statNow ok).2.members = s.c.members) ∧
    (∀ it x, s.iter = some it → it.get s.c = some x →
      x ∈ s.c.members ∧ (s.step .removeIt).c.members = s.c.members \ {x}) ∧
    s.c.size = s.c.members.ncard ∧
    (∀ n t, (s.c.add n t).1 = false → (s.c.add n t).2 = s.c) ∧
    (∀ n, (s.c.remove n).1 = false → (s.c.remove n).2 = s.c) ∧
    (∀ o n, (s.c.replace o n).1 = false → (s.c.replace o n).2 = s.c) := by
  have h := hs.wf
  refine ⟨fun n t => ⟨by simp [Container.add_fst], Container.members_add n t⟩,
    fun n => ⟨by simp [Container.remove_fst], Container.members_remove h.toSegWf n⟩,
    fun o n => ⟨by simp [Container.replace_fst h], Container.members_replace h⟩,
    fun n mode now statNow ok => Container.members_recordAccess n mode now statNow ok,
    fun it x hit hx => ?_, h.size_eq_ncard, fun _ _ => Container.add_of_fst_eq_false,
    fun _ => Container.remove_of_fst_eq_false, fun _ _ => Container.replace_of_fst_eq_false⟩
  have hxg := hs.valid it hit _ _ hx
  refine ⟨(h.inMM_iff x).mpr (h.existsUnique_mem_getList_iff.mp
    ⟨_, hxg, fun u hu => h.eq_of_mem_getList hu hxg⟩), ?_⟩
  simp only [System.step, System.withIter, hit, Container.removeIt, hx]
  exact Container.members_removeLocked h.toSegWf x

/-- Three entries added to a new container. -/
theorem reachable_membership_three_adds :
    let s := (System.init ({} : Config) (fun n : Nat => ⟨fun _ => false, 0, n⟩) (fun _ _ h => h) 0).run
      [.add 1 0, .add 2 0, .add 3 0]
    Reachable s ∧
    (∀ n t, ((s.c.add n t).1 = true ↔ n ∉ s.c.members) ∧
      (s.c.add n t).2.members = insert n s.c.members) ∧
    (∀ n, ((s.c.remove n).1 = true ↔ n ∈ s.c.members) ∧
      (s.c.remove n).2.members = s.c.members \ {n}) ∧
    (∀ o n, ((s.c.replace o n).1 = true ↔ o ∈ s.c.members ∧ n ∉ s.c.members) ∧
      ((s.c.replace o n).1 = true →
        (s.c.replace o n).2.members = insert n (s.c.members \ {o}))) ∧
    (∀ n mode now statNow ok, (s.c.recordAccess n mode now statNow ok).2.members = s.c.members) ∧
    (∀ it x, s.iter = some it → it.get s.c = some x →
      x ∈ s.c.members ∧ (s.step .removeIt).c.members = s.c.members \ {x}) ∧
    s.c.size = s.c.members.ncard ∧
    (∀ n t, (s.c.add n t).1 = false → (s.c.add n t).2 = s.c) ∧
    (∀ n, (s.c.remove n).1 = false → (s.c.remove n).2 = s.c) ∧
    (∀ o n, (s.c.replace o n).1 = false → (s.c.replace o n).2 = s.c) := by
  intro s
  have hs : Reachable s := (Reachable.init _ _ _ _ fun _ _ => rfl).run _
  exact ⟨hs, reachable_membership hs⟩

end WTinyLFU
