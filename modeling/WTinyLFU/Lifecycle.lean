import WTinyLFU.Access
import WTinyLFU.Frames

/-! The life of one entry: out of the container, in Tiny, in Probation or in Main, as the code
reads it off the in-container bit and `getLruType`. An `add` links its entry in Tiny, or in
Probation when the Tiny cap spills it at once, and otherwise moves an entry between Tiny and
Probation only as the Tiny tail or the Probation tail. An entry enters Main only by an access
that finds its count above `protectionFreq_`, or in the place of a Main entry it replaces; it
leaves Main only as Main's tail, demoted to Probation by an access to another entry; and it
leaves the container only by `remove`, `replace` or `remove(it)`. No action moves an entry
between Tiny and Main. -/
namespace WTinyLFU

namespace MultiDList
variable {α : Type} [DecidableEq α] {m m' : MultiDList α} {n n' : α} {t : LruType}

/-- The list an entry is linked in, or `none`. -/
def lruTypeOf (m : MultiDList α) (n : α) : Option LruType :=
  if n ∈ m.tiny then some .tiny
  else if n ∈ m.probation then some .probation
  else if n ∈ m.main then some .main
  else none

theorem mem_getList_of_lruTypeOf (h : m.lruTypeOf n = some t) : n ∈ m.getList t := by
  unfold lruTypeOf at h
  split_ifs at h <;> cases h <;> assumption

theorem lruTypeOf_eq_none : m.lruTypeOf n = none ↔ n ∉ m.all := by
  unfold lruTypeOf
  split_ifs <;> simp_all

omit [DecidableEq α] in
theorem mem_all_of_mem_getList (h : n ∈ m.getList t) : n ∈ m.all := by
  cases t <;> simp_all

theorem lruTypeOf_eq_none_of (h : ∀ u, n ∉ m.getList u) : m.lruTypeOf n = none := by
  have := h .tiny
  have := h .probation
  have := h .main
  simp_all [lruTypeOf]

/-- Two entries linked in the same lists, of two `MultiDList`s, are in the same list. -/
theorem lruTypeOf_congr (h : ∀ t, n' ∈ m'.getList t ↔ n ∈ m.getList t) :
    m'.lruTypeOf n' = m.lruTypeOf n := by
  have ht := h .tiny
  have hp := h .probation
  have hm := h .main
  simp only [getList_tiny, getList_probation, getList_main] at ht hp hm
  simp only [lruTypeOf, ht, hp, hm]

/-- An entry linked in some list other than Main is in Tiny or in Probation. -/
theorem lruTypeOf_of_not_main (hn : n ∈ m.all) (hm : n ∉ m.main) :
    ∃ t, t ≠ .main ∧ m.lruTypeOf n = some t := by
  unfold lruTypeOf
  split_ifs <;> simp_all

/-- An entry linked in some list other than Tiny is in Probation or in Main. -/
theorem lruTypeOf_of_not_tiny (hn : n ∈ m.all) (ht : n ∉ m.tiny) :
    ∃ t, t ≠ .tiny ∧ m.lruTypeOf n = some t := by
  unfold lruTypeOf
  split_ifs <;> simp_all

end MultiDList

namespace Container
variable {α : Type} [DecidableEq α] {c c' : Container α} {n m : α} {t : Time}

/-- The segment of an entry as the code reads it: `getLruType` when the in-container bit is
set, else `none`. -/
def segment (c : Container α) (n : α) : Option LruType :=
  if c.isInMMContainer n then some (c.getLruType n) else none

/-- Under the invariant the bits name the list the entry is linked in. -/
theorem SegWf.lruTypeOf_eq_some (h : c.SegWf) {u : LruType} :
    c.lru.lruTypeOf n = some u ↔ n ∈ c.lru.getList u := by
  refine ⟨MultiDList.mem_getList_of_lruTypeOf, fun hn => ?_⟩
  obtain ⟨u', hu'⟩ := Option.ne_none_iff_exists'.mp
    (mt MultiDList.lruTypeOf_eq_none.mp (not_not.mpr (MultiDList.mem_all_of_mem_getList hn)))
  rw [hu', h.eq_of_mem_getList (MultiDList.mem_getList_of_lruTypeOf hu') hn]

theorem Wf.segment_eq (h : c.Wf) (n : α) : c.segment n = c.lru.lruTypeOf n := by
  unfold segment
  cases hl : c.lru.lruTypeOf n with
  | none => rw [if_neg (by rw [h.inMM_iff]; exact MultiDList.lruTypeOf_eq_none.mp hl)]
  | some u =>
    have hu := MultiDList.mem_getList_of_lruTypeOf hl
    have hn := MultiDList.mem_all_of_mem_getList hu
    rw [if_pos ((h.inMM_iff n).mpr hn), h.eq_of_mem_getList (h.mem_getList_getLruType hn) hu]

theorem Wf.exists_lruTypeOf (h : c.Wf) (hn : c.isInMMContainer n = true) :
    ∃ u, c.lru.lruTypeOf n = some u :=
  Option.ne_none_iff_exists'.mp
    (mt MultiDList.lruTypeOf_eq_none.mp (not_not.mpr ((h.inMM_iff n).mp hn)))

/-- An entry that every list keeps or drops as it was is where it was. -/
theorem KeepsOrder.lruTypeOf_eq {E : List α} (h : c.KeepsOrder c' E) (hm : m ∉ E) :
    c'.lru.lruTypeOf m = c.lru.lruTypeOf m :=
  MultiDList.lruTypeOf_congr fun u => by
    simpa [List.mem_filter, hm] using congrArg (m ∈ ·) (h u)

/-- An access that promotes nothing only moves the entry to the head of its own list. -/
theorem recordAccessLocked_lru_of_not_promote
    (h : ¬(c.getLruType n = .probation ∧
      c.config.protectionFreq_ < c.accessFreq.getCount (c.hashNode n))) :
    (c.recordAccessLocked n t).lru = c.lru.modify (c.getLruType n) (DList.moveToHead n) := by
  simp only [recordAccessLocked, updateFrequenciesLocked_lru, setUpdateTime_lru]
  split_ifs with hp
  · simp only [promoteToMainLocked, modifyLru_accessFreq, hashNode_modifyLru, modifyLru_config,
      if_neg fun hf => h ⟨hp, hf⟩]
    rfl
  · rfl

/-- Moving an entry to the head of its own list keeps every entry in its list. -/
theorem SegWf.lruTypeOf_modify_moveToHead (h : c.SegWf) (hn : n ∈ c.lru.all) (m : α) :
    (c.lru.modify (c.getLruType n) (DList.moveToHead n)).lruTypeOf m = c.lru.lruTypeOf m := by
  have hp := (DList.moveToHead_perm (h.mem_getList_getLruType hn)).mem_iff (a := m)
  refine MultiDList.lruTypeOf_congr fun u => ?_
  cases hu : c.getLruType n <;> rw [hu] at hp <;> cases u <;> simp_all

theorem lruTypeOf_removeLocked (h : c.SegWf) (n m : α) :
    (c.removeLocked n).lru.lruTypeOf m = if m = n then none else c.lru.lruTypeOf m := by
  split_ifs with hmn
  · exact MultiDList.lruTypeOf_eq_none_of fun u => by
      rw [getList_removeLocked h, hmn]; exact (h.nodup_getList u).not_mem_erase
  · exact MultiDList.lruTypeOf_congr fun u => by
      rw [getList_removeLocked h]; exact List.mem_erase_of_ne hmn

/-- `replaceLocked` puts the new entry in the old one's list and takes the old one out. -/
theorem lruTypeOf_replaceLocked (h : c.SegWf) {o : α} (hn : n ∉ c.lru.all) (hno : n ≠ o)
    (m : α) :
    (c.replaceLocked o n).lru.lruTypeOf m =
      if m = n then c.lru.lruTypeOf o else if m = o then none else c.lru.lruTypeOf m := by
  have hmem : ∀ u x, x ∈ (c.replaceLocked o n).lru.getList u ↔
      (x = n ∧ o ∈ c.lru.getList u) ∨ (x ≠ o ∧ x ∈ c.lru.getList u) := fun u x => by
    rw [show (c.replaceLocked o n).lru.getList u = DList.replace o n (c.lru.getList u) by
      cases u <;> simp [replaceLocked_lru h], DList.mem_replace (h.nodup_getList u)]
  split_ifs with hmn hmo
  · subst hmn
    exact MultiDList.lruTypeOf_congr fun u => by
      have : m ∉ c.lru.getList u := fun h' => hn (MultiDList.mem_all_of_mem_getList h')
      rw [hmem]; simp [hno, this]
  · subst hmo
    exact MultiDList.lruTypeOf_eq_none_of fun u => by rw [hmem]; simp [hmn]
  · exact MultiDList.lruTypeOf_congr fun u => by rw [hmem]; simp [hmn, hmo]

end Container

/-- The entry whose locked access body an action runs: a `recordAccess`, or a blocked one
resumed. -/
def Action.accessed {α : Type} : Action α → Option α
  | .recordAccess n .. => some n
  | .resumeAccess n .. => some n
  | _ => none

namespace System
variable {α : Type} [DecidableEq α] {s : System α}

open Container

/-- What one action from `s` may do to the segment of one entry, `none` standing for out of
the container. -/
inductive SegmentMove (s : System α) : Action α → α → Option LruType → Option LruType → Prop
  /-- The entry stays where it is. -/
  | stay (a : Action α) (m : α) (x : Option LruType) : SegmentMove s a m x x
  /-- `add` links its entry in Tiny, or in Probation when the Tiny cap spills it at once. -/
  | add_new {n : α} {now : Time} {u : LruType} (hu : u ≠ .main) :
      SegmentMove s (.add n now) n none (some u)
  /-- `add` spills the Tiny tail to Probation, or swaps it with the Probation tail. -/
  | add_tiny_tail {n m : α} {now : Time} (hm : DList.getTail s.c.lru.tiny = some m) :
      SegmentMove s (.add n now) m (some .tiny) (some .probation)
  /-- The swap takes the Probation tail to Tiny. -/
  | add_probation_tail {n m : α} {now : Time} (hm : DList.getTail s.c.lru.probation = some m) :
      SegmentMove s (.add n now) m (some .probation) (some .tiny)
  | remove {n : α} {u : LruType} : SegmentMove s (.remove n) n (some u) none
  | replace_old {o n : α} {u : LruType} : SegmentMove s (.replace o n) o (some u) none
  /-- The new entry of a `replace` takes the old one's segment. -/
  | replace_new {o n : α} {u : LruType} (hu : s.c.segment o = some u) :
      SegmentMove s (.replace o n) n none (some u)
  /-- An access promotes a Probation entry counted above `protectionFreq_`. -/
  | promote {a : Action α} {n : α} (ha : a.accessed = some n)
      (hf : s.c.config.protectionFreq_ < s.c.accessFreq.getCount (s.c.hashNode n)) :
      SegmentMove s a n (some .probation) (some .main)
  /-- The Main cap of that access demotes Main's tail, another entry, to Probation. -/
  | demote {a : Action α} {n m : α} (ha : a.accessed = some n)
      (hm : DList.getTail s.c.lru.main = some m) (hmn : m ≠ n) :
      SegmentMove s a m (some .main) (some .probation)
  /-- `remove(it)` unlinks the entry the iterator is at. -/
  | evict {m : α} {it : LockedIterator α} {u : LruType} (hi : s.iter = some it)
      (hg : it.get s.c = some m) : SegmentMove s .removeIt m (some u) none

theorem segmentMove_add (hw : s.c.Wf) {n : α} (hin : s.c.isInMMContainer n = false)
    (now : Time) (m : α) :
    SegmentMove s (.add n now) m (s.c.lru.lruTypeOf m) ((s.c.addLocked n now).lru.lruTypeOf m) := by
  have hs := hw.toSegWf
  have hn : n ∉ s.c.lru.all := fun h => by simp [(hw.inMM_iff n).mpr h] at hin
  have hall := (addLocked_all_perm hs hn (t := now)).mem_iff (a := m)
  -- afterwards an entry of the lists out of Main is in Tiny or in Probation
  have hafter (hm : m = n ∨ m ∈ s.c.lru.all) (hmain : m ∉ s.c.lru.main) :=
    MultiDList.lruTypeOf_of_not_main (hall.mpr (List.mem_cons.mpr hm))
      (by rwa [addLocked_main])
  by_cases hE : m ∈ n :: ((DList.getTail s.c.lru.tiny).toList ++
      (DList.getTail s.c.lru.probation).toList)
  · simp only [List.mem_cons, List.mem_append, Option.mem_toList, Option.mem_def] at hE
    rcases hE with rfl | hT | hP
    · -- the new entry
      obtain ⟨u, hu, he⟩ := hafter (.inl rfl) fun h => hn (by simp [h])
      rw [MultiDList.lruTypeOf_eq_none.mpr hn, he]
      exact .add_new hu
    · -- the Tiny tail
      have hmt : m ∈ s.c.lru.tiny := by obtain ⟨l, hl⟩ := DList.getTail_eq_some.mp hT; simp [hl]
      obtain ⟨u, hu, he⟩ := hafter (.inr (by simp [hmt])) (hs.not_mem_main_of_tiny hmt)
      rw [(hs.lruTypeOf_eq_some (u := .tiny)).mpr hmt, he]
      cases u
      exacts [absurd rfl hu, .add_tiny_tail hT, .stay _ _ _]
    · -- the Probation tail
      have hmp : m ∈ s.c.lru.probation := by
        obtain ⟨l, hl⟩ := DList.getTail_eq_some.mp hP; simp [hl]
      obtain ⟨u, hu, he⟩ := hafter (.inr (by simp [hmp])) (hs.not_mem_main_of_probation hmp)
      rw [(hs.lruTypeOf_eq_some (u := .probation)).mpr hmp, he]
      cases u
      exacts [absurd rfl hu, .stay _ _ _, .add_probation_tail hP]
  · rw [(keepsOrder_addLocked now).lruTypeOf_eq hE]
    exact .stay _ _ _

/-- The locked body of an access, run on the container as it was or with the entry's accessed
bit just set. -/
theorem segmentMove_access (hw : s.c.Wf) {a : Action α} {n : α} (ha : a.accessed = some n)
    (hin : s.c.isInMMContainer n = true) {c₀ : Container α}
    (h₀ : c₀ = s.c ∨ c₀ = s.c.markAccessed n) (now statNow : Time) (m : α) :
    SegmentMove s a m (s.c.lru.lruTypeOf m)
      (((c₀.reconfigureLocked now statNow).recordAccessLocked n now).lru.lruTypeOf m) := by
  obtain ⟨c₁, hc₁⟩ : ∃ c₁, c₁ = c₀.reconfigureLocked now statNow := ⟨_, rfl⟩
  rw [← hc₁]
  have hs := hw.toSegWf
  obtain ⟨hl₁, hcfg, hfreq, hhash, hw₁⟩ : c₁.lru = s.c.lru ∧ c₁.config = s.c.config ∧
      c₁.accessFreq = s.c.accessFreq ∧ c₁.hashNode = s.c.hashNode ∧ c₁.Wf := by
    rcases h₀ with rfl | rfl <;> simp only [hc₁, wf_reconfigureLocked, wf_markAccessed, hw] <;>
      simp [markAccessed]
  have hs₁ := hw₁.toSegWf
  have hn : n ∈ c₁.lru.all := hl₁ ▸ (hw.inMM_iff n).mp hin
  by_cases hp : c₁.getLruType n = .probation ∧
      c₁.config.protectionFreq_ < c₁.accessFreq.getCount (c₁.hashNode n)
  · -- a promotion: only the entry and Main's tail move, and Tiny is as it was
    obtain ⟨hp, hf⟩ := hp
    have hnp : n ∈ s.c.lru.probation := by
      simpa [hp, hl₁] using hs₁.mem_getList_getLruType hn
    have htiny : (c₁.recordAccessLocked n now).lru.tiny = s.c.lru.tiny := by
      rw [recordAccessLocked_lru_of_promote hs₁ (by rwa [hl₁]) hf, demoteMainTailLocked_tiny]
      simp [unmarkProbation, hl₁]
    have hall := (recordAccessLocked_all_perm hs₁ hn (t := now)).mem_iff (a := m)
    -- afterwards an entry of the lists out of Tiny is in Probation or in Main
    have hafter (hm : m ∈ s.c.lru.all) (ht : m ∉ s.c.lru.tiny) :=
      MultiDList.lruTypeOf_of_not_tiny (hall.mpr (by rwa [hl₁])) (by rwa [htiny])
    by_cases hE : m ∈ n :: (DList.getTail c₁.lru.main).toList
    · simp only [List.mem_cons, Option.mem_toList, Option.mem_def, hl₁] at hE
      rcases hE with rfl | hM
      · -- the accessed entry
        have hf' : s.c.config.protectionFreq_ < s.c.accessFreq.getCount (s.c.hashNode m) := by
          rwa [hcfg, hfreq, hhash] at hf
        obtain ⟨u, hu, he⟩ := hafter (by simp [hnp]) (fun h => hs.not_mem_probation_of_tiny h hnp)
        rw [(hs.lruTypeOf_eq_some (u := .probation)).mpr hnp, he]
        cases u
        exacts [.promote ha hf', .stay _ _ _, absurd rfl hu]
      · -- Main's tail
        have hmm : m ∈ s.c.lru.main := by obtain ⟨l, hl⟩ := DList.getTail_eq_some.mp hM; simp [hl]
        have hmn : m ≠ n := fun e => hs.not_mem_main_of_probation hnp (e ▸ hmm)
        obtain ⟨u, hu, he⟩ := hafter (by simp [hmm]) (fun h => hs.not_mem_main_of_tiny h hmm)
        rw [(hs.lruTypeOf_eq_some (u := .main)).mpr hmm, he]
        cases u
        exacts [.stay _ _ _, .demote ha hM hmn, absurd rfl hu]
    · rw [(keepsOrder_recordAccessLocked (List.mem_cons_self n _) (fun x hx => by simp [hx])
        now).lruTypeOf_eq hE, hl₁]
      exact .stay _ _ _
  · rw [recordAccessLocked_lru_of_not_promote hp, hs₁.lruTypeOf_modify_moveToHead hn, hl₁]
    exact .stay _ _ _

/-- Every action from a reachable state moves each entry as `SegmentMove` allows. -/
theorem segmentMove_step (hs : Reachable s) (a : Action α) (m : α) :
    SegmentMove s a m (s.c.segment m) ((s.step a).c.segment m) := by
  have hw := hs.wf
  rw [hw.segment_eq, (hs.step a).wf.segment_eq]
  rcases step_cases s a with ⟨he, -⟩ | ⟨n, now, rfl, -, -, hin, he⟩ | ⟨n, rfl, -, hin, he⟩ |
    ⟨o, n, rfl, -, hr, he⟩ | ⟨n, mode, now, statNow, ok, rfl, -, he⟩ |
    ⟨n, mode, now, statNow, ok, rfl, -, hin, he⟩ | ⟨n, now, statNow, rfl, -, hin, he⟩ |
    ⟨n, now, statNow, rfl, -, -, he⟩ | ⟨config, now, rfl, -, he⟩ |
    ⟨o, now, rfl, -, hr⟩ | ⟨it, x, rfl, -, hi, hg, he⟩
  · rw [he]; exact .stay _ _ _
  · rw [he]; exact segmentMove_add hw hin now m
  · -- `remove`
    obtain ⟨u, hu⟩ := hw.exists_lruTypeOf hin
    rw [he, lruTypeOf_removeLocked hw.toSegWf]
    split_ifs with hmn
    · rw [hmn, hu]; exact .remove
    · exact .stay _ _ _
  · -- `replace`
    obtain ⟨-, -, hino, hinn⟩ := replace_guard hr
    obtain ⟨u, hu⟩ := hw.exists_lruTypeOf hino
    rw [he, lruTypeOf_replaceLocked hw.toSegWf (fun h => by simp [(hw.inMM_iff n).mpr h] at hinn)
      (fun e => by simp [e, hino] at hinn)]
    split_ifs with hmn hmo
    · rw [hmn, hu, MultiDList.lruTypeOf_eq_none.mpr fun h => by
        simp [(hw.inMM_iff n).mpr h] at hinn]
      exact .replace_new (by rw [hw.segment_eq, hu])
    · rw [hmo, hu]; exact .replace_old
    · exact .stay _ _ _
  · rw [he]; exact .stay _ _ _
  · rw [he]; exact segmentMove_access hw (by rfl) hin (.inr rfl) now statNow m
  · rw [he]; exact segmentMove_access hw (by rfl) hin (.inl rfl) now statNow m
  · rw [he, reconfigureLocked_lru]; exact .stay _ _ _
  · rw [he]; exact .stay _ _ _
  · -- a restart keeps the lists
    obtain ⟨config, -, he⟩ := restore_eq_ok hr
    rw [he]
    exact .stay _ _ _
  · -- `remove(it)`
    have hx : x ∈ s.c.lru.getList (it.getIter s.c) := hs.valid it hi _ _ hg
    rw [he, lruTypeOf_removeLocked hw.toSegWf]
    split_ifs with hmx
    · rw [hmx, (hw.lruTypeOf_eq_some).mpr hx]; exact .evict hi hg
    · exact .stay _ _ _

end System

open System

/-- The life of an entry, from every reachable state and under every action: it stays where
it is; an `add` links it in Tiny or in Probation, or moves the Tiny tail to Probation or the
Probation tail to Tiny; an access moves it from Probation to Main when its count is above
`protectionFreq_`, or demotes Main's tail to Probation; `replace` puts the new entry in the
old one's segment; and `remove`, `replace` and `remove(it)` take their entry out. -/
theorem segment_lifecycle {α : Type} [DecidableEq α] {s : System α} (hs : Reachable s)
    (a : Action α) (m : α) : SegmentMove s a m (s.c.segment m) ((s.step a).c.segment m) :=
  segmentMove_step hs a m

/-- The first `add` to a new container: under the default Tiny share of one percent the Tiny
cap spills the entry to Probation at once. -/
theorem segment_lifecycle_first_add :
    let s := System.init ({} : Config) (fun n : Nat => ⟨fun _ => false, 0, n⟩) (fun _ _ h => h) 0
    Reachable s ∧ s.c.segment 1 = none ∧ (s.step (.add 1 0)).c.segment 1 = some .probation ∧
      SegmentMove s (.add 1 0) 1 (s.c.segment 1) ((s.step (.add 1 0)).c.segment 1) := by
  intro s
  have hs : Reachable s := Reachable.init _ _ _ _ fun _ _ => rfl
  exact ⟨hs, by decide, by decide, segment_lifecycle hs _ _⟩

/-- Along every run from a reachable state, an entry in Main at the end that was not in Main at
the start entered Main at some step: by an access, or a blocked access resumed, that found it in
Probation with a count above `protectionFreq_`, or as the new entry of a `replace` of a Main entry. -/
theorem main_entry_provenance {α : Type} [DecidableEq α] {s : System α} (hs : Reachable s)
    (acts : List (Action α)) (m : α)
    (hend : (s.run acts).c.segment m = some .main) (hstart : s.c.segment m ≠ some .main) :
    ∃ pre a post, acts = pre ++ a :: post ∧
      ((a.accessed = some m ∧ (s.run pre).c.segment m = some .probation ∧
          (s.run pre).c.config.protectionFreq_ <
            (s.run pre).c.accessFreq.getCount ((s.run pre).c.hashNode m)) ∨
        ∃ o, a = .replace o m ∧ (s.run pre).c.segment o = some .main) := by
  induction acts generalizing s with
  | nil => exact absurd hend hstart
  | cons a acts ih =>
    by_cases h₁ : (s.step a).c.segment m = some .main
    · -- this step brings the entry into Main
      have hmv := segmentMove_step hs a m
      rw [h₁] at hmv
      generalize hx : s.c.segment m = x at hmv hstart
      cases hmv with
      | stay => exact absurd rfl hstart
      | add_new hu => exact absurd rfl hu
      | promote ha hf => exact ⟨[], _, acts, rfl, .inl ⟨ha, hx, hf⟩⟩
      | replace_new hu => exact ⟨[], _, acts, rfl, .inr ⟨_, rfl, hu⟩⟩
    · obtain ⟨pre, b, post, rfl, hb⟩ := ih (hs.step a) hend h₁
      exact ⟨a :: pre, b, post, rfl, hb⟩

/-- Two entries spilled to Probation and the fourth access to the first, which promotes it. -/
theorem main_entry_provenance_fourth_access :
    let s := System.init ({ defaultLruRefreshTime := 0 } : Config)
      (fun n : Nat => ⟨fun _ => false, 0, n⟩) (fun _ _ h => h) 0
    let acts : List (Action Nat) := [.add 1 0, .add 2 0, .recordAccess 1 .read 0 0 true,
      .recordAccess 1 .read 0 0 true, .recordAccess 1 .read 0 0 true,
      .recordAccess 1 .read 0 0 true]
    Reachable s ∧ (s.run acts).c.segment 1 = some .main ∧ s.c.segment 1 ≠ some .main ∧
      ∃ pre a post, acts = pre ++ a :: post ∧
        ((a.accessed = some 1 ∧ (s.run pre).c.segment 1 = some .probation ∧
            (s.run pre).c.config.protectionFreq_ <
              (s.run pre).c.accessFreq.getCount ((s.run pre).c.hashNode 1)) ∨
          ∃ o, a = .replace o 1 ∧ (s.run pre).c.segment o = some .main) := by
  intro s acts
  have hs : Reachable s := Reachable.init _ _ _ _ fun _ _ => rfl
  exact ⟨hs, by decide, by decide, main_entry_provenance hs _ _ (by decide) (by decide)⟩

end WTinyLFU
