import WTinyLFU.Invariant

/-! The eviction walk. A new `LockedIterator` visits Tiny and Probation from their tails,
merged by `admitToProbation`, then Main from its tail, and `remove(it)` along the way changes
neither that order nor what is left to visit. The proof follows what each cursor has left to
visit: one step of the iterator takes the first entry of the merge of those lists. -/
namespace WTinyLFU
variable {α : Type} [DecidableEq α]

namespace DList

/-- What a reverse iterator at `x` has left to visit: `x`, then the entries towards the
head. -/
def rest (l : List α) : Option α → List α
  | none => []
  | some x => x :: (l.takeWhile (· ≠ x)).reverse

@[simp] theorem rest_none (l : List α) : rest l none = [] := rfl

@[simp] theorem head?_rest (l : List α) (o : Option α) : (rest l o).head? = o := by
  cases o <;> rfl

theorem rest_append_cons {l r : List α} {x : α} (h : x ∉ l) :
    rest (l ++ x :: r) (some x) = x :: l.reverse := by
  suffices e : (l ++ x :: r).takeWhile (· ≠ x) = l by rw [rest, e]
  induction l with
  | nil => simp
  | cons a l ih =>
    have ha : a ≠ x := fun e => h (e ▸ List.mem_cons_self a l)
    rw [List.cons_append, List.takeWhile_cons_of_pos (by simpa using ha),
      ih fun hx => h (List.mem_cons_of_mem a hx)]

/-- A cursor at the last entry of `l` has `l` left to visit, from its tail. -/
theorem rest_append_getLast? {l r : List α} (h : (l ++ r).Nodup) :
    rest (l ++ r) l.getLast? = l.reverse := by
  rcases l.eq_nil_or_concat with rfl | ⟨l, b, rfl⟩
  · rfl
  · rw [List.concat_eq_append, List.append_assoc, List.singleton_append] at h ⊢
    have hb : b ∉ l := fun hb => (List.nodup_middle.mp h |> List.nodup_cons.mp).1
      (List.mem_append_left _ hb)
    rw [List.getLast?_concat, rest_append_cons hb, List.reverse_append]
    rfl

theorem rest_getTail {l : List α} (h : l.Nodup) : rest l (getTail l) = l.reverse := by
  simpa using rest_append_getLast? (l := l) (r := []) (by simpa using h)

theorem rest_getPrev {l : List α} {x : α} (h : l.Nodup) (hx : x ∈ l) :
    rest l (getPrev l x) = (rest l (some x)).tail := by
  obtain ⟨l₁, r, rfl⟩ := List.append_of_mem hx
  have hx' := List.nodup_cons.mp (List.nodup_middle.mp h)
  have h₁ : x ∉ l₁ := fun h => hx'.1 (List.mem_append_left _ h)
  rw [getPrev_append_cons h₁ fun h => hx'.1 (List.mem_append_right _ h),
    rest_append_getLast? h, rest_append_cons h₁, List.tail_cons]

/-- After `remove(it)`, the cursor that stepped back has what was left after the removed
entry. -/
theorem rest_erase_getPrev {l : List α} {x : α} (h : l.Nodup) (hx : x ∈ l) :
    rest (l.erase x) (getPrev l x) = (rest l (some x)).tail := by
  obtain ⟨l₁, r, rfl⟩ := List.append_of_mem hx
  have hx' := List.nodup_cons.mp (List.nodup_middle.mp h)
  have h₁ : x ∉ l₁ := fun h => hx'.1 (List.mem_append_left _ h)
  rw [List.erase_append_right _ h₁, List.erase_cons_head,
    getPrev_append_cons h₁ fun h => hx'.1 (List.mem_append_right _ h),
    rest_append_getLast? hx'.2, rest_append_cons h₁, List.tail_cons]

end DList

namespace Container

/-- The arbiter as the switch of a merge: the Tiny candidate goes first unless it is
admitted. -/
def tinyFirst (c : Container α) (t p : α) : Bool := !c.admitToProbation t p

/-- The order of the eviction iterator over what each list has left: Tiny and Probation
merged by the arbiter, then Main. -/
def order (c : Container α) (r : LruType → List α) : List α :=
  (r .tiny).merge (r .probation) c.tinyFirst ++ r .main

/-- The order the eviction iterator visits a container in: Tiny and Probation read from their
tails and merged by the arbiter, then Main read from its tail. -/
def evictionOrder (c : Container α) : List α :=
  c.lru.tiny.reverse.merge c.lru.probation.reverse c.tinyFirst ++ c.lru.main.reverse

omit [DecidableEq α] in
theorem evictionOrder_perm (c : Container α) : c.evictionOrder.Perm c.lru.all := by
  rw [evictionOrder, MultiDList.all]
  exact ((List.merge_perm_append _).append_right _).trans
    (((List.reverse_perm _).append (List.reverse_perm _)).append (List.reverse_perm _))

omit [DecidableEq α] in
theorem SegWf.nodup_getList {c : Container α} (h : c.SegWf) (u : LruType) :
    (c.lru.getList u).Nodup := by
  cases u
  exacts [h.nodup_main, h.nodup_probation, h.nodup_tiny]

omit [DecidableEq α] in
/-- An entry is in one list only. -/
theorem SegWf.eq_of_mem_getList {c : Container α} (h : c.SegWf) {x : α} {u u' : LruType}
    (hx : x ∈ c.lru.getList u) (hx' : x ∈ c.lru.getList u') : u = u' := by
  cases u <;> cases u' <;> simp only [MultiDList.getList] at hx hx' <;>
    first
    | rfl
    | exact absurd hx (h.not_mem_probation_of_tiny hx')
    | exact absurd hx' (h.not_mem_probation_of_tiny hx)
    | exact absurd hx (h.not_mem_main_of_tiny hx')
    | exact absurd hx' (h.not_mem_main_of_tiny hx)
    | exact absurd hx (h.not_mem_main_of_probation hx')
    | exact absurd hx' (h.not_mem_main_of_probation hx)

@[simp] theorem tinyFirst_removeLocked (c : Container α) (x : α) :
    (c.removeLocked x).tinyFirst = c.tinyFirst := by
  funext t p; simp [tinyFirst]

theorem getList_removeLocked {c : Container α} (h : c.SegWf) (x : α) (u : LruType) :
    (c.removeLocked x).lru.getList u = (c.lru.getList u).erase x := by
  cases u <;> simp [removeLocked_lru h]

end Container

namespace LockedIterator
variable {c : Container α} {it : LockedIterator α} {x : α}

/-- Each cursor of the iterator is at an entry of its own list. -/
def Valid (c : Container α) (it : LockedIterator α) : Prop :=
  ∀ u x, it.sub u = some x → x ∈ c.lru.getList u

/-- What the iterator has left to visit: the order over what each cursor has left. -/
def remaining (c : Container α) (it : LockedIterator α) : List α :=
  c.order fun u => DList.rest (c.lru.getList u) (it.sub u)

omit [DecidableEq α] in
/-- `getIter` takes the Tiny candidate when Probation is exhausted or the arbiter keeps it
first, the Probation candidate when Tiny is exhausted or the arbiter admits, and Main only
once Tiny and Probation are both exhausted. -/
theorem getIter_cases (hx : it.get c = some x) :
    (it.getIter c = .tiny ∧ it.tIter = some x ∧
      (it.pIter = none ∨ ∃ p, it.pIter = some p ∧ c.tinyFirst x p = true)) ∨
    (it.getIter c = .probation ∧ it.pIter = some x ∧
      (it.tIter = none ∨ ∃ t, it.tIter = some t ∧ c.tinyFirst t x = false)) ∨
    (it.getIter c = .main ∧ it.mIter = some x ∧ it.tIter = none ∧ it.pIter = none) := by
  rcases it with ⟨_ | t, _ | p, _ | m⟩ <;> simp [get, getIter, sub] at hx ⊢ <;> try simp_all
  all_goals
    cases hadm : c.admitToProbation t p <;> simp_all [Container.tinyFirst]

omit [DecidableEq α] in
/-- One step of the iterator takes the first entry of the order over what each list has
left. -/
theorem order_eq_cons (c : Container α) {r : LruType → List α}
    (hr : ∀ u, (r u).head? = it.sub u) (hx : it.get c = some x) :
    c.order r = x :: c.order (Function.update r (it.getIter c) (r (it.getIter c)).tail) := by
  have hcons : ∀ {u y}, it.sub u = some y → ∃ l, r u = y :: l := fun h =>
    List.head?_eq_some_iff.mp ((hr _).trans h)
  have hnil : ∀ {u}, it.sub u = none → r u = [] := fun h =>
    List.head?_eq_none_iff.mp ((hr _).trans h)
  rcases getIter_cases hx with ⟨hg, ht, hp⟩ | ⟨hg, hp, ht⟩ | ⟨hg, hm, ht, hp⟩ <;> rw [hg]
  · obtain ⟨ts, hts⟩ := hcons (u := .tiny) ht
    rcases hp with hp | ⟨p, hp, hxp⟩
    · simp [Container.order, Function.update_apply, hts, hnil (u := .probation) hp]
    · obtain ⟨ps, hps⟩ := hcons (u := .probation) hp
      simp [Container.order, Function.update_apply, hts, hps, hxp]
  · obtain ⟨ps, hps⟩ := hcons (u := .probation) hp
    rcases ht with ht | ⟨t, ht, htx⟩
    · simp [Container.order, Function.update_apply, hps, hnil (u := .tiny) ht]
    · obtain ⟨ts, hts⟩ := hcons (u := .tiny) ht
      simp [Container.order, Function.update_apply, hts, hps, htx]
  · obtain ⟨ms, hms⟩ := hcons (u := .main) hm
    simp [Container.order, Function.update_apply, hms, hnil (u := .tiny) ht,
      hnil (u := .probation) hp]

/-- The iterator is at the first entry it has left to visit. -/
theorem get_eq_head?_remaining (c : Container α) (it : LockedIterator α) :
    it.get c = (it.remaining c).head? := by
  cases hx : it.get c with
  | some x => rw [remaining, order_eq_cons c (fun u => DList.head?_rest _ _) hx]; rfl
  | none =>
    have hl := get_isSome c it
    rw [hx] at hl
    rcases it with ⟨_ | _, _ | _, _ | _⟩ <;> simp_all [live, remaining, Container.order, sub]

omit [DecidableEq α] in
@[simp] theorem sub_begin (c : Container α) (u : LruType) :
    (begin c).sub u = DList.getTail (c.lru.getList u) := by
  cases u <;> rfl

omit [DecidableEq α] in
theorem valid_begin (c : Container α) : (begin c).Valid c := by
  intro u x hx
  obtain ⟨l, hl⟩ := DList.getTail_eq_some.mp ((sub_begin c u).symm.trans hx)
  simp [hl]

theorem Valid.next (hv : it.Valid c) : (it.next c).Valid c := by
  intro u y hy
  by_cases hu : u = it.getIter c
  · subst hu
    simp only [LockedIterator.next, sub_setSub_self, Option.bind_eq_some] at hy
    obtain ⟨_, -, hy⟩ := hy
    exact DList.getPrev_mem hy
  · exact hv u y (by rwa [LockedIterator.next, sub_setSub_of_ne _ _ hu] at hy)

/-- `remove(it)` leaves the iterator valid over the container it leaves. -/
theorem Valid.removeLocked (h : c.SegWf) (hv : it.Valid c) (hx : it.get c = some x) :
    (it.next c).Valid (c.removeLocked x) := by
  have hxg : x ∈ c.lru.getList (it.getIter c) := hv _ _ hx
  intro u y hy
  rw [Container.getList_removeLocked h]
  by_cases hu : u = it.getIter c
  · subst hu
    simp only [LockedIterator.next, sub_setSub_self, Option.bind_eq_some] at hy
    obtain ⟨x', hx', hy⟩ := hy
    rw [show x' = x from Option.some.inj (hx'.symm.trans hx)] at hy
    exact List.mem_erase_of_ne (DList.getPrev_ne (h.nodup_getList _) hy) |>.mpr
      (DList.getPrev_mem hy)
  · rw [LockedIterator.next, sub_setSub_of_ne _ _ hu] at hy
    have hyu := hv u y hy
    exact (List.mem_erase_of_ne fun e => hu (h.eq_of_mem_getList (e ▸ hyu) hxg)).mpr hyu

omit [DecidableEq α] in
theorem Valid.of_lru_eq {c' : Container α} (hv : it.Valid c) (h : c'.lru = c.lru) :
    it.Valid c' := fun u x hx => h ▸ hv u x hx

/-- `operator++` drops the entry the iterator was at from what is left. -/
theorem remaining_next (h : c.SegWf) (hv : it.Valid c) (hx : it.get c = some x) :
    (it.next c).remaining c = (it.remaining c).tail := by
  have hxg : x ∈ c.lru.getList (it.getIter c) := hv _ _ hx
  rw [remaining, remaining, order_eq_cons c (fun u => DList.head?_rest _ _) hx, List.tail_cons]
  congr 1
  funext u
  by_cases hu : u = it.getIter c
  · subst hu
    have hg : it.sub (it.getIter c) = some x := hx
    rw [Function.update_same, LockedIterator.next, sub_setSub_self, hg, Option.some_bind,
      DList.rest_getPrev (h.nodup_getList _) hxg]
  · rw [Function.update_noteq hu, LockedIterator.next, sub_setSub_of_ne _ _ hu]

/-- `remove(it)` drops the entry the iterator was at from what is left, and changes nothing
else of it. -/
theorem remaining_removeLocked (h : c.SegWf) (hv : it.Valid c) (hx : it.get c = some x) :
    (it.next c).remaining (c.removeLocked x) = (it.remaining c).tail := by
  have hxg : x ∈ c.lru.getList (it.getIter c) := hv _ _ hx
  have hg : it.sub (it.getIter c) = some x := hx
  have ho : (c.removeLocked x).order = c.order := by
    funext r; rw [Container.order, Container.order, Container.tinyFirst_removeLocked]
  have hr : (fun u => DList.rest ((c.removeLocked x).lru.getList u) ((it.next c).sub u)) =
      Function.update (fun u => DList.rest (c.lru.getList u) (it.sub u)) (it.getIter c)
        (DList.rest (c.lru.getList (it.getIter c)) (it.sub (it.getIter c))).tail := by
    funext u
    rw [Container.getList_removeLocked h]
    by_cases hu : u = it.getIter c
    · subst hu
      rw [Function.update_same, LockedIterator.next, sub_setSub_self, hg, Option.some_bind,
        DList.rest_erase_getPrev (h.nodup_getList _) hxg]
    · rw [Function.update_noteq hu, LockedIterator.next, sub_setSub_of_ne _ _ hu,
        List.erase_of_not_mem fun hx' => hu (h.eq_of_mem_getList hx' hxg)]
  rw [remaining, remaining, hr, ho, order_eq_cons c (fun u => DList.head?_rest _ _) hx,
    List.tail_cons]

/-- A new iterator has the whole order left to visit. -/
theorem remaining_begin (h : c.SegWf) : (begin c).remaining c = c.evictionOrder := by
  simp only [remaining, sub_begin, DList.rest_getTail (h.nodup_getList _)]
  rfl

/-- The entries a walk passed to `remove(it)`, read from its trace. -/
def removedBy (tr : List (Option α × IterOp)) : List α :=
  tr.filterMap fun e => if e.2 = .removeIt then e.1 else none

omit [DecidableEq α] in
@[simp] theorem removedBy_cons_next (x : Option α) (tr : List (Option α × IterOp)) :
    removedBy ((x, .next) :: tr) = removedBy tr := rfl

omit [DecidableEq α] in
@[simp] theorem removedBy_cons_removeIt (x : α) (tr : List (Option α × IterOp)) :
    removedBy ((some x, .removeIt) :: tr) = x :: removedBy tr := rfl

theorem remaining_eq_cons (hx : it.get c = some x) :
    it.remaining c = x :: (it.remaining c).tail := by
  obtain ⟨l, hl⟩ := List.head?_eq_some_iff.mp ((get_eq_head?_remaining c it).symm.trans hx)
  simp [hl]

/-- A walk, for as long as the iterator converts to true, visits what the iterator has left, in
order, whatever the operations, with `get()` at an entry each time; and it unlinks exactly the
entries it passed to `remove(it)`. -/
theorem walk_spec (h : c.Wf) (hv : it.Valid c) (ops : List IterOp) :
    (walk c it ops).2.2.map Prod.fst = ((it.remaining c).take ops.length).map some ∧
      (walk c it ops).2.1.remaining (walk c it ops).1 = (it.remaining c).drop ops.length ∧
      ∀ u, (walk c it ops).1.lru.getList u =
        (c.lru.getList u).filter fun y => y ∉ removedBy (walk c it ops).2.2 := by
  induction ops generalizing c it with
  | nil => simp [walk, removedBy]
  | cons op ops ih =>
    cases hx : it.get c with
    | none =>
      have hl : it.live = false := by rw [← get_isSome, hx]; rfl
      have hnil := List.head?_eq_none_iff.mp ((get_eq_head?_remaining c it).symm.trans hx)
      simp [walk, hl, hnil, removedBy]
    | some x =>
      have hl : it.live = true := by rw [← get_isSome, hx]; rfl
      rw [remaining_eq_cons hx]
      cases op with
      | next =>
        obtain ⟨h1, h2, h3⟩ := ih h hv.next
        rw [remaining_next h.toSegWf hv hx] at h1 h2
        simp only [walk, hl, hx, walkStep, if_true, List.map_cons, List.length_cons,
          List.take_succ_cons, List.drop_succ_cons]
        exact ⟨by rw [h1], h2, fun u => by rw [removedBy_cons_next]; exact h3 u⟩
      | removeIt =>
        obtain ⟨h1, h2, h3⟩ := ih (h.removeLocked x) (hv.removeLocked h.toSegWf hx)
        rw [remaining_removeLocked h.toSegWf hv hx] at h1 h2
        simp only [walk, hl, hx, walkStep, Container.removeIt, if_true, List.map_cons,
          List.length_cons, List.take_succ_cons, List.drop_succ_cons]
        refine ⟨by rw [h1], h2, fun u => ?_⟩
        rw [h3 u, Container.getList_removeLocked h.toSegWf,
          (h.nodup_getList u).erase_eq_filter, List.filter_filter]
        simp only [removedBy_cons_removeIt, List.mem_cons, not_or]
        congr 1; funext a
        simp only [Bool.decide_and, decide_not, Bool.and_comm]
        rfl

end LockedIterator

namespace System
variable {s : System α}

/-- Every action keeps the live iterator valid over the container whose lock it holds. -/
theorem valid_step (h : s.c.Wf) (hv : ∀ it, s.iter = some it → it.Valid s.c) (a : Action α) :
    ∀ it, (s.step a).iter = some it → it.Valid (s.step a).c := by
  intro it hit
  rcases hi : s.iter with _ | it₀
  · -- without an iterator only `getEvictionIterator` and `resetToBegin` make one
    rcases step_of_iter_eq_none hi a with hn | hs
    · simp [hn] at hit
    · rw [hs] at hit ⊢
      exact Option.some.inj hit ▸ LockedIterator.valid_begin s.c
  · -- with one, the lock holders leave the lists alone
    have hv₀ : it₀.Valid s.c := hv _ hi
    rcases (step_of_iter_eq_some hi a).2 with hs | ⟨n, -, -, -, -, -, -, -, hs⟩ |
      ⟨n, -, now, -, -, -, -, -, hs⟩ | ⟨-, hs⟩ | ⟨-, hs⟩ | ⟨-, hs⟩ | ⟨-, hs⟩ | ⟨-, hs⟩ <;>
      rw [hs] at hit ⊢ <;> simp only [hi, Option.some.injEq, reduceCtorEq] at hit <;> subst hit
    · exact hv₀
    · exact hv₀.of_lru_eq (by simp [Container.markAccessed])
    · exact hv₀.of_lru_eq (by simp [Container.markAccessed])
    · exact hv₀.next
    · unfold Container.removeIt
      split
      exacts [hv₀.removeLocked h.toSegWf ‹_›, hv₀]
    · intro u x hx
      cases u <;> simp [LockedIterator.reset, LockedIterator.sub] at hx
    · exact LockedIterator.valid_begin s.c

end System

/-- In every reachable state a live iterator is valid over the container. -/
theorem Reachable.valid {s : System α} (hs : Reachable s) :
    ∀ it, s.iter = some it → it.Valid s.c := by
  induction hs with
  | init => intro it hit; simp [System.init] at hit
  | step a hs ih => exact System.valid_step hs.wf ih a

open LockedIterator in
/-- A new eviction iterator, walked with any mix of `operator++` and `remove(it)` until it
converts to false, visits Tiny and Probation from their tails merged by the arbiter, then Main
from its tail: each entry of the container once. After the walk each list holds its entries
in their order, without those passed to `remove(it)`. -/
theorem eviction_walk {α : Type} [DecidableEq α] {s : System α} (hs : Reachable s)
    (ops : List IterOp) (hops : s.c.size ≤ ops.length) :
    let w := walk s.c (begin s.c) ops
    w.2.2.map Prod.fst = s.c.evictionOrder.map some ∧
      w.2.2.length = s.c.lru.tiny.length + s.c.lru.probation.length + s.c.lru.main.length ∧
      s.c.evictionOrder.Nodup ∧
      (∀ x, x ∈ s.c.evictionOrder ↔ s.c.isInMMContainer x = true) ∧
      w.2.1.live = false ∧
      ∀ u, w.1.lru.getList u = (s.c.lru.getList u).filter fun y => y ∉ removedBy w.2.2 := by
  intro w
  have h := hs.wf
  have hperm := s.c.evictionOrder_perm
  have hlen : s.c.evictionOrder.length = s.c.size := by
    rw [hperm.length_eq, Container.size, MultiDList.size_eq_length_all]
  obtain ⟨h1, h2, h3⟩ := walk_spec h (valid_begin s.c) ops
  rw [remaining_begin h.toSegWf, List.take_of_length_le (hlen ▸ hops)] at h1
  rw [remaining_begin h.toSegWf, List.drop_of_length_le (hlen ▸ hops)] at h2
  refine ⟨h1, ?_, hperm.nodup_iff.mpr h.nodup, fun x => ?_, ?_, h3⟩
  · rw [← List.length_map _ Prod.fst, h1, List.length_map, hlen, Container.size,
      MultiDList.size]; omega
  · rw [hperm.mem_iff, h.inMM_iff]
  · rw [← get_isSome, get_eq_head?_remaining, h2]; rfl

open LockedIterator in
/-- A walk over three entries that removes the first and the last it visits. -/
theorem eviction_walk_three_entries :
    let s := (System.init ({} : Config) (fun n : Nat => ⟨fun _ => false, 0, n⟩) (fun _ _ h => h) 0).run
      [.add 1 0, .add 2 0, .add 3 0]
    let ops := [IterOp.removeIt, .next, .removeIt]
    Reachable s ∧ s.c.size ≤ ops.length ∧
      let w := walk s.c (begin s.c) ops
      w.2.2.map Prod.fst = s.c.evictionOrder.map some ∧
        w.2.2.length = s.c.lru.tiny.length + s.c.lru.probation.length + s.c.lru.main.length ∧
        s.c.evictionOrder.Nodup ∧
        (∀ x, x ∈ s.c.evictionOrder ↔ s.c.isInMMContainer x = true) ∧
        w.2.1.live = false ∧
        ∀ u, w.1.lru.getList u = (s.c.lru.getList u).filter fun y => y ∉ removedBy w.2.2 := by
  intro s ops
  have hs : Reachable s := (Reachable.init _ _ _ _ fun _ _ => rfl).run _
  exact ⟨hs, by decide, eviction_walk hs ops (by decide)⟩


end WTinyLFU
