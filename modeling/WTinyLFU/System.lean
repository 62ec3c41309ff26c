import WTinyLFU.Iterator

/-! The container as the allocator drives it: client actions, the eviction iterator that
holds the container lock while it lives, restarts through `saveState`, and the states that
runs reach. -/
namespace WTinyLFU

/-- A call the allocator makes. Clock readings are inputs, and so is whether the container
lock was free when a `recordAccess` asked for it. -/
inductive Action (α : Type) where
  | add (node : α) (now : Time)
  | remove (node : α)
  | replace (oldNode newNode : α)
  | recordAccess (node : α) (mode : AccessMode) (now statNow : Time) (lockFree : Bool)
  | resumeAccess (node : α) (now statNow : Time)
  | setConfig (config : Config) (now : Time)
  | restore (configObject : MMTinyLFUConfig) (now : Time)
  | getEvictionIterator
  | next
  | removeIt
  | reset
  | resetToBegin
  | destroy

/-- The container; the eviction iterator, if one is alive, which holds the container lock; and
the `recordAccess` calls blocked in `lock()`, each with the entry and the clock reading it
took before it asked for the lock. -/
structure System (α : Type) where
  c : Container α
  iter : Option (LockedIterator α)
  waiting : List (α × Time)

namespace System
variable {α : Type} [DecidableEq α] {s : System α}

/-- An operation that takes the container lock: it waits while an iterator holds it. -/
def withLock (s : System α) (f : Container α → Container α) : System α :=
  match s.iter with
  | none => { s with c := f s.c }
  | some _ => s

/-- An operation on the live iterator. -/
def withIter (s : System α) (f : Container α → LockedIterator α → Container α × LockedIterator α) :
    System α :=
  match s.iter with
  | some it => { s with c := (f s.c it).1, iter := some (f s.c it).2 }
  | none => s

/-- One action. A `recordAccess` that finds the lock free runs to its end. One that meets a
held lock fails when the config asks for `try_lock`, and otherwise, once past its checks, sets
the accessed bit and blocks in `lock()`; a later `resumeAccess`, when no iterator holds the
lock, runs the rest of it. A restart saves the state and restores it over the same entries,
and the calls blocked before it are gone; a restore that fails leaves the system as it was. A
destroyed iterator takes the lock again in `resetToBegin`. -/
def step (s : System α) : Action α → System α
  | .add n now => s.withLock fun c => (c.add n now).2
  | .remove n => s.withLock fun c => (c.remove n).2
  | .replace o n => s.withLock fun c => (c.replace o n).2
  | .recordAccess n mode now statNow free =>
    if s.iter.isNone && free then { s with c := (s.c.recordAccess n mode now statNow true).2 }
    else if s.c.config.tryLockUpdate then
      { s with c := (s.c.recordAccess n mode now statNow false).2 }
    else
      match s.c.recordAccessPrefix n mode now with
      | some c => { s with c, waiting := (n, now) :: s.waiting }
      | none => s
  | .resumeAccess n now statNow =>
    if s.iter.isNone ∧ (n, now) ∈ s.waiting then
      { s with c := (s.c.recordAccessUnderLock n now statNow).2,
               waiting := s.waiting.erase (n, now) }
    else s
  | .setConfig config now => s.withLock fun c => c.setConfig config now
  | .restore configObject now =>
    match s.iter, Container.restore (s.c.saveState configObject) s.c.nodes s.c.accessFreq.index now with
    | none, .ok c => ⟨c, none, []⟩
    | _, _ => s
  | .getEvictionIterator =>
    match s.iter with
    | none => { s with iter := some (LockedIterator.begin s.c) }
    | some _ => s
  | .next => s.withIter fun c it => (c, it.next c)
  | .removeIt => s.withIter Container.removeIt
  | .reset => s.withIter fun c it => (c, it.reset)
  | .resetToBegin =>
    match s.iter with
    | some it => { s with iter := some (it.resetToBegin s.c) }
    | none => { s with iter := some (LockedIterator.begin s.c) }
  | .destroy => { s with iter := none }

/-- The value the action's call returns: `add`, `remove`, `replace` and `recordAccess` return
whether they did their work, and a restart returns when the restoring constructor does not
throw. A `recordAccess` that blocks returns at its `resumeAccess`; a call that waits for the
lock the iterator holds has not returned, and the other actions return no flag: these read as
false. -/
def returns (s : System α) : Action α → Bool
  | .add n now => s.iter.isNone && (s.c.add n now).1
  | .remove n => s.iter.isNone && (s.c.remove n).1
  | .replace o n => s.iter.isNone && (s.c.replace o n).1
  | .recordAccess n mode now statNow free =>
    s.iter.isNone && free && (s.c.recordAccess n mode now statNow true).1
  | .resumeAccess n now statNow =>
    decide (s.iter.isNone ∧ (n, now) ∈ s.waiting) && (s.c.recordAccessUnderLock n now statNow).1
  | .restore configObject now => s.iter.isNone &&
      (Container.restore (s.c.saveState configObject) s.c.nodes s.c.accessFreq.index now).toBool
  | _ => false

/-- A `recordAccess` step: the whole call, when the lock is free; a failed `try_lock`; or the
part before the lock, with the call blocked. -/
theorem step_recordAccess_cases (n : α) (mode : AccessMode) (now statNow : Time) (free : Bool) :
    (s.iter = none ∧ free = true ∧
      s.step (.recordAccess n mode now statNow free) =
        { s with c := (s.c.recordAccess n mode now statNow true).2 } ∧
      s.returns (.recordAccess n mode now statNow free) =
        (s.c.recordAccess n mode now statNow true).1) ∨
    (s.c.config.tryLockUpdate = true ∧
      s.step (.recordAccess n mode now statNow free) =
        { s with c := (s.c.recordAccess n mode now statNow false).2 } ∧
      s.returns (.recordAccess n mode now statNow free) = false) ∨
    (s.c.config.tryLockUpdate = false ∧ s.returns (.recordAccess n mode now statNow free) = false ∧
      (s.c.recordAccessPrefix n mode now = none ∧ s.step (.recordAccess n mode now statNow free) = s ∨
        s.c.isInMMContainer n = true ∧ s.step (.recordAccess n mode now statNow free) =
          { s with c := s.c.markAccessed n, waiting := (n, now) :: s.waiting })) := by
  cases hf : (s.iter.isNone && free)
  · have hr : s.returns (.recordAccess n mode now statNow free) = false := by simp [returns, hf]
    cases hl : s.c.config.tryLockUpdate
    · refine .inr (.inr ⟨rfl, hr, ?_⟩)
      rcases hp : s.c.recordAccessPrefix n mode now with _ | c'
      · exact .inl ⟨rfl, by simp [step, hf, hl, hp]⟩
      · obtain ⟨hin, rfl⟩ := Container.recordAccessPrefix_eq_some hp
        exact .inr ⟨hin, by simp [step, hf, hl, hp]⟩
    · exact .inr (.inl ⟨rfl, by simp [step, hf, hl], hr⟩)
  · have h' := hf
    simp only [Bool.and_eq_true, Option.isNone_iff_eq_none] at h'
    exact .inl ⟨h'.1, h'.2, by simp [step, hf], by simp [returns, hf]⟩

/-- A `resumeAccess` step runs the rest of a blocked call once the lock is free, and is
otherwise no call at all. -/
theorem step_resumeAccess_cases (n : α) (now statNow : Time) :
    (s.iter = none ∧ (n, now) ∈ s.waiting ∧
      s.step (.resumeAccess n now statNow) =
        { s with c := (s.c.recordAccessUnderLock n now statNow).2,
                 waiting := s.waiting.erase (n, now) } ∧
      s.returns (.resumeAccess n now statNow) = (s.c.recordAccessUnderLock n now statNow).1) ∨
    (¬(s.iter = none ∧ (n, now) ∈ s.waiting) ∧ s.step (.resumeAccess n now statNow) = s ∧
      s.returns (.resumeAccess n now statNow) = false) := by
  by_cases h : s.iter.isNone ∧ (n, now) ∈ s.waiting
  · exact .inl ⟨Option.isNone_iff_eq_none.mp h.1, h.2, by simp [step, h], by simp [returns, h]⟩
  · exact .inr ⟨by simpa using h, by simp only [step, if_neg h],
      by simp only [returns, decide_eq_false h, Bool.false_and]⟩

@[simp] theorem iter_step_recordAccess (n : α) (mode : AccessMode) (now statNow : Time)
    (free : Bool) : (s.step (.recordAccess n mode now statNow free)).iter = s.iter := by
  rcases step_recordAccess_cases (s := s) n mode now statNow free with
    ⟨-, -, hs, -⟩ | ⟨-, hs, -⟩ | ⟨-, -, ⟨-, hs⟩ | ⟨-, hs⟩⟩ <;> rw [hs]

@[simp] theorem iter_step_resumeAccess (n : α) (now statNow : Time) :
    (s.step (.resumeAccess n now statNow)).iter = s.iter := by
  rcases step_resumeAccess_cases (s := s) n now statNow with ⟨-, -, hs, -⟩ | ⟨-, hs, -⟩ <;> rw [hs]

/-- Without a live iterator, only `getEvictionIterator` and `resetToBegin` make one, at the
tails of the lists they leave alone. -/
theorem step_of_iter_eq_none (hi : s.iter = none) (a : Action α) :
    (s.step a).iter = none ∨ s.step a = { s with iter := some (LockedIterator.begin s.c) } := by
  cases a with
  | recordAccess => exact .inl (by rw [iter_step_recordAccess, hi])
  | resumeAccess => exact .inl (by rw [iter_step_resumeAccess, hi])
  | restore => simp only [step, hi]; split <;> simp [hi]
  | getEvictionIterator => exact .inr (by simp only [step, hi])
  | resetToBegin => exact .inr (by simp only [step, hi])
  | _ => exact .inl (by simp [step, withLock, withIter, hi])

/-- While an iterator holds the lock, no call returns true, and an action is a call that waits
and changes nothing, a `recordAccess` that stops after setting the accessed bit (failing its
`try_lock`, or blocking in `lock()`), or an operation on the iterator. -/
theorem step_of_iter_eq_some {it : LockedIterator α} (hi : s.iter = some it) (a : Action α) :
    s.returns a = false ∧
    (s.step a = s ∨
      (∃ n mode now statNow ok, a = .recordAccess n mode now statNow ok ∧
        s.c.isInMMContainer n = true ∧ s.c.config.tryLockUpdate = true ∧
        s.step a = { s with c := s.c.markAccessed n }) ∨
      (∃ n mode now statNow ok, a = .recordAccess n mode now statNow ok ∧
        s.c.isInMMContainer n = true ∧ s.c.config.tryLockUpdate = false ∧
        s.step a = { s with c := s.c.markAccessed n, waiting := (n, now) :: s.waiting }) ∨
      (a = .next ∧ s.step a = { s with iter := some (it.next s.c) }) ∨
      (a = .removeIt ∧
        s.step a = { s with c := (s.c.removeIt it).1, iter := some (s.c.removeIt it).2 }) ∨
      (a = .reset ∧ s.step a = { s with iter := some it.reset }) ∨
      (a = .resetToBegin ∧ s.step a = { s with iter := some (LockedIterator.begin s.c) }) ∨
      (a = .destroy ∧ s.step a = { s with iter := none })) := by
  cases a with
  | recordAccess n mode now statNow ok =>
    rcases step_recordAccess_cases (s := s) n mode now statNow ok with
      ⟨hn, -⟩ | ⟨hl, hs, hr⟩ | ⟨hl, hr, ⟨-, hs⟩ | ⟨hin, hs⟩⟩
    · simp [hi] at hn
    · refine ⟨hr, ?_⟩
      rcases Container.recordAccess_cases s.c n mode now statNow false with
        he | ⟨-, -, hin, he⟩ | ⟨-, hok, -⟩
      · exact .inl (by rw [hs, he])
      · exact .inr (.inl ⟨n, mode, now, statNow, ok, rfl, hin, hl, by rw [hs, he]⟩)
      · exact absurd (hok hl) Bool.false_ne_true
    · exact ⟨hr, .inl hs⟩
    · exact ⟨hr, .inr (.inr (.inl ⟨n, mode, now, statNow, ok, rfl, hin, hl, hs⟩))⟩
  | resumeAccess n now statNow =>
    rcases step_resumeAccess_cases (s := s) n now statNow with ⟨hn, -⟩ | ⟨-, hs, hr⟩
    · simp [hi] at hn
    · exact ⟨hr, .inl hs⟩
  | next => exact ⟨rfl, .inr (.inr (.inr (.inl ⟨rfl, by simp [step, withIter, hi]⟩)))⟩
  | removeIt => exact ⟨rfl, .inr (.inr (.inr (.inr (.inl ⟨rfl, by simp [step, withIter, hi]⟩))))⟩
  | reset => exact ⟨rfl, .inr (.inr (.inr (.inr (.inr (.inl ⟨rfl, by simp [step, withIter, hi]⟩)))))⟩
  | resetToBegin =>
    exact ⟨rfl, .inr (.inr (.inr (.inr (.inr (.inr (.inl ⟨rfl, by
      simp [step, hi, LockedIterator.resetToBegin]⟩))))))⟩
  | destroy => exact ⟨rfl, .inr (.inr (.inr (.inr (.inr (.inr (.inr ⟨rfl, rfl⟩))))))⟩
  | _ => exact ⟨by simp [returns, hi], .inl (by simp [step, withLock, hi])⟩

/-- What one action does to the container: nothing, with no flag returned; the locked body of
an `add`, `remove` or `replace` that returns true; only the accessed bit, on a failed
`try_lock` or before a call blocks; the whole of a `recordAccess` that returns true; the rest of
a blocked call, which reconfigures and, when the entry is still in the container, runs the
locked body and returns true; a `setConfig`; a restart that succeeds; or the removal of the
entry the iterator is at. -/
theorem step_cases (s : System α) (a : Action α) :
    ((s.step a).c = s.c ∧ s.returns a = false) ∨
    (∃ n now, a = .add n now ∧ s.returns a = true ∧ s.iter = none ∧
      s.c.isInMMContainer n = false ∧ (s.step a).c = s.c.addLocked n now) ∨
    (∃ n, a = .remove n ∧ s.returns a = true ∧ s.c.isInMMContainer n = true ∧
      (s.step a).c = s.c.removeLocked n) ∨
    (∃ o n, a = .replace o n ∧ s.returns a = true ∧ (s.c.replace o n).1 = true ∧
      (s.step a).c = s.c.replaceLocked o n) ∨
    (∃ n mode now statNow ok, a = .recordAccess n mode now statNow ok ∧ s.returns a = false ∧
      (s.step a).c = s.c.markAccessed n) ∨
    (∃ n mode now statNow ok, a = .recordAccess n mode now statNow ok ∧ s.returns a = true ∧
      s.c.isInMMContainer n = true ∧
      (s.step a).c = ((s.c.markAccessed n).reconfigureLocked now statNow).recordAccessLocked n now) ∨
    (∃ n now statNow, a = .resumeAccess n now statNow ∧ s.returns a = true ∧
      s.c.isInMMContainer n = true ∧
      (s.step a).c = (s.c.reconfigureLocked now statNow).recordAccessLocked n now) ∨
    (∃ n now statNow, a = .resumeAccess n now statNow ∧ s.returns a = false ∧
      s.c.isInMMContainer n = false ∧ (s.step a).c = s.c.reconfigureLocked now statNow) ∨
    (∃ config now, a = .setConfig config now ∧ s.returns a = false ∧
      (s.step a).c = s.c.setConfig config now) ∨
    (∃ o now, a = .restore o now ∧ s.returns a = true ∧
      Container.restore (s.c.saveState o) s.c.nodes s.c.accessFreq.index now = .ok (s.step a).c) ∨
    (∃ it m, a = .removeIt ∧ s.returns a = false ∧ s.iter = some it ∧ it.get s.c = some m ∧
      (s.step a).c = s.c.removeLocked m) := by
  cases a with
  | recordAccess n mode now statNow ok =>
    rcases step_recordAccess_cases (s := s) n mode now statNow ok with
      ⟨-, -, hs, hr⟩ | ⟨hl, hs, hr⟩ | ⟨-, hr, ⟨-, hs⟩ | ⟨-, hs⟩⟩
    · rcases Container.recordAccess_cases s.c n mode now statNow true with
        he | ⟨-, hok, -⟩ | ⟨hin, -, he⟩
      · exact .inl ⟨by rw [hs, he], by rw [hr, he]⟩
      · exact absurd hok (by decide)
      · exact .inr (.inr (.inr (.inr (.inr (.inl ⟨n, mode, now, statNow, ok, rfl,
          by rw [hr, he], hin, by rw [hs, he]⟩)))))
    · rcases Container.recordAccess_cases s.c n mode now statNow false with
        he | ⟨-, -, -, he⟩ | ⟨-, hok, -⟩
      · exact .inl ⟨by rw [hs, he], hr⟩
      · exact .inr (.inr (.inr (.inr (.inl ⟨n, mode, now, statNow, ok, rfl, hr, by rw [hs, he]⟩))))
      · exact absurd (hok hl) Bool.false_ne_true
    · exact .inl ⟨by rw [hs], hr⟩
    · exact .inr (.inr (.inr (.inr (.inl ⟨n, mode, now, statNow, ok, rfl, hr, by rw [hs]⟩))))
  | resumeAccess n now statNow =>
    rcases step_resumeAccess_cases (s := s) n now statNow with ⟨-, -, hs, hr⟩ | ⟨-, hs, hr⟩
    · rcases s.c.recordAccessUnderLock_cases n now statNow with ⟨hin, he⟩ | ⟨hin, he⟩
      · exact .inr (.inr (.inr (.inr (.inr (.inr (.inr (.inl ⟨n, now, statNow, rfl,
          by rw [hr, he], hin, by rw [hs, he]⟩)))))))
      · exact .inr (.inr (.inr (.inr (.inr (.inr (.inl ⟨n, now, statNow, rfl,
          by rw [hr, he], hin, by rw [hs, he]⟩))))))
    · exact .inl ⟨by rw [hs], hr⟩
  | add n now =>
    rcases hi : s.iter with _ | it
    · cases hin : s.c.isInMMContainer n
      · exact .inr (.inl ⟨n, now, rfl, by simp [returns, hi, Container.add, hin], rfl, hin,
          by simp [step, withLock, hi, Container.add, hin]⟩)
      · exact .inl ⟨by simp [step, withLock, hi, Container.add, hin],
          by simp [returns, hi, Container.add, hin]⟩
    · exact .inl ⟨by simp [step, withLock, hi], by simp [returns, hi]⟩
  | remove n =>
    rcases hi : s.iter with _ | it
    · cases hin : s.c.isInMMContainer n
      · exact .inl ⟨by simp [step, withLock, hi, Container.remove, hin],
          by simp [returns, hi, Container.remove, hin]⟩
      · exact .inr (.inr (.inl ⟨n, rfl, by simp [returns, hi, Container.remove, hin], hin,
          by simp [step, withLock, hi, Container.remove, hin]⟩))
    · exact .inl ⟨by simp [step, withLock, hi], by simp [returns, hi]⟩
  | replace o n =>
    rcases hi : s.iter with _ | it
    · have he : (s.step (.replace o n)).c = (s.c.replace o n).2 := by simp [step, withLock, hi]
      cases hr : (s.c.replace o n).1
      · exact .inl ⟨he.trans (Container.replace_of_fst_eq_false hr), by simp [returns, hi, hr]⟩
      · exact .inr (.inr (.inr (.inl ⟨o, n, rfl, by simp [returns, hi, hr], hr,
          he.trans (Container.replace_of_fst hr)⟩)))
    · exact .inl ⟨by simp [step, withLock, hi], by simp [returns, hi]⟩
  | setConfig config now =>
    rcases hi : s.iter with _ | it
    · exact .inr (.inr (.inr (.inr (.inr (.inr (.inr (.inr (.inl ⟨config, now, rfl, rfl,
        by simp [step, withLock, hi]⟩))))))))
    · exact .inl ⟨by simp [step, withLock, hi], rfl⟩
  | restore o now =>
    rcases hi : s.iter with _ | it
    · cases hr : Container.restore (s.c.saveState o) s.c.nodes s.c.accessFreq.index now
      · exact .inl ⟨by simp [step, hi, hr], by simp [returns, hi, hr, Except.toBool]⟩
      · exact .inr (.inr (.inr (.inr (.inr (.inr (.inr (.inr (.inr (.inl ⟨o, now, rfl,
          by simp [returns, hi, hr, Except.toBool], by simp [step, hi, hr]⟩)))))))))
    · exact .inl ⟨by simp [step, hi], by simp [returns, hi]⟩
  | removeIt =>
    rcases hi : s.iter with _ | it
    · exact .inl ⟨by simp [step, withIter, hi], rfl⟩
    · cases hg : it.get s.c with
      | none => exact .inl ⟨by simp [step, withIter, hi, Container.removeIt, hg], rfl⟩
      | some m =>
        exact .inr (.inr (.inr (.inr (.inr (.inr (.inr (.inr (.inr (.inr ⟨it, m, rfl, rfl, rfl,
          hg, by simp [step, withIter, hi, Container.removeIt, hg]⟩)))))))))
  | getEvictionIterator => exact .inl ⟨by simp only [step]; split <;> rfl, rfl⟩
  | next => exact .inl ⟨by simp only [step, withIter]; split <;> rfl, rfl⟩
  | reset => exact .inl ⟨by simp only [step, withIter]; split <;> rfl, rfl⟩
  | resetToBegin => exact .inl ⟨by simp only [step]; split <;> rfl, rfl⟩
  | destroy => exact .inl ⟨rfl, rfl⟩

/-- A `recordAccess` step that returns true is a call of `recordAccess` that returns true. -/
theorem step_recordAccess_of_returns {n : α} {mode : AccessMode} {now statNow : Time} {ok : Bool}
    (h : s.returns (.recordAccess n mode now statNow ok) = true) :
    (s.c.recordAccess n mode now statNow true).1 = true ∧
      (s.step (.recordAccess n mode now statNow ok)).c = (s.c.recordAccess n mode now statNow true).2 := by
  rcases step_recordAccess_cases (s := s) n mode now statNow ok with
    ⟨-, -, hs, hr⟩ | ⟨-, -, hr⟩ | ⟨-, hr, -⟩
  · exact ⟨hr ▸ h, by rw [hs]⟩
  all_goals simp [hr] at h

/-- A run: the actions one after another. -/
def run (s : System α) (acts : List (Action α)) : System α := acts.foldl step s

/-- The system `Container(Config, PtrCompressor)` builds at the clock reading `now`. -/
def init (config : Config) (nodes : α → Node) (index : Nat → Nat → Nat → Nat) (now : Time) :
    System α :=
  ⟨Container.new config nodes index now, none, []⟩

end System

/-- Entries whose flags are all clear. -/
def FlagsClear {α : Type} (nodes : α → Node) : Prop := ∀ n f, (nodes n).flags f = false

/-- The states of every run from a newly built container over entries with clear flags. -/
inductive Reachable {α : Type} [DecidableEq α] : System α → Prop
  | init (config : Config) (nodes : α → Node) (index : Nat → Nat → Nat → Nat) (now : Time) :
      FlagsClear nodes → Reachable (System.init config nodes index now)
  | step {s : System α} (a : Action α) : Reachable s → Reachable (s.step a)

theorem Reachable.run {α : Type} [DecidableEq α] {s : System α} (hs : Reachable s)
    (acts : List (Action α)) : Reachable (s.run acts) := by
  induction acts generalizing s with
  | nil => exact hs
  | cons a acts ih => exact ih (hs.step a)

end WTinyLFU
