import WTinyLFU.Container

/-! `LockedIterator`: the eviction cursor. It walks Tiny, Probation and Main from their
tails, and picks between the Tiny and Probation candidates with `admitToProbation`. -/
namespace WTinyLFU

/-- `LockedIterator`: one reverse `DList` iterator per segment, each at an entry or
exhausted. The lock it holds is modelled by `System.iter`. -/
structure LockedIterator (α : Type) where
  tIter : Option α
  pIter : Option α
  mIter : Option α

namespace LockedIterator
variable {α : Type}

/-- The sub-iterator over the list of a segment. -/
def sub (it : LockedIterator α) : LruType → Option α
  | .tiny => it.tIter
  | .probation => it.pIter
  | .main => it.mIter

/-- Move the sub-iterator of a segment. -/
def setSub (it : LockedIterator α) (t : LruType) (v : Option α) : LockedIterator α :=
  match t with
  | .tiny => { it with tIter := v }
  | .probation => { it with pIter := v }
  | .main => { it with mIter := v }

@[simp] theorem sub_setSub_self (it : LockedIterator α) (t : LruType) (v : Option α) :
    (it.setSub t v).sub t = v := by cases t <;> rfl

theorem sub_setSub_of_ne (it : LockedIterator α) {t t' : LruType} (v : Option α)
    (h : t' ≠ t) : (it.setSub t v).sub t' = it.sub t' := by
  cases t <;> cases t' <;> first | rfl | exact absurd rfl h

/-- The constructor: each sub-iterator at `rbegin()`, the tail of its list. -/
def begin (c : Container α) : LockedIterator α :=
  ⟨DList.getTail c.lru.tiny, DList.getTail c.lru.probation, DList.getTail c.lru.main⟩

/-- `getIter`: which sub-iterator is current. -/
def getIter (c : Container α) (it : LockedIterator α) : LruType :=
  if it.pIter.isNone && it.mIter.isNone then .tiny
  else if it.pIter.isNone && it.tIter.isNone then .main
  else if it.tIter.isNone && it.mIter.isNone then .probation
  else if it.pIter.isNone then .tiny
  else if it.tIter.isNone then .probation
  else match it.tIter, it.pIter with
    | some t, some p => if !c.admitToProbation t p then .tiny else .probation
    | _, _ => .tiny

/-- `operator bool`. -/
def live (it : LockedIterator α) : Bool := it.tIter.isSome || it.pIter.isSome || it.mIter.isSome

/-- `get()`, the entry of the current sub-iterator. -/
def get (c : Container α) (it : LockedIterator α) : Option α := it.sub (it.getIter c)

/-- `reset()`: every sub-iterator exhausted. -/
def reset (_ : LockedIterator α) : LockedIterator α := ⟨none, none, none⟩

/-- `resetToBegin()`: every sub-iterator back at its tail. -/
def resetToBegin (c : Container α) (_ : LockedIterator α) : LockedIterator α := begin c

/-- The iterator converts to true exactly when it is at an entry. -/
theorem get_isSome (c : Container α) (it : LockedIterator α) :
    (it.get c).isSome = it.live := by
  rcases it with ⟨_ | t, _ | p, _ | m⟩ <;> simp [get, getIter, live, sub] <;>
    cases c.admitToProbation t p <;> rfl

variable [DecidableEq α]

/-- `operator++`: the current sub-iterator steps to the previous entry of its list. -/
def next (c : Container α) (it : LockedIterator α) : LockedIterator α :=
  let t := it.getIter c
  it.setSub t ((it.sub t).bind (DList.getPrev (c.lru.getList t)))

end LockedIterator

namespace Container
variable {α : Type} [DecidableEq α]

/-- `remove(LockedIterator&)`: step the iterator, then unlink the entry it was at. -/
def removeIt (c : Container α) (it : LockedIterator α) : Container α × LockedIterator α :=
  match it.get c with
  | some node => (c.removeLocked node, it.next c)
  | none => (c, it)

end Container

/-- An operation on a live eviction iterator: `operator++` or `remove(it)`. -/
inductive IterOp where
  | next
  | removeIt
  deriving DecidableEq, Repr

namespace LockedIterator
variable {α : Type} [DecidableEq α]

/-- One operation on the iterator and the container. -/
def walkStep (c : Container α) (it : LockedIterator α) : IterOp → Container α × LockedIterator α
  | .next => (c, it.next c)
  | .removeIt => c.removeIt it

/-- A walk: `while (it)`, the next operation is applied, and the trace records what `get()`
returned before it. -/
def walk (c : Container α) (it : LockedIterator α) :
    List IterOp → Container α × LockedIterator α × List (Option α × IterOp)
  | [] => (c, it, [])
  | op :: ops =>
    if it.live then
      let s := walkStep c it op
      let r := walk s.1 s.2 ops
      (r.1, r.2.1, (it.get c, op) :: r.2.2)
    else (c, it, [])

end LockedIterator
end WTinyLFU
