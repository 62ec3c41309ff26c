import Mathlib.Data.List.Nodup
import Mathlib.Data.List.Perm.Basic

/-! Intrusive lists and the three-way `MultiDList`. A list is held head first; the hooks
of the entries are the order of the list. -/
namespace WTinyLFU

/-- `MMWTinyLFU::LruType`, the index of a segment in the `MultiDList`. -/
inductive LruType where
  | main
  | probation
  | tiny
  deriving DecidableEq, Repr

namespace DList
variable {α : Type}

/-! Modelled from the spec: `DList` (`cachelib/allocator/datastruct/DList.h` is not under
`src/`): link at head or tail, remove, move to head, replace in place, tail, and the
reverse iterator's step to the previous entry. -/

/-- Modelled from the spec: `DList::linkAtHead`. -/
def linkAtHead (n : α) (l : List α) : List α := n :: l

/-- Modelled from the spec: `DList::linkAtTail`. -/
def linkAtTail (n : α) (l : List α) : List α := l ++ [n]

/-- Modelled from the spec: `DList::getTail`. -/
def getTail (l : List α) : Option α := l.getLast?

@[simp] theorem mem_linkAtHead {n x : α} {l : List α} :
    x ∈ linkAtHead n l ↔ x = n ∨ x ∈ l := List.mem_cons

@[simp] theorem mem_linkAtTail {n x : α} {l : List α} :
    x ∈ linkAtTail n l ↔ x ∈ l ∨ x = n := by simp [linkAtTail]

@[simp] theorem length_linkAtHead (n : α) (l : List α) :
    (linkAtHead n l).length = l.length + 1 := rfl

@[simp] theorem length_linkAtTail (n : α) (l : List α) :
    (linkAtTail n l).length = l.length + 1 := by simp [linkAtTail]

theorem getTail_eq_some {l : List α} {t : α} :
    getTail l = some t ↔ ∃ l', l = l' ++ [t] := List.getLast?_eq_some_iff

@[simp] theorem getTail_append_singleton (l : List α) (t : α) : getTail (l ++ [t]) = some t :=
  List.getLast?_concat l

theorem getTail_eq_none {l : List α} : getTail l = none ↔ l = [] := List.getLast?_eq_none_iff

/-- The tail of a list with an entry linked at its head: the old tail, or the entry itself. -/
theorem getTail_linkAtHead (n : α) (l : List α) :
    getTail (linkAtHead n l) = some ((getTail l).getD n) := List.getLast?_cons

@[simp] theorem filter_linkAtHead {p : α → Bool} {x : α} (hx : p x = false) (l : List α) :
    (linkAtHead x l).filter p = l.filter p := by
  simp [linkAtHead, List.filter_cons, hx]

@[simp] theorem filter_linkAtTail {p : α → Bool} {x : α} (hx : p x = false) (l : List α) :
    (linkAtTail x l).filter p = l.filter p := by
  simp [linkAtTail, List.filter_append, hx]

variable [DecidableEq α]

/-- Modelled from the spec: `DList::remove`, unlinking the entry. -/
def remove (n : α) (l : List α) : List α := l.erase n

/-- Modelled from the spec: `DList::moveToHead`, unlink and link at head. -/
def moveToHead (n : α) (l : List α) : List α := n :: l.erase n

/-- Modelled from the spec: `DList::replace`, the new entry takes the old one's place. -/
def replace (oldNode newNode : α) (l : List α) : List α := l.replace oldNode newNode

/-- Unlinking an entry that the filter drops leaves the filtered list as it was. -/
@[simp] theorem filter_remove {p : α → Bool} {x : α} (hx : p x = false) (l : List α) :
    (remove x l).filter p = l.filter p := by
  induction l with
  | nil => rfl
  | cons y l ih =>
    by_cases hy : y = x
    · subst hy; simp [remove, hx]
    · simp only [remove] at ih
      simp [remove, List.erase_cons, hy, List.filter_cons, ih]

@[simp] theorem filter_moveToHead {p : α → Bool} {x : α} (hx : p x = false) (l : List α) :
    (moveToHead x l).filter p = l.filter p := by
  rw [moveToHead, List.filter_cons, hx, if_neg Bool.false_ne_true, ← filter_remove hx l]
  rfl

/-- Modelled from the spec: `DList::getPrev`, the step of an iterator from the tail. -/
def getPrev : List α → α → Option α
  | a :: b :: l, x => if b = x then some a else getPrev (b :: l) x
  | _, _ => none

theorem getPrev_cons_cons (a b x : α) (l : List α) :
    getPrev (a :: b :: l) x = if b = x then some a else getPrev (b :: l) x := rfl

theorem mem_remove {n x : α} {l : List α} (h : l.Nodup) :
    x ∈ remove n l ↔ x ≠ n ∧ x ∈ l := h.mem_erase_iff

theorem length_remove {n : α} {l : List α} (h : n ∈ l) :
    (remove n l).length + 1 = l.length := by
  have := List.length_pos_of_mem h
  simp only [remove, List.length_erase_of_mem h]; omega

theorem moveToHead_perm {n : α} {l : List α} (h : n ∈ l) : (moveToHead n l).Perm l :=
  (List.perm_cons_erase h).symm

/-- Replacing an entry is removing it and linking the new one, up to order. -/
theorem replace_perm {o n : α} {l : List α} (h : o ∈ l) :
    (replace o n l).Perm (n :: l.erase o) := by
  induction l with
  | nil => simp at h
  | cons a l ih =>
    by_cases ha : o = a
    · subst ha; simp [replace]
    · have hl : o ∈ l := (List.mem_cons.mp h).resolve_left ha
      have e : (a :: l).replace o n = a :: l.replace o n := by
        rw [List.replace_cons, beq_false_of_ne ha]
      rw [replace, e, List.erase_cons_tail (by simpa using Ne.symm ha)]
      exact ((ih hl).cons a).trans (List.Perm.swap n a _)

theorem replace_of_not_mem {o n : α} {l : List α} (h : o ∉ l) : replace o n l = l :=
  List.replace_of_not_mem (by simpa using h)

theorem mem_replace {o n x : α} {l : List α} (hl : l.Nodup) :
    x ∈ replace o n l ↔ (x = n ∧ o ∈ l) ∨ (x ≠ o ∧ x ∈ l) := by
  by_cases ho : o ∈ l
  · rw [(replace_perm ho).mem_iff, List.mem_cons, hl.mem_erase_iff]; simp [ho]
  · rw [replace_of_not_mem ho]
    exact ⟨fun hx => .inr ⟨fun e => ho (e ▸ hx), hx⟩, by rintro (⟨-, h⟩ | ⟨-, h⟩) <;> tauto⟩

/-- An entry that does not recur after the head has no predecessor. -/
theorem getPrev_cons_of_not_mem {a x : α} {l : List α} (h : x ∉ l) :
    getPrev (a :: l) x = none := by
  induction l generalizing a with
  | nil => rfl
  | cons b l ih =>
    have hb : b ≠ x := fun e => h (e ▸ List.mem_cons_self b l)
    rw [getPrev_cons_cons, if_neg hb]
    exact ih (fun hx => h (List.mem_cons_of_mem b hx))

/-- The iterator steps to an entry of the list. -/
theorem getPrev_mem : ∀ {l : List α} {x y : α}, getPrev l x = some y → y ∈ l
  | a :: b :: l, x, y, h => by
    rw [getPrev_cons_cons] at h
    split_ifs at h
    · cases h; exact List.mem_cons_self a _
    · exact List.mem_cons_of_mem a (getPrev_mem h)
  | [], _, _, h | [_], _, _, h => by simp [getPrev] at h

/-- In a list without duplicates the iterator never steps to the entry it is at. -/
theorem getPrev_ne : ∀ {l : List α} {x y : α}, l.Nodup → getPrev l x = some y → y ≠ x
  | a :: b :: l, x, y, hl, h => by
    rw [getPrev_cons_cons] at h
    split_ifs at h with hb
    · cases h; subst hb
      exact fun e => (List.nodup_cons.mp hl).1 (e ▸ List.mem_cons_self _ _)
    · exact getPrev_ne (List.nodup_cons.mp hl).2 h
  | [], _, _, _, h | [_], _, _, _, h => by simp [getPrev] at h

/-- The predecessor of an entry occurring once is the last entry linked before it. -/
theorem getPrev_append_cons {x : α} {l r : List α} (hl : x ∉ l) (hr : x ∉ r) :
    getPrev (l ++ x :: r) x = l.getLast? := by
  induction l with
  | nil => exact getPrev_cons_of_not_mem hr
  | cons a l ih =>
    cases l with
    | nil => simp [getPrev]
    | cons b l =>
      have hb : b ≠ x := fun e => hl (e ▸ by simp)
      rw [List.cons_append, List.cons_append, getPrev_cons_cons, if_neg hb,
        ← List.cons_append, ih (fun hx => hl (List.mem_cons_of_mem a hx))]
      simp

end DList

/-- `MultiDList`, one intrusive list per `LruType`. -/
structure MultiDList (α : Type) where
  main : List α
  probation : List α
  tiny : List α

namespace MultiDList
variable {α : Type}

/-- `MultiDList::getList`. -/
def getList (m : MultiDList α) : LruType → List α
  | .main => m.main
  | .probation => m.probation
  | .tiny => m.tiny

/-- An operation of `DList` applied to one list of the `MultiDList`. -/
def modify (m : MultiDList α) (t : LruType) (f : List α → List α) : MultiDList α :=
  match t with
  | .main => { m with main := f m.main }
  | .probation => { m with probation := f m.probation }
  | .tiny => { m with tiny := f m.tiny }

/-- `MultiDList::size`, the number of entries of all lists. -/
def size (m : MultiDList α) : Nat := m.main.length + m.probation.length + m.tiny.length

/-- All entries, Tiny first, then Probation, then Main. -/
def all (m : MultiDList α) : List α := m.tiny ++ m.probation ++ m.main

@[simp] theorem getList_main (m : MultiDList α) : m.getList .main = m.main := rfl
@[simp] theorem getList_probation (m : MultiDList α) : m.getList .probation = m.probation := rfl
@[simp] theorem getList_tiny (m : MultiDList α) : m.getList .tiny = m.tiny := rfl

@[simp] theorem modify_main (m : MultiDList α) (f) :
    m.modify .main f = { m with main := f m.main } := rfl
@[simp] theorem modify_probation (m : MultiDList α) (f) :
    m.modify .probation f = { m with probation := f m.probation } := rfl
@[simp] theorem modify_tiny (m : MultiDList α) (f) :
    m.modify .tiny f = { m with tiny := f m.tiny } := rfl

theorem size_eq_length_all (m : MultiDList α) : m.size = m.all.length := by
  simp only [size, all, List.length_append]; omega

end MultiDList
end WTinyLFU
