import WTinyLFU.Invariant

/-! The refresh guard of `recordAccess`. An entry already marked accessed is moved again only
once the clock reaches its stamp plus `lruRefreshTime_`, and that sum is taken in 32 bits, as
`Time` and the refresh time are. A successful access marks the entry and stamps it with the
clock; nothing but an `add`, `remove` or `replace` of the entry, a blocked access of it that
resumes, or another successful access of it, changes either while it stays in the container. So
each successful access of an entry comes at least `lruRefreshTime_` after the one before it, up
to the wrap of that sum. -/
namespace WTinyLFU

/-- Whether the action is an `add`, a `remove` or a `replace` that names the entry, or resumes
a blocked access of it. -/
def Action.touches {α : Type} [DecidableEq α] (n : α) : Action α → Bool
  | .add m _ => m = n
  | .remove m => m = n
  | .replace o m => o = n || m = n
  | .resumeAccess m _ _ => m = n
  | _ => false

namespace Container
variable {α : Type} [DecidableEq α] {c c' : Container α} {n : α} {t : Time}

/-- While `n` is in the container, it is marked accessed and stamped `t`: what a successful
access at `t` leaves. -/
def Stamped (c : Container α) (n : α) (t : Time) : Prop :=
  c.isInMMContainer n = true → c.isAccessed n = true ∧ c.getUpdateTime n = t

omit [DecidableEq α] in
theorem Stamped.of_frame (h : c.Stamped n t) (hi : c'.isInMMContainer n = c.isInMMContainer n)
    (ha : c'.isAccessed n = c.isAccessed n) (hu : c'.getUpdateTime n = c.getUpdateTime n) :
    c'.Stamped n t := fun hin => by
  rw [ha, hu]
  exact h (hi ▸ hin)

omit [DecidableEq α] in
theorem stamped_of_not_mem (h : c.isInMMContainer n = false) : c.Stamped n t := fun hin => by
  simp [h] at hin

/-- A successful access at `now` marks the entry and stamps it with `now`. -/
theorem stamped_recordAccessLocked {statNow now : Time} :
    (((c.markAccessed n).reconfigureLocked now statNow).recordAccessLocked n now).Stamped n now :=
  fun _ => ⟨by rw [isAccessed, isFlagSet_recordAccessLocked (by decide)]; simp [markAccessed],
    by rw [getUpdateTime_recordAccessLocked, if_pos rfl]⟩

end Container

namespace System
variable {α : Type} [DecidableEq α] {s : System α} {a : Action α} {n : α} {t : Time}
  {q : Time × UInt32}

open Container

/-- The clock reading of the action and the `lruRefreshTime_` it reads before it reconfigures,
if the action is a call `recordAccess(n)` that returns true. -/
def accessOf (s : System α) (n : α) : Action α → Option (Time × UInt32)
  | .recordAccess m mode now statNow ok =>
    if m = n ∧ s.returns (.recordAccess m mode now statNow ok) = true then
      some (now, s.c.lruRefreshTime)
    else none
  | _ => none

/-- The successful accesses of `n` along a run from `s`, in order. -/
def accessLog (s : System α) (n : α) : List (Action α) → List (Time × UInt32)
  | [] => []
  | a :: acts => (s.accessOf n a).toList ++ (s.step a).accessLog n acts

/-- An action that neither names `n` in an `add`, `remove` or `replace` nor accesses it
successfully keeps its mark and its stamp while it stays in the container. -/
theorem stamped_step (hw : s.c.Wf) (ht : a.touches n = false) (hacc : s.accessOf n a = none)
    (h : s.c.Stamped n t) : (s.step a).c.Stamped n t := by
  rcases step_cases s a with ⟨he, -⟩ | ⟨m, now, rfl, -, -, -, he⟩ | ⟨m, rfl, -, -, he⟩ |
    ⟨o, m, rfl, -, hr, he⟩ | ⟨m, mode, now, statNow, ok, rfl, -, he⟩ |
    ⟨m, mode, now, statNow, ok, rfl, hr, -, he⟩ | ⟨m, now, statNow, rfl, -, -, he⟩ |
    ⟨m, now, statNow, rfl, -, -, he⟩ | ⟨config, now, rfl, -, he⟩ |
    ⟨o, now, rfl, -, hres⟩ | ⟨it, m, rfl, -, -, -, he⟩ <;> (try rw [he])
  · exact h
  · -- an `add` of another entry
    have hm : n ≠ m := Ne.symm (by simpa [Action.touches] using ht)
    exact h.of_frame (by simp [isInMMContainer_addLocked, hm])
      (isFlagSet_addLocked_of_ne hm (by decide) (by decide)) (by simp [getUpdateTime_addLocked, hm])
  · -- a `remove` of another entry
    have hm : n ≠ m := Ne.symm (by simpa [Action.touches] using ht)
    exact h.of_frame (by rw [isInMMContainer, isFlagSet_removeLocked hw.toSegWf, if_neg hm])
      (by rw [isAccessed, isFlagSet_removeLocked hw.toSegWf, if_neg hm]) (by simp)
  · -- a `replace` of two other entries
    obtain ⟨ho, hm⟩ : o ≠ n ∧ m ≠ n := by simpa [Action.touches] using ht
    obtain ⟨hmt, hmp, hino, hinm⟩ := replace_guard hr
    have hmo : m ≠ o := fun e => by simp [e, hino] at hinm
    have hf := isFlagSet_replaceLocked hw.toSegWf hmo hmt hmp n
    exact h.of_frame (by simp [hf, ho.symm, hm.symm]) (by simp [hf, ho.symm, hm.symm])
      (by rw [getUpdateTime_replaceLocked, if_neg hm.symm])
  · -- a failed `try_lock`: only the accessed bit of its entry
    by_cases hm : m = n
    · subst hm
      exact fun hin => ⟨by simp [markAccessed],
        by simpa [markAccessed] using (h (by simpa [markAccessed] using hin)).2⟩
    · exact h.of_frame (by simp [markAccessed]) (by simp [markAccessed, Ne.symm hm])
        (by simp [markAccessed])
  · -- the locked body of an access of another entry
    have hm : m ≠ n := fun e => by subst e; simp [accessOf, hr] at hacc
    exact h.of_frame (by simp [isFlagSet_recordAccessLocked, markAccessed])
      (by simp [isFlagSet_recordAccessLocked, markAccessed, Ne.symm hm])
      (by simp [getUpdateTime_recordAccessLocked, markAccessed, Ne.symm hm])
  · -- a blocked access of another entry, resumed
    have hm : m ≠ n := by simpa [Action.touches] using ht
    exact h.of_frame (by simp [isFlagSet_recordAccessLocked])
      (by simp [isFlagSet_recordAccessLocked]) (by simp [getUpdateTime_recordAccessLocked, Ne.symm hm])
  · exact h.of_frame (by simp) (by simp) (by simp)
  · exact h
  · -- a restart keeps the entries and their flags and stamps
    have hn := restore_nodes hres
    exact h.of_frame (by simp [isFlagSet, hn]) (by simp [isFlagSet, hn])
      (by simp [getUpdateTime, hn])
  · -- the iterator's entry is unlinked
    by_cases hm : n = m
    · exact stamped_of_not_mem (by rw [isInMMContainer, isFlagSet_removeLocked hw.toSegWf, if_pos hm])
    · exact h.of_frame (by rw [isInMMContainer, isFlagSet_removeLocked hw.toSegWf, if_neg hm])
        (by rw [isAccessed, isFlagSet_removeLocked hw.toSegWf, if_neg hm]) (by simp)

/-- A successful access of `n` comes at least the refresh time it reads after the stamp `n`
carries, in the 32-bit sum, and stamps `n` with its own clock reading. -/
theorem access_step (hacc : s.accessOf n a = some q) :
    (∀ t, s.c.Stamped n t → (t.toNat + q.2.toNat) % 2 ^ 32 ≤ q.1.toNat) ∧
      (s.step a).c.Stamped n q.1 := by
  cases a with
  | recordAccess m mode now statNow ok =>
    simp only [accessOf] at hacc
    split_ifs at hacc with hr
    obtain ⟨rfl, hr⟩ := hr
    cases hacc
    obtain ⟨h₁, he⟩ := step_recordAccess_of_returns hr
    obtain ⟨hin, he'⟩ := recordAccess_of_fst h₁
    refine ⟨fun t ht => ?_, by rw [he, he']; exact stamped_recordAccessLocked⟩
    obtain ⟨ha, hu⟩ := ht hin
    exact hu ▸ recordAccess_guard h₁ ha
  | _ => cases hacc

/-- Along a run with no `add`, `remove` or `replace` of `n` and no resumed access of it, each
successful access of `n` comes at least the refresh time it reads after the one before, in the
32-bit sum; `prev` is the last successful access before the run, if the state still carries its
stamp. -/
theorem accessLog_chain (hs : Reachable s) {acts : List (Action α)}
    (ht : ∀ a ∈ acts, a.touches n = false) (prev : Option (Time × UInt32))
    (hp : ∀ p ∈ prev, s.c.Stamped n p.1) :
    (prev.toList ++ s.accessLog n acts).Chain'
      fun p q => (p.1.toNat + q.2.toNat) % 2 ^ 32 ≤ q.1.toNat := by
  induction acts generalizing s prev with
  | nil => cases prev <;> simp [accessLog]
  | cons a acts ih =>
    have ht' := ht a (List.mem_cons_self _ _)
    have hrest : ∀ b ∈ acts, b.touches n = false := fun b hb => ht b (List.mem_cons_of_mem _ hb)
    cases hacc : s.accessOf n a with
    | none =>
      simpa [accessLog, hacc] using
        ih (hs.step a) hrest prev fun p hm => stamped_step hs.wf ht' hacc (hp p hm)
    | some q =>
      obtain ⟨hgap, hq⟩ := access_step hacc
      have hc := ih (hs.step a) hrest (some q) (by simpa using hq)
      cases prev with
      | none => simpa [accessLog, hacc] using hc
      | some p =>
        simp only [accessLog, hacc, Option.toList_some, List.singleton_append] at hc ⊢
        exact List.chain'_cons.mpr ⟨hgap p.1 (hp p rfl), hc⟩

end System

open System

/-- Along every run from a reachable state with no `add`, `remove` or `replace` of `n` and no
blocked access of `n` that resumes, any two successive calls `recordAccess(n)` that return true,
at the clock readings `a` and then `b`, satisfy `b ≥ (a + L) mod 2^32`, where `L` is the
`lruRefreshTime_` the second reads before it reconfigures. -/
theorem successive_accesses_refresh_gap {α : Type} [DecidableEq α] {s : System α}
    (hs : Reachable s) (n : α) (acts : List (Action α)) (ht : ∀ a ∈ acts, a.touches n = false) :
    (s.accessLog n acts).Chain' fun p q => (p.1.toNat + q.2.toNat) % 2 ^ 32 ≤ q.1.toNat := by
  simpa using accessLog_chain hs ht none (by simp)

/-- Two accesses of one entry under the default refresh time of 60 seconds. -/
theorem successive_accesses_refresh_gap_default :
    let s := (System.init ({} : Config) (fun n : Nat => ⟨fun _ => false, 0, n⟩) (fun _ _ h => h)
      0).run [.add 0 0]
    let acts : List (Action Nat) := [.recordAccess 0 .read 5 5 true, .recordAccess 0 .read 70 70 true]
    Reachable s ∧ (∀ a ∈ acts, a.touches 0 = false) ∧
      (s.accessLog 0 acts).Chain' fun p q => (p.1.toNat + q.2.toNat) % 2 ^ 32 ≤ q.1.toNat :=
  have hs := (Reachable.init _ _ _ _ fun _ _ => rfl).run _
  ⟨hs, by decide, successive_accesses_refresh_gap hs 0 _ (by decide)⟩

/-- Under a refresh time of `2^32 − 1`, the largest a config carries, the sum wraps: two
successive calls `recordAccess(0)` at the clock reading 1 both return true, with nothing
between them, and the second reads the refresh time `2^32 − 1`. -/
theorem successive_accesses_wrap :
    let config : Config := { defaultLruRefreshTime := 4294967295 }
    let s := (System.init config (fun n : Nat => ⟨fun _ => false, 0, n⟩) (fun _ _ h => h) 0).run
      [.add 0 0]
    config.Accepted ∧ Reachable s ∧
      s.accessLog 0 [.recordAccess 0 .read 1 1 true, .recordAccess 0 .read 1 1 true] =
        [(1, 4294967295), (1, 4294967295)] ∧
      (1 : Time).toNat < (1 : Time).toNat + (4294967295 : UInt32).toNat :=
  ⟨⟨4294967295, 0, false, true, false, 32, 1, 0, true, 3, 80, rfl⟩,
    (Reachable.init _ _ _ _ fun _ _ => rfl).run _, by decide, by decide⟩

end WTinyLFU
