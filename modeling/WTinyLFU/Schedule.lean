import Mathlib.Data.List.Chain
import WTinyLFU.System

/-! The reconfiguration schedule. `reconfigureLocked` runs its body once the clock reaches
`nextReconfigureTime_`, and then sets that time `mmReconfigureIntervalSecs` on, as a 32-bit
sum; the constructors, a restore and `setConfig` set it `I` seconds after their own clock
reading, or to "never" when `I = 0`. Only a `recordAccess` that takes the lock calls it, at
the clock reading the call made on entry, also when it blocked for the lock. So
between two installs the body runs at clock readings each at least `I` after the one before,
up to the wrap of that sum, and never when `I = 0` while the clock stays below "never". -/
namespace WTinyLFU

/-- Whether the action installs a config: a `setConfig` or a restart. -/
def Action.installs {α : Type} : Action α → Bool
  | .setConfig _ _ => true
  | .restore _ _ => true
  | _ => false

/-- The clock reading of a `recordAccess`, or of a blocked one that resumes: the only calls
that reconfigure. -/
def Action.accessClock {α : Type} : Action α → Option Time
  | .recordAccess _ _ now _ _ => some now
  | .resumeAccess _ now _ => some now
  | _ => none

namespace Container
variable {α : Type} {c : Container α} {t₀ : Time}

/-- `nextReconfigureTime_` is what an install of the current config at `t₀` sets. -/
def InstalledAt (c : Container α) (t₀ : Time) : Prop :=
  c.nextReconfigureTime = firstReconfigureTime c.config t₀

theorem installedAt_new (config : Config) (nodes : α → Node) (index : Nat → Nat → Nat → Nat)
    (now : Time) : (new config nodes index now).InstalledAt now := by
  simp [InstalledAt, new, fresh]

theorem installedAt_setConfig (config : Config) (now : Time) :
    (c.setConfig config now).InstalledAt now := rfl

theorem installedAt_restore {object : MMTinyLFUObject α} {nodes : α → Node}
    {index : Nat → Nat → Nat → Nat} {now : Time} (h : restore object nodes index now = .ok c) :
    c.InstalledAt now := by
  obtain ⟨config, -, rfl⟩ := restore_eq_ok h
  simp [InstalledAt, fresh]

/-- After an install at `t₀`, the body runs no earlier than `t₀ + I` in 32 bits. -/
theorem InstalledAt.gap (h : c.InstalledAt t₀) :
    (t₀.toNat + c.config.mmReconfigureIntervalSecs) % 2 ^ 32 ≤ c.nextReconfigureTime.toNat := by
  rw [h, firstReconfigureTime]
  split_ifs with hI
  · have := UInt32.toNat_lt_size t₀
    simp [hI, timeMax]
    omega
  · exact le_rfl

/-- `reconfigureLocked` at the clock reading `t`: the body is not due and the schedule stays,
or it is due and sets the next time to `t + I` in 32 bits. -/
theorem reconfigureLocked_schedule (c : Container α) (t u : Time) :
    (¬c.nextReconfigureTime ≤ t ∧
        (c.reconfigureLocked t u).nextReconfigureTime = c.nextReconfigureTime) ∨
      (c.nextReconfigureTime ≤ t ∧ (c.reconfigureLocked t u).nextReconfigureTime.toNat =
        (t.toNat + c.config.mmReconfigureIntervalSecs) % 2 ^ 32) := by
  rw [reconfigureLocked_nextReconfigureTime]
  by_cases hlt : t < c.nextReconfigureTime
  · exact .inl ⟨UInt32.not_le.mpr hlt, by simp [hlt]⟩
  · exact .inr ⟨UInt32.not_lt.mp hlt, by simp [hlt]; rfl⟩

end Container

namespace System
variable {α : Type} [DecidableEq α] {s : System α} {a : Action α} {t : Time}

open Container

omit [DecidableEq α] in
theorem installedAt_init (config : Config) (nodes : α → Node)
    (index : Nat → Nat → Nat → Nat) (now : Time) :
    (init config nodes index now).c.InstalledAt now :=
  installedAt_new config nodes index now

/-- The clock reading at which the action runs the body of `reconfigureLocked`, if it does: a
`recordAccess` that returns true, which is one that takes the lock at once, or a blocked one
that resumes with the lock, at a clock reading not below `nextReconfigureTime_`. -/
def reconfiguresAt (s : System α) : Action α → Option Time
  | .recordAccess n mode now statNow ok =>
    if s.returns (.recordAccess n mode now statNow ok) = true ∧ s.c.nextReconfigureTime ≤ now then
      some now
    else none
  | .resumeAccess n now _ =>
    if s.iter.isNone ∧ (n, now) ∈ s.waiting ∧ s.c.nextReconfigureTime ≤ now then some now
    else none
  | _ => none

/-- The clock readings at which the body of `reconfigureLocked` runs along a run from `s`. -/
def reconfigureLog (s : System α) : List (Action α) → List Time
  | [] => []
  | a :: acts => (s.reconfiguresAt a).toList ++ (s.step a).reconfigureLog acts

theorem reconfiguresAt_of_returns (h : s.returns a = false) (hr : ∀ n t u, a ≠ .resumeAccess n t u) :
    s.reconfiguresAt a = none := by
  cases a <;> simp_all [reconfiguresAt]

/-- A resumed access calls `reconfigureLocked` at the clock reading its call made. -/
theorem reconfiguresAt_resumeAccess {n : α} {now statNow : Time} (hi : s.iter = none)
    (hw : (n, now) ∈ s.waiting) :
    s.reconfiguresAt (.resumeAccess n now statNow) =
      if s.c.nextReconfigureTime ≤ now then some now else none := by
  simp [reconfiguresAt, hi, hw]

theorem accessClock_of_reconfiguresAt (h : s.reconfiguresAt a = some t) :
    a.accessClock = some t := by
  cases a with
  | recordAccess n mode now statNow ok =>
    simp only [reconfiguresAt] at h
    split_ifs at h
    cases h
    rfl
  | resumeAccess n now statNow =>
    simp only [reconfiguresAt] at h
    split_ifs at h
    cases h
    rfl
  | _ => simp [reconfiguresAt] at h


/-- What one action other than an install does to the schedule: it keeps the config, and it
either leaves `nextReconfigureTime_` alone or runs the body at its clock reading `t`, not
below `nextReconfigureTime_`, and sets that time to `t + I` in 32 bits. -/
theorem schedule_step (ha : a.installs = false) :
    (s.step a).c.config = s.c.config ∧
      ((s.reconfiguresAt a = none ∧
          (s.step a).c.nextReconfigureTime = s.c.nextReconfigureTime) ∨
        ∃ t, s.reconfiguresAt a = some t ∧ s.c.nextReconfigureTime ≤ t ∧
          (s.step a).c.nextReconfigureTime.toNat =
            (t.toNat + s.c.config.mmReconfigureIntervalSecs) % 2 ^ 32) := by
  by_cases hres : ∃ n now statNow, a = .resumeAccess n now statNow
  · obtain ⟨n, now, statNow, rfl⟩ := hres
    rcases step_resumeAccess_cases (s := s) n now statNow with ⟨hi, hw, hs, -⟩ | ⟨hna, hs, -⟩
    · -- a blocked access resumed calls `reconfigureLocked` at the clock reading of its call
      rw [hs, reconfiguresAt_resumeAccess hi hw, recordAccessUnderLock_nextReconfigureTime]
      refine ⟨by simp, ?_⟩
      rcases reconfigureLocked_schedule s.c now statNow with ⟨hlt, he⟩ | ⟨hle, he⟩
      · exact .inl ⟨by simp [hlt], he⟩
      · exact .inr ⟨now, by simp [hle], hle, he⟩
    · exact ⟨by rw [hs], .inl ⟨by simp_all [reconfiguresAt], by rw [hs]⟩⟩
  push_neg at hres
  rcases step_cases s a with ⟨he, hr⟩ | ⟨n, now, rfl, -, -, -, he⟩ | ⟨n, rfl, -, -, he⟩ |
    ⟨o, n, rfl, -, -, he⟩ | ⟨n, mode, now, statNow, ok, rfl, hr, he⟩ |
    ⟨n, mode, now, statNow, ok, rfl, hr, -, he⟩ | ⟨n, now, statNow, rfl, -⟩ |
    ⟨n, now, statNow, rfl, -⟩ | ⟨config, now, rfl, -, -⟩ | ⟨o, now, rfl, -, -⟩ |
    ⟨it, m, rfl, hr, -, -, he⟩ <;> (try rw [he])
  · exact ⟨rfl, .inl ⟨reconfiguresAt_of_returns hr hres, rfl⟩⟩
  · exact ⟨by simp, .inl ⟨rfl, by simp⟩⟩
  · exact ⟨by simp, .inl ⟨rfl, by simp⟩⟩
  · exact ⟨by simp, .inl ⟨rfl, by simp⟩⟩
  · exact ⟨rfl, .inl ⟨reconfiguresAt_of_returns hr hres, rfl⟩⟩
  · -- the locked body of an access calls `reconfigureLocked` at its clock reading
    refine ⟨by simp [markAccessed], ?_⟩
    rw [recordAccessLocked_nextReconfigureTime]
    rcases reconfigureLocked_schedule (s.c.markAccessed n) now statNow with ⟨hlt, he⟩ | ⟨hle, he⟩
    · exact .inl ⟨by simp_all [reconfiguresAt, markAccessed], he⟩
    · simp only [markAccessed, setFlag_nextReconfigureTime, setFlag_config] at hle he
      exact .inr ⟨now, by simp [reconfiguresAt, hr, hle], hle, he⟩
  · exact absurd rfl (hres n now statNow)
  · exact absurd rfl (hres n now statNow)
  · cases ha
  · cases ha
  · exact ⟨by simp, .inl ⟨reconfiguresAt_of_returns hr hres, by simp⟩⟩

/-- The body runs only at the clock reading of a `recordAccess`. -/
theorem mem_reconfigureLog {acts : List (Action α)} (h : t ∈ s.reconfigureLog acts) :
    ∃ a ∈ acts, a.accessClock = some t := by
  induction acts generalizing s with
  | nil => cases h
  | cons a acts ih =>
    rcases List.mem_append.mp h with h | h
    · exact ⟨a, List.mem_cons_self _ _, accessClock_of_reconfiguresAt (Option.mem_toList.mp h)⟩
    · obtain ⟨b, hb, hc⟩ := ih h
      exact ⟨b, List.mem_cons_of_mem _ hb, hc⟩

/-- Along a run with no install, each run of the body comes at least `I` after the one before
it in 32 bits, and the first at least `I` after `last`, when `nextReconfigureTime_` is. -/
theorem reconfigureLog_chain {acts : List (Action α)} (ha : ∀ a ∈ acts, a.installs = false)
    (last : Time)
    (hl : (last.toNat + s.c.config.mmReconfigureIntervalSecs) % 2 ^ 32 ≤
      s.c.nextReconfigureTime.toNat) :
    (last :: s.reconfigureLog acts).Chain'
      fun a b => (a.toNat + s.c.config.mmReconfigureIntervalSecs) % 2 ^ 32 ≤ b.toNat := by
  induction acts generalizing s last with
  | nil => exact List.chain'_singleton last
  | cons a acts ih =>
    have hrest : ∀ b ∈ acts, b.installs = false := fun b hb => ha b (List.mem_cons_of_mem _ hb)
    obtain ⟨hcfg, ⟨hnone, hnext⟩ | ⟨t, hsome, hle, hnext⟩⟩ :=
      schedule_step (s := s) (ha a (List.mem_cons_self _ _))
    · -- the body does not run: the schedule is unchanged
      have hc := ih hrest last (by rwa [hcfg, hnext])
      rw [hcfg] at hc
      simpa [reconfigureLog, hnone] using hc
    · -- the body runs at `t`
      have hc := ih hrest t (by rw [hcfg, hnext])
      rw [hcfg] at hc
      simp only [reconfigureLog, hsome, Option.toList_some, List.singleton_append]
      exact List.chain'_cons.mpr ⟨hl.trans (UInt32.le_def.mp hle), hc⟩

end System

open System

/-- Along every run with no `setConfig` or restart from a state whose config, with interval
`I`, was installed at the clock reading `t₀`: when `I = 0` and every access comes at a clock
reading below "never", `2^32 − 1`, the body of `reconfigureLocked` never runs; and when `t₀`
and every clock reading of an access are below `2^32 − I`, the body runs at clock readings
each at least `I` after `t₀` and after every earlier one. -/
theorem reconfigure_body_schedule {α : Type} [DecidableEq α] {s : System α} {t₀ : Time}
    (h₀ : s.c.InstalledAt t₀) (acts : List (Action α)) (ha : ∀ a ∈ acts, a.installs = false) :
    (s.c.config.mmReconfigureIntervalSecs = 0 →
      (∀ a ∈ acts, ∀ t ∈ a.accessClock, t < timeMax) → s.reconfigureLog acts = []) ∧
    (t₀.toNat + s.c.config.mmReconfigureIntervalSecs < 2 ^ 32 →
      (∀ a ∈ acts, ∀ t ∈ a.accessClock, t.toNat + s.c.config.mmReconfigureIntervalSecs < 2 ^ 32) →
      (t₀ :: s.reconfigureLog acts).Pairwise
        fun a b => a.toNat + s.c.config.mmReconfigureIntervalSecs ≤ b.toNat) := by
  refine ⟨fun hI hclk => ?_, fun ht₀ hclk => ?_⟩
  · -- "never" stays installed, and no access reaches it
    have hnever : s.c.nextReconfigureTime = timeMax := by
      rw [h₀, Container.firstReconfigureTime, if_pos hI]
    match hlog : s.reconfigureLog acts with
    | [] => rfl
    | t :: _ =>
      have hc := reconfigureLog_chain (s := s) ha timeMax
        (by rw [hI, hnever, Nat.add_zero]; exact Nat.mod_le _ _)
      rw [hlog, hI] at hc
      obtain ⟨a, hmem, hat⟩ := mem_reconfigureLog (hlog ▸ List.mem_cons_self t _)
      have hlt : t.toNat < timeMax.toNat := hclk a hmem t hat
      have hge := (List.chain'_cons.mp hc).1
      simp [timeMax] at hlt hge
      omega
  · -- with no wrap, the 32-bit chain is the chain over the integers, and `I ≥ 0` makes it
    -- pairwise
    have hwrap : ∀ x ∈ t₀ :: s.reconfigureLog acts,
        x.toNat + s.c.config.mmReconfigureIntervalSecs < 2 ^ 32 := by
      intro x hx
      rcases List.mem_cons.mp hx with rfl | hx
      · exact ht₀
      · obtain ⟨a, hmem, hat⟩ := mem_reconfigureLog hx
        exact hclk a hmem x hat
    have hc := List.Chain'.iff_mem.mp (reconfigureLog_chain ha t₀ h₀.gap)
    have : IsTrans Time fun a b => a.toNat + s.c.config.mmReconfigureIntervalSecs ≤ b.toNat :=
      ⟨fun _ _ _ h₁ h₂ => by omega⟩
    exact List.chain'_iff_pairwise.mp
      (hc.imp fun x _ ⟨hx, _, h⟩ => by rwa [Nat.mod_eq_of_lt (hwrap x hx)] at h)

/-- Under an interval of ten seconds installed at 0, an access at 5 finds the body not yet due,
and an access at 70 runs it. -/
theorem reconfigure_body_schedule_every_ten :
    let s := System.init ({ mmReconfigureIntervalSecs := 10 } : Config)
      (fun n : Nat => ⟨fun _ => false, 0, n⟩) (fun _ _ h => h) 0
    let acts : List (Action Nat) :=
      [.add 0 0, .recordAccess 0 .read 5 5 true, .recordAccess 0 .read 70 70 true]
    s.c.InstalledAt 0 ∧ (∀ a ∈ acts, a.installs = false) ∧ (0 : Time).toNat + 10 < 2 ^ 32 ∧
      (∀ a ∈ acts, ∀ t ∈ a.accessClock, t.toNat + 10 < 2 ^ 32) ∧ s.reconfigureLog acts = [70] ∧
      (0 :: s.reconfigureLog acts).Pairwise fun a b => a.toNat + 10 ≤ b.toNat :=
  have h₀ := installedAt_init _ (fun n : Nat => ⟨fun _ => false, 0, n⟩) (fun _ _ h => h) 0
  ⟨h₀, by decide, by decide, by decide, by decide,
    (reconfigure_body_schedule h₀ _ (by decide)).2 (by decide) (by decide)⟩

/-- Under the largest interval a config carries, `2^32 − 1`, installed at the clock reading 1,
the sum wraps to 0: the first access, at 1, runs the body at once, less than the interval
after the install. -/
theorem reconfigure_interval_wrap :
    let config : Config := { mmReconfigureIntervalSecs := 4294967295 }
    let s := System.init config (fun n : Nat => ⟨fun _ => false, 0, n⟩) (fun _ _ h => h) 1
    let acts : List (Action Nat) := [.add 0 1, .recordAccess 0 .read 1 1 true]
    config.Accepted ∧ s.c.InstalledAt 1 ∧ (∀ a ∈ acts, a.installs = false) ∧
      (∀ a ∈ acts, ∀ t ∈ a.accessClock, t < timeMax) ∧ s.reconfigureLog acts = [1] ∧
      (1 : Time).toNat < (1 : Time).toNat + config.mmReconfigureIntervalSecs :=
  ⟨⟨60, 0, false, true, false, 32, 1, 4294967295, true, 3, 80, rfl⟩,
    installedAt_init _ _ _ _, by decide, by decide, by decide, by decide⟩

end WTinyLFU
