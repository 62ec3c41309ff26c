import Mathlib.Algebra.Group.Nat.Basic
import Mathlib.Data.BitVec

/-! `MMWTinyLFU::Config`, its validation and its persisted form. -/
namespace WTinyLFU

/-- `MMWTinyLFU::Config` with the defaults of its member initialisers.
`mmReconfigureIntervalSecs` is the count of its `std::chrono::seconds`. -/
structure Config where
  defaultLruRefreshTime : UInt32 := 60
  lruRefreshTime : UInt32 := defaultLruRefreshTime
  lruRefreshRatio : Float := 0
  updateOnWrite : Bool := false
  updateOnRead : Bool := true
  tryLockUpdate : Bool := false
  windowToCacheSizeRatio : Nat := 32
  tinySizePercent : Nat := 1
  mmReconfigureIntervalSecs : Nat := 0
  newcomerWinsOnTie : Bool := true
  protectionFreq_ : Nat := 3
  protectionSegmentSizePct : Nat := 80

namespace Config

/-- `Config::checkConfig`: the Tiny share and the window ratio must be in range. -/
def checkConfig (c : Config) : Except String Unit :=
  if c.tinySizePercent < 1 ∨ c.tinySizePercent > 50 then
    .error ("Invalid tiny cache size " ++ toString c.tinySizePercent ++ ". Tiny cache size " ++
      "must be between 1% and 50% of total cache size ")
  else if c.windowToCacheSizeRatio < 2 ∨ c.windowToCacheSizeRatio > 128 then
    .error ("Invalid window to cache size ratio " ++ toString c.windowToCacheSizeRatio ++
      ". The ratio " ++ "must be between 2 and 128")
  else .ok ()

/-- An `int` initialising a `size_t` member: its 32 bits sign-extended to 64. -/
def sizeOfInt (x : BitVec 32) : Nat := (x.signExtend 64).toNat

/-- Converting back to `int` gives the `int` that was converted. -/
theorem ofNat_sizeOfInt (x : BitVec 32) : BitVec.ofNat 32 (sizeOfInt x) = x := by
  rw [sizeOfInt, BitVec.ofNat_toNat]
  ext i
  simp [BitVec.getLsbD_signExtend]
  omega

/-- The eleven-argument `Config` constructor. Its two `int` arguments are 32-bit two's
complement values, which initialise `size_t` members. -/
def make (time : UInt32) (ratio : Float) (updateOnW updateOnR tryLockU : Bool)
    (windowToCacheSize tinySizePct : Nat) (mmReconfigureInterval : UInt32)
    (newcomerWinsOnTie : Bool) (protectionFreq_ protectionSegmentSizePct : BitVec 32) :
    Except String Config := do
  let c : Config :=
    { defaultLruRefreshTime := time, lruRefreshRatio := ratio, updateOnWrite := updateOnW,
      updateOnRead := updateOnR, tryLockUpdate := tryLockU,
      windowToCacheSizeRatio := windowToCacheSize, tinySizePercent := tinySizePct,
      mmReconfigureIntervalSecs := mmReconfigureInterval.toNat, newcomerWinsOnTie,
      protectionFreq_ := sizeOfInt protectionFreq_,
      protectionSegmentSizePct := sizeOfInt protectionSegmentSizePct }
  c.checkConfig
  return c

/-- The nine-argument `Config` constructor: the last two members keep their initialisers. -/
def make9 (time : UInt32) (ratio : Float) (updateOnW updateOnR tryLockU : Bool)
    (windowToCacheSize tinySizePct : Nat) (mmReconfigureInterval : UInt32)
    (newcomerWinsOnTie : Bool) : Except String Config :=
  make time ratio updateOnW updateOnR tryLockU windowToCacheSize tinySizePct mmReconfigureInterval
    newcomerWinsOnTie 3 80

/-- The eight-argument `Config` constructor: the last three members keep their initialisers. -/
def make8 (time : UInt32) (ratio : Float) (updateOnW updateOnR tryLockU : Bool)
    (windowToCacheSize tinySizePct : Nat) (mmReconfigureInterval : UInt32) :
    Except String Config :=
  make time ratio updateOnW updateOnR tryLockU windowToCacheSize tinySizePct mmReconfigureInterval
    true 3 80

/-- The seven-argument `Config` constructor, with no reconfigure interval. -/
def make7 (time : UInt32) (ratio : Float) (updateOnW updateOnR tryLockU : Bool)
    (windowToCacheSize tinySizePct : Nat) : Except String Config :=
  make8 time ratio updateOnW updateOnR tryLockU windowToCacheSize tinySizePct 0

/-- The six-argument `Config` constructor, with a refresh ratio of zero. -/
def make6 (time : UInt32) (updateOnW updateOnR tryLockU : Bool)
    (windowToCacheSize tinySizePct : Nat) : Except String Config :=
  make7 time 0 updateOnW updateOnR tryLockU windowToCacheSize tinySizePct

/-- The five-argument `Config` constructor, with no `try_lock`. -/
def make5 (time : UInt32) (updateOnW updateOnR : Bool) (windowToCacheSize tinySizePct : Nat) :
    Except String Config :=
  make6 time updateOnW updateOnR false windowToCacheSize tinySizePct

/-- The three-argument `Config` constructor: a window of 16 times the cache and a Tiny share of
1%. -/
def make3 (time : UInt32) (updateOnW updateOnR : Bool) : Except String Config :=
  make6 time updateOnW updateOnR false 16 1

/-- A config that a constructor returns. -/
def Accepted (c : Config) : Prop :=
  ∃ time ratio w r l win tiny ivl tie freq pct, make time ratio w r l win tiny ivl tie freq pct = .ok c

theorem checkConfig_eq_ok {c : Config} :
    c.checkConfig = .ok () ↔
      1 ≤ c.tinySizePercent ∧ c.tinySizePercent ≤ 50 ∧
        2 ≤ c.windowToCacheSizeRatio ∧ c.windowToCacheSizeRatio ≤ 128 := by
  unfold checkConfig
  split
  · simp only [reduceCtorEq, false_iff]; omega
  · split
    · simp only [reduceCtorEq, false_iff]; omega
    · simp only [true_iff]; omega

/-- What a constructor returns: the refresh times agree, the interval fits 32 bits, the
check passes and the two members set from an `int` convert back to the same `int`. -/
theorem Accepted.spec {c : Config} (h : c.Accepted) :
    c.lruRefreshTime = c.defaultLruRefreshTime ∧ c.mmReconfigureIntervalSecs < 2 ^ 32 ∧
      c.checkConfig = .ok () ∧ sizeOfInt (BitVec.ofNat 32 c.protectionFreq_) = c.protectionFreq_ ∧
      sizeOfInt (BitVec.ofNat 32 c.protectionSegmentSizePct) = c.protectionSegmentSizePct := by
  obtain ⟨time, ratio, w, r, l, win, tiny, ivl, tie, freq, pct, h⟩ := h
  simp only [make, bind, Except.bind] at h
  split at h
  · cases h
  · rename_i hc
    simp only [pure, Except.pure, Except.ok.injEq] at h
    subst h
    exact ⟨rfl, ivl.toNat_lt_size, hc, by rw [ofNat_sizeOfInt], by rw [ofNat_sizeOfInt]⟩

/-- The default constructor runs no check, and its members pass it. -/
theorem default_checkConfig : ({} : Config).checkConfig = .ok () := rfl

/-- The three-argument constructor never throws: its window ratio is 16, not the member
initialiser's 32, and every other member keeps its initialiser. -/
theorem make3_eq (time : UInt32) (updateOnW updateOnR : Bool) :
    make3 time updateOnW updateOnR = .ok
      { defaultLruRefreshTime := time, updateOnWrite := updateOnW, updateOnRead := updateOnR,
        windowToCacheSizeRatio := 16 } := rfl

end Config

/-- Modelled from the spec: `serialization::MMTinyLFUConfig` (its IDL is not under `src/`),
with the fields `Config(SerializationConfigType)` reads. -/
structure MMTinyLFUConfig where
  lruRefreshTime : UInt32
  lruRefreshRatio : Float
  updateOnWrite : Bool
  updateOnRead : Bool
  tryLockUpdate : Bool
  windowToCacheSizeRatio : Nat
  tinySizePercent : Nat
  mmReconfigureIntervalSecs : Nat
  newcomerWinsOnTie : Bool
  protectionFreq_ : Nat
  protectionSegmentSizePct : Nat

/-- `Config(SerializationConfigType)`, through the eleven-argument constructor. -/
def Config.ofSerialized (s : MMTinyLFUConfig) : Except String Config :=
  Config.make s.lruRefreshTime s.lruRefreshRatio s.updateOnWrite s.updateOnRead s.tryLockUpdate
    s.windowToCacheSizeRatio s.tinySizePercent (UInt32.ofNat s.mmReconfigureIntervalSecs)
    s.newcomerWinsOnTie (BitVec.ofNat 32 s.protectionFreq_) (BitVec.ofNat 32 s.protectionSegmentSizePct)

end WTinyLFU
