import Mathlib.Logic.Function.Basic
import WTinyLFU.DList
import WTinyLFU.CountMinSketch
import WTinyLFU.Config

/-! `MMWTinyLFU::Container`: the three segments, the sketch and the per-entry flags, with
every operation of `MMWTinyLFU.h` as a function of the state. Entries are named by `α`;
their memory (flags, hook time, key) is the map `nodes`, which the allocator owns and which
survives a restart. -/
namespace WTinyLFU

/-- `DListHook<T>::Time`, seconds in 32 bits. -/
abbrev Time := UInt32

/-- `std::numeric_limits<Time>::max()`. -/
def timeMax : Time := 4294967295

/-- `AccessMode`. -/
inductive AccessMode where
  | read
  | write
  deriving DecidableEq, Repr

/-- The reference flags the container uses: `kMMFlag0` (Tiny), `kMMFlag1` (accessed),
`kMMFlag2` (Probation) and the in-container bit. -/
inductive RefFlag where
  | mmFlag0
  | mmFlag1
  | mmFlag2
  | inMMContainer
  deriving DecidableEq, Repr

/-- What the container reads of an entry: its flags, its hook's `updateTime`, and the hash
of its key (`folly::hasher<folly::StringPiece>` of `getKey()`). -/
structure Node where
  flags : RefFlag → Bool
  updateTime : Time
  keyHash : Nat

namespace Node

def isFlagSet (x : Node) (f : RefFlag) : Bool := x.flags f

@[simps] def setFlag (x : Node) (f : RefFlag) : Node := { x with flags := Function.update x.flags f true }

@[simps] def unSetFlag (x : Node) (f : RefFlag) : Node :=
  { x with flags := Function.update x.flags f false }

@[simp] theorem isFlagSet_setFlag (x : Node) (f g : RefFlag) :
    (x.setFlag f).isFlagSet g = if g = f then true else x.isFlagSet g := by
  by_cases h : g = f <;> simp [isFlagSet, h, Function.update_noteq]

@[simp] theorem isFlagSet_unSetFlag (x : Node) (f g : RefFlag) :
    (x.unSetFlag f).isFlagSet g = if g = f then false else x.isFlagSet g := by
  by_cases h : g = f <;> simp [isFlagSet, h, Function.update_noteq]

end Node

/-- `EvictionStatPerType`, the statistics of one queue (ages in seconds). -/
structure EvictionStatPerType where
  oldestElementAge : Nat
  size : Nat
  projectedAge : Nat

/-- `EvictionAgeStat`; the container fills only the warm queue. -/
structure EvictionAgeStat where
  warmQueueStat : EvictionStatPerType

/-- `MMWTinyLFU::Container`. -/
structure Container (α : Type) where
  lru : MultiDList α
  windowSize : Nat
  maxWindowSize : Nat
  capacity : Nat
  nextReconfigureTime : Time
  lruRefreshTime : UInt32
  config : Config
  accessFreq : CountMinSketch
  nodes : α → Node

/-- `serialization::MMTinyLFUObject`: the config and the three lists. Modelled from the spec:
the saved form of the lists (`MultiDList::saveState`, not under `src/`) is the lists
themselves, in their order. -/
structure MMTinyLFUObject (α : Type) where
  config : MMTinyLFUConfig
  lrus : MultiDList α

/-- The members that only the constructors, `maybeGrowAccessCountersLocked`,
`reconfigureLocked` and `setConfig` write. -/
structure Tuning where
  capacity : Nat
  maxWindowSize : Nat
  nextReconfigureTime : Time
  lruRefreshTime : UInt32
  config : Config

namespace Container
variable {α : Type} [DecidableEq α]

/-- `kDefaultCapacity`. -/
def kDefaultCapacity : Nat := 100
/-- `kHashCount`. -/
def kHashCount : Nat := 4
/-- `kErrorThreshold`. -/
def kErrorThreshold : Nat := 5
/-- `kLruRefreshTimeCap`. -/
def kLruRefreshTimeCap : UInt32 := 900

@[simps] def setNode (c : Container α) (n : α) (f : Node → Node) : Container α :=
  { c with nodes := Function.update c.nodes n (f (c.nodes n)) }

def setFlag (c : Container α) (n : α) (f : RefFlag) : Container α := c.setNode n (·.setFlag f)
def unSetFlag (c : Container α) (n : α) (f : RefFlag) : Container α :=
  c.setNode n (·.unSetFlag f)

/-- `node.isFlagSet<f>()`. -/
def isFlagSet (c : Container α) (n : α) (f : RefFlag) : Bool := (c.nodes n).isFlagSet f

@[reducible] def isTiny (c : Container α) (n : α) : Bool := c.isFlagSet n .mmFlag0
@[reducible] def isAccessed (c : Container α) (n : α) : Bool := c.isFlagSet n .mmFlag1
@[reducible] def isProbation (c : Container α) (n : α) : Bool := c.isFlagSet n .mmFlag2
/-- `node.isInMMContainer()`. -/
@[reducible] def isInMMContainer (c : Container α) (n : α) : Bool :=
  c.isFlagSet n .inMMContainer

def markTiny (c : Container α) (n : α) : Container α := c.setFlag n .mmFlag0
def unmarkTiny (c : Container α) (n : α) : Container α := c.unSetFlag n .mmFlag0
def markAccessed (c : Container α) (n : α) : Container α := c.setFlag n .mmFlag1
def unmarkAccessed (c : Container α) (n : α) : Container α := c.unSetFlag n .mmFlag1
def markProbation (c : Container α) (n : α) : Container α := c.setFlag n .mmFlag2
def unmarkProbation (c : Container α) (n : α) : Container α := c.unSetFlag n .mmFlag2
/-- `node.markInMMContainer()`. -/
def markInMMContainer (c : Container α) (n : α) : Container α := c.setFlag n .inMMContainer
/-- `node.unmarkInMMContainer()`. -/
def unmarkInMMContainer (c : Container α) (n : α) : Container α :=
  c.unSetFlag n .inMMContainer

def getUpdateTime (c : Container α) (n : α) : Time := (c.nodes n).updateTime
def setUpdateTime (c : Container α) (n : α) (time : Time) : Container α :=
  c.setNode n fun x => { x with updateTime := time }

@[simp] theorem isFlagSet_setFlag (c : Container α) (n m : α) (f g : RefFlag) :
    (c.setFlag n f).isFlagSet m g = if m = n ∧ g = f then true else c.isFlagSet m g := by
  by_cases h : m = n
  · subst h; by_cases hg : g = f <;> simp [isFlagSet, setFlag, hg]
  · simp [isFlagSet, setFlag, Function.update_noteq h, h]

@[simp] theorem isFlagSet_unSetFlag (c : Container α) (n m : α) (f g : RefFlag) :
    (c.unSetFlag n f).isFlagSet m g = if m = n ∧ g = f then false else c.isFlagSet m g := by
  by_cases h : m = n
  · subst h; by_cases hg : g = f <;> simp [isFlagSet, unSetFlag, hg]
  · simp [isFlagSet, unSetFlag, Function.update_noteq h, h]

@[simp] theorem isFlagSet_setUpdateTime (c : Container α) (n m : α) (t : Time) (g : RefFlag) :
    (c.setUpdateTime n t).isFlagSet m g = c.isFlagSet m g := by
  by_cases h : m = n
  · subst h; simp [isFlagSet, setUpdateTime, Node.isFlagSet]
  · simp [isFlagSet, setUpdateTime, Function.update_noteq h]

@[simp] theorem setFlag_lru (c : Container α) (n : α) (f : RefFlag) :
    (c.setFlag n f).lru = c.lru := rfl

@[simp] theorem unSetFlag_lru (c : Container α) (n : α) (f : RefFlag) :
    (c.unSetFlag n f).lru = c.lru := rfl

@[simp] theorem setUpdateTime_lru (c : Container α) (n : α) (t : Time) :
    (c.setUpdateTime n t).lru = c.lru := rfl

@[simp] theorem getUpdateTime_setFlag (c : Container α) (n m : α) (f : RefFlag) :
    (c.setFlag n f).getUpdateTime m = c.getUpdateTime m := by
  by_cases h : m = n
  · subst h; simp [getUpdateTime, setFlag]
  · simp [getUpdateTime, setFlag, Function.update_noteq h]

@[simp] theorem getUpdateTime_unSetFlag (c : Container α) (n m : α) (f : RefFlag) :
    (c.unSetFlag n f).getUpdateTime m = c.getUpdateTime m := by
  by_cases h : m = n
  · subst h; simp [getUpdateTime, unSetFlag]
  · simp [getUpdateTime, unSetFlag, Function.update_noteq h]

@[simp] theorem getUpdateTime_setUpdateTime (c : Container α) (n m : α) (t : Time) :
    (c.setUpdateTime n t).getUpdateTime m = if m = n then t else c.getUpdateTime m := by
  by_cases h : m = n
  · subst h; simp [getUpdateTime, setUpdateTime]
  · simp [getUpdateTime, setUpdateTime, Function.update_noteq h, h]

@[simp] theorem setUpdateTime_accessFreq (c : Container α) (n : α) (t : Time) :
    (c.setUpdateTime n t).accessFreq = c.accessFreq := rfl

@[simp] theorem setUpdateTime_windowSize (c : Container α) (n : α) (t : Time) :
    (c.setUpdateTime n t).windowSize = c.windowSize := rfl

@[simp] theorem setUpdateTime_maxWindowSize (c : Container α) (n : α) (t : Time) :
    (c.setUpdateTime n t).maxWindowSize = c.maxWindowSize := rfl

/-- Setting a bit that is set changes nothing. -/
theorem setFlag_of_isFlagSet {c : Container α} {n : α} {f : RefFlag} (h : c.isFlagSet n f = true) :
    c.setFlag n f = c := by
  have hx : (c.nodes n).setFlag f = c.nodes n := by
    cases hx : c.nodes n
    simp only [isFlagSet, Node.isFlagSet, hx] at h
    simp [Node.setFlag, Function.update_eq_self_iff, h]
  simp [setFlag, setNode, hx]

/-- `hashNode`, the hash of the entry's key. -/
def hashNode (c : Container α) (n : α) : Nat := (c.nodes n).keyHash

@[simp] theorem setFlag_accessFreq (c : Container α) (n : α) (f : RefFlag) :
    (c.setFlag n f).accessFreq = c.accessFreq := rfl

@[simp] theorem unSetFlag_accessFreq (c : Container α) (n : α) (f : RefFlag) :
    (c.unSetFlag n f).accessFreq = c.accessFreq := rfl

@[simp] theorem setFlag_config (c : Container α) (n : α) (f : RefFlag) :
    (c.setFlag n f).config = c.config := rfl

@[simp] theorem unSetFlag_config (c : Container α) (n : α) (f : RefFlag) :
    (c.unSetFlag n f).config = c.config := rfl

@[simp] theorem setFlag_nextReconfigureTime (c : Container α) (n : α) (f : RefFlag) :
    (c.setFlag n f).nextReconfigureTime = c.nextReconfigureTime := rfl

@[simp] theorem unSetFlag_nextReconfigureTime (c : Container α) (n : α) (f : RefFlag) :
    (c.unSetFlag n f).nextReconfigureTime = c.nextReconfigureTime := rfl

@[simp] theorem hashNode_setFlag (c : Container α) (n : α) (f : RefFlag) :
    (c.setFlag n f).hashNode = c.hashNode := by
  funext m; by_cases h : m = n <;> simp [hashNode, setFlag, Function.update_apply, h]

@[simp] theorem hashNode_unSetFlag (c : Container α) (n : α) (f : RefFlag) :
    (c.unSetFlag n f).hashNode = c.hashNode := by
  funext m; by_cases h : m = n <;> simp [hashNode, unSetFlag, Function.update_apply, h]

@[simp] theorem hashNode_setUpdateTime (c : Container α) (n : α) (t : Time) :
    (c.setUpdateTime n t).hashNode = c.hashNode := by
  funext m; by_cases h : m = n <;> simp [hashNode, setUpdateTime, Function.update_apply, h]

/-- `getLruType`: Tiny, else Probation, else Main. -/
def getLruType (c : Container α) (n : α) : LruType :=
  if c.isTiny n then .tiny else if c.isProbation n then .probation else .main

/-- `lru_.getList(t).op(...)` for a `DList` operation `op`. -/
@[simps] def modifyLru (c : Container α) (t : LruType) (f : List α → List α) : Container α :=
  { c with lru := c.lru.modify t f }

omit [DecidableEq α] in
@[simp] theorem isFlagSet_modifyLru (c : Container α) (t : LruType) (f : List α → List α)
    (m : α) (g : RefFlag) : (c.modifyLru t f).isFlagSet m g = c.isFlagSet m g := rfl

omit [DecidableEq α] in
@[simp] theorem hashNode_modifyLru (c : Container α) (t : LruType) (f : List α → List α) :
    (c.modifyLru t f).hashNode = c.hashNode := rfl

omit [DecidableEq α] in
@[simp] theorem getUpdateTime_modifyLru (c : Container α) (t : LruType) (f : List α → List α)
    (m : α) : (c.modifyLru t f).getUpdateTime m = c.getUpdateTime m := rfl

/-- The tuning members of the container. -/
def tuning (c : Container α) : Tuning :=
  ⟨c.capacity, c.maxWindowSize, c.nextReconfigureTime, c.lruRefreshTime, c.config⟩

@[simp] theorem tuning_setNode (c : Container α) (n : α) (f : Node → Node) :
    (c.setNode n f).tuning = c.tuning := rfl

omit [DecidableEq α] in
@[simp] theorem tuning_modifyLru (c : Container α) (t : LruType) (f : List α → List α) :
    (c.modifyLru t f).tuning = c.tuning := rfl

@[simp] theorem tuning_setFlag (c : Container α) (n : α) (f : RefFlag) :
    (c.setFlag n f).tuning = c.tuning := rfl

@[simp] theorem tuning_unSetFlag (c : Container α) (n : α) (f : RefFlag) :
    (c.unSetFlag n f).tuning = c.tuning := rfl

/-- `isEmpty()`. -/
def isEmpty (c : Container α) : Bool := c.lru.size == 0

/-- `size()`. -/
def size (c : Container α) : Nat := c.lru.size

/-- `getConfig()`. -/
def getConfig (c : Container α) : Config := c.config

section
omit [DecidableEq α]

/-- `admitToProbation`: the Tiny entry wins on a higher count, or on a tie when
`newcomerWinsOnTie`. -/
def admitToProbation (c : Container α) (tinyNode mainNode : α) : Bool :=
  let tinyFreq := c.accessFreq.getCount (c.hashNode tinyNode)
  let mainFreq := c.accessFreq.getCount (c.hashNode mainNode)
  if c.config.newcomerWinsOnTie then decide (mainFreq ≤ tinyFreq) else decide (mainFreq < tinyFreq)

/-- `updateFrequenciesLocked`: count the key; at the end of the window halve the window and
every counter. -/
def updateFrequenciesLocked (c : Container α) (node : α) : Container α :=
  let c := { c with accessFreq := c.accessFreq.increment (c.hashNode node),
                    windowSize := c.windowSize + 1 }
  if c.windowSize = c.maxWindowSize then
    { c with windowSize := c.windowSize / 2, accessFreq := c.accessFreq.decayCountsBy }
  else c

@[simp] theorem updateFrequenciesLocked_lru (c : Container α) (n : α) :
    (c.updateFrequenciesLocked n).lru = c.lru := by
  unfold updateFrequenciesLocked; dsimp only; split <;> rfl

@[simp] theorem updateFrequenciesLocked_nodes (c : Container α) (n : α) :
    (c.updateFrequenciesLocked n).nodes = c.nodes := by
  unfold updateFrequenciesLocked; dsimp only; split <;> rfl

@[simp] theorem isFlagSet_updateFrequenciesLocked (c : Container α) (n m : α) (f : RefFlag) :
    (c.updateFrequenciesLocked n).isFlagSet m f = c.isFlagSet m f := by simp [isFlagSet]

@[simp] theorem getUpdateTime_updateFrequenciesLocked (c : Container α) (n m : α) :
    (c.updateFrequenciesLocked n).getUpdateTime m = c.getUpdateTime m := by simp [getUpdateTime]

@[simp] theorem updateFrequenciesLocked_config (c : Container α) (n : α) :
    (c.updateFrequenciesLocked n).config = c.config := by
  unfold updateFrequenciesLocked; dsimp only; split <;> rfl

@[simp] theorem tuning_updateFrequenciesLocked (c : Container α) (n : α) :
    (c.updateFrequenciesLocked n).tuning = c.tuning := by
  unfold updateFrequenciesLocked; dsimp only; split <;> rfl

@[simp] theorem updateFrequenciesLocked_maxWindowSize (c : Container α) (n : α) :
    (c.updateFrequenciesLocked n).maxWindowSize = c.maxWindowSize :=
  congrArg Tuning.maxWindowSize (c.tuning_updateFrequenciesLocked n)

/-- One more call in the window, which is halved when it reaches `maxWindowSize_`. -/
theorem updateFrequenciesLocked_windowSize (c : Container α) (n : α) :
    (c.updateFrequenciesLocked n).windowSize =
      if c.windowSize + 1 = c.maxWindowSize then (c.windowSize + 1) / 2 else c.windowSize + 1 := by
  unfold updateFrequenciesLocked; dsimp only; split <;> rfl

/-- The key is counted, and `decayCountsBy` runs exactly when the window is halved. -/
theorem updateFrequenciesLocked_accessFreq (c : Container α) (n : α) :
    (c.updateFrequenciesLocked n).accessFreq =
      if c.windowSize + 1 = c.maxWindowSize then
        (c.accessFreq.increment (c.hashNode n)).decayCountsBy
      else c.accessFreq.increment (c.hashNode n) := by
  unfold updateFrequenciesLocked; dsimp only; split <;> rfl

/-- `maybeGrowAccessCountersLocked`: rebuild the sketch once the container holds at least
twice the capacity it was sized for. -/
def maybeGrowAccessCountersLocked (c : Container α) : Container α :=
  let capacity := c.lru.size
  if capacity < 2 * c.capacity then c
  else
    let capacity_ := max capacity kDefaultCapacity
    let maxWindowSize := capacity_ * c.config.windowToCacheSizeRatio
    let numCounters := Nat.nextPowerOfTwo
      (Float.toUInt64 (Float.exp 1 * maxWindowSize.toFloat / kErrorThreshold.toFloat)).toNat
    { c with capacity := capacity_, windowSize := 0, maxWindowSize,
             accessFreq := CountMinSketch.create numCounters kHashCount c.accessFreq.index }

@[simp] theorem maybeGrowAccessCountersLocked_lru (c : Container α) :
    c.maybeGrowAccessCountersLocked.lru = c.lru := by
  unfold maybeGrowAccessCountersLocked; dsimp only; split <;> rfl

@[simp] theorem maybeGrowAccessCountersLocked_nodes (c : Container α) :
    c.maybeGrowAccessCountersLocked.nodes = c.nodes := by
  unfold maybeGrowAccessCountersLocked; dsimp only; split <;> rfl

@[simp] theorem isFlagSet_maybeGrowAccessCountersLocked (c : Container α) (m : α) (f : RefFlag) :
    c.maybeGrowAccessCountersLocked.isFlagSet m f = c.isFlagSet m f := by simp [isFlagSet]

@[simp] theorem getUpdateTime_maybeGrowAccessCountersLocked (c : Container α) (m : α) :
    c.maybeGrowAccessCountersLocked.getUpdateTime m = c.getUpdateTime m := by
  simp [getUpdateTime]

@[simp] theorem maybeGrowAccessCountersLocked_config (c : Container α) :
    c.maybeGrowAccessCountersLocked.config = c.config := by
  unfold maybeGrowAccessCountersLocked; dsimp only; split <;> rfl

@[simp] theorem maybeGrowAccessCountersLocked_lruRefreshTime (c : Container α) :
    c.maybeGrowAccessCountersLocked.lruRefreshTime = c.lruRefreshTime := by
  unfold maybeGrowAccessCountersLocked; dsimp only; split <;> rfl

/-- The capacity the sketch is sized for: kept while the container holds less than twice it,
else the container's size, at least `kDefaultCapacity`. -/
theorem maybeGrowAccessCountersLocked_capacity (c : Container α) :
    c.maybeGrowAccessCountersLocked.capacity =
      if c.lru.size < 2 * c.capacity then c.capacity else max c.lru.size kDefaultCapacity := by
  unfold maybeGrowAccessCountersLocked; dsimp only; split <;> rfl

theorem maybeGrowAccessCountersLocked_maxWindowSize (c : Container α) :
    c.maybeGrowAccessCountersLocked.maxWindowSize =
      if c.lru.size < 2 * c.capacity then c.maxWindowSize
      else max c.lru.size kDefaultCapacity * c.config.windowToCacheSizeRatio := by
  unfold maybeGrowAccessCountersLocked; dsimp only; split <;> rfl

theorem maybeGrowAccessCountersLocked_windowSize (c : Container α) :
    c.maybeGrowAccessCountersLocked.windowSize =
      if c.lru.size < 2 * c.capacity then c.windowSize else 0 := by
  unfold maybeGrowAccessCountersLocked; dsimp only; split <;> rfl

@[simp] theorem maybeGrowAccessCountersLocked_nextReconfigureTime (c : Container α) :
    c.maybeGrowAccessCountersLocked.nextReconfigureTime = c.nextReconfigureTime := by
  unfold maybeGrowAccessCountersLocked; dsimp only; split <;> rfl

theorem maybeGrowAccessCountersLocked_accessFreq_of_lt {c : Container α}
    (h : c.lru.size < 2 * c.capacity) :
    c.maybeGrowAccessCountersLocked.accessFreq = c.accessFreq := by
  unfold maybeGrowAccessCountersLocked; dsimp only; rw [if_pos h]

/-- A sketch `maybeGrowAccessCountersLocked` builds has `kHashCount` rows. -/
theorem numHashes_maybeGrowAccessCountersLocked (c : Container α) :
    c.maybeGrowAccessCountersLocked.accessFreq.numHashes =
      if c.lru.size < 2 * c.capacity then c.accessFreq.numHashes else kHashCount := by
  unfold maybeGrowAccessCountersLocked; dsimp only; split <;> rfl

/-- `getEvictionAgeStatLocked` at the clock reading `curr`: ages of the Main tail and of the
entry `projectedLength` places before it. -/
def getEvictionAgeStatLocked (c : Container α) (projectedLength : Nat) (curr : Time) :
    EvictionAgeStat :=
  let list := c.lru.main.reverse
  let age := fun n => (curr - c.getUpdateTime n).toNat
  let oldestElementAge := match list.head? with
    | some n => age n
    | none => 0
  let projectedAge := match (list.drop projectedLength).head? with
    | some n => age n
    | none => oldestElementAge
  { warmQueueStat := { oldestElementAge, size := c.lru.main.length, projectedAge } }

/-- `getEvictionAgeStat`, the same under the lock. -/
def getEvictionAgeStat (c : Container α) (projectedLength : Nat) (curr : Time) :
    EvictionAgeStat :=
  c.getEvictionAgeStatLocked projectedLength curr

/-- `reconfigureLocked(currTime)`; `statNow` is the clock reading of the nested
`getEvictionAgeStatLocked`. -/
def reconfigureLocked (c : Container α) (currTime statNow : Time) : Container α :=
  if currTime < c.nextReconfigureTime then c
  else
    let nextReconfigureTime := UInt32.ofNat (currTime.toNat + c.config.mmReconfigureIntervalSecs)
    let c := { c with nextReconfigureTime }
    let stat := c.getEvictionAgeStatLocked 0 statNow
    let lruRefreshTime := min (max c.config.defaultLruRefreshTime
      (Float.toUInt32 (stat.warmQueueStat.oldestElementAge.toFloat * c.config.lruRefreshRatio)))
      kLruRefreshTimeCap
    { c with lruRefreshTime }

@[simp] theorem reconfigureLocked_lru (c : Container α) (t u : Time) :
    (c.reconfigureLocked t u).lru = c.lru := by
  unfold reconfigureLocked; dsimp only; split <;> rfl

@[simp] theorem reconfigureLocked_nodes (c : Container α) (t u : Time) :
    (c.reconfigureLocked t u).nodes = c.nodes := by
  unfold reconfigureLocked; dsimp only; split <;> rfl

@[simp] theorem isFlagSet_reconfigureLocked (c : Container α) (t u : Time) (m : α) (f : RefFlag) :
    (c.reconfigureLocked t u).isFlagSet m f = c.isFlagSet m f := by simp [isFlagSet]

@[simp] theorem getUpdateTime_reconfigureLocked (c : Container α) (t u : Time) (m : α) :
    (c.reconfigureLocked t u).getUpdateTime m = c.getUpdateTime m := by simp [getUpdateTime]

@[simp] theorem reconfigureLocked_accessFreq (c : Container α) (t u : Time) :
    (c.reconfigureLocked t u).accessFreq = c.accessFreq := by
  unfold reconfigureLocked; dsimp only; split <;> rfl

@[simp] theorem hashNode_reconfigureLocked (c : Container α) (t u : Time) :
    (c.reconfigureLocked t u).hashNode = c.hashNode := by
  funext m; simp [hashNode]

@[simp] theorem reconfigureLocked_config (c : Container α) (t u : Time) :
    (c.reconfigureLocked t u).config = c.config := by
  unfold reconfigureLocked; dsimp only; split <;> rfl

@[simp] theorem reconfigureLocked_capacity (c : Container α) (t u : Time) :
    (c.reconfigureLocked t u).capacity = c.capacity := by
  unfold reconfigureLocked; dsimp only; split <;> rfl

@[simp] theorem reconfigureLocked_maxWindowSize (c : Container α) (t u : Time) :
    (c.reconfigureLocked t u).maxWindowSize = c.maxWindowSize := by
  unfold reconfigureLocked; dsimp only; split <;> rfl

@[simp] theorem reconfigureLocked_windowSize (c : Container α) (t u : Time) :
    (c.reconfigureLocked t u).windowSize = c.windowSize := by
  unfold reconfigureLocked; dsimp only; split <;> rfl

/-- The refresh time a reconfiguration installs, from the age of Main's tail at `u`. -/
theorem reconfigureLocked_lruRefreshTime (c : Container α) (t u : Time) :
    (c.reconfigureLocked t u).lruRefreshTime =
      if t < c.nextReconfigureTime then c.lruRefreshTime
      else min (max c.config.defaultLruRefreshTime (Float.toUInt32
        ((c.getEvictionAgeStatLocked 0 u).warmQueueStat.oldestElementAge.toFloat *
          c.config.lruRefreshRatio))) kLruRefreshTimeCap := by
  unfold reconfigureLocked; dsimp only; split <;> rfl

/-- The body runs once the clock reaches `nextReconfigureTime_`, and sets it `I` seconds on, in
32 bits. -/
theorem reconfigureLocked_nextReconfigureTime (c : Container α) (t u : Time) :
    (c.reconfigureLocked t u).nextReconfigureTime =
      if t < c.nextReconfigureTime then c.nextReconfigureTime
      else UInt32.ofNat (t.toNat + c.config.mmReconfigureIntervalSecs) := by
  unfold reconfigureLocked; dsimp only; split <;> rfl

/-- `reconfigureLocked` writes `lruRefreshTime_` and `nextReconfigureTime_` and nothing
else. -/
theorem reconfigureLocked_eq (c : Container α) (t u : Time) :
    c.reconfigureLocked t u = { c with
      lruRefreshTime := (c.reconfigureLocked t u).lruRefreshTime,
      nextReconfigureTime := (c.reconfigureLocked t u).nextReconfigureTime } := by
  unfold reconfigureLocked; dsimp only; split <;> rfl

/-- The `nextReconfigureTime_` that the constructors and `setConfig` install at `now`. -/
def firstReconfigureTime (config : Config) (now : Time) : Time :=
  if config.mmReconfigureIntervalSecs = 0 then timeMax
  else UInt32.ofNat (now.toNat + config.mmReconfigureIntervalSecs)

/-- `setConfig`. -/
def setConfig (c : Container α) (newConfig : Config) (now : Time) : Container α :=
  { c with config := newConfig, lruRefreshTime := newConfig.lruRefreshTime,
           nextReconfigureTime := firstReconfigureTime newConfig now }

@[simp] theorem setConfig_windowSize (c : Container α) (config : Config) (now : Time) :
    (c.setConfig config now).windowSize = c.windowSize := rfl

end

/-- `maybePromoteTailLocked`: swap the Tiny and Probation tails when the Tiny tail is
admitted, else rotate the Probation tail to the head. -/
def maybePromoteTailLocked (c : Container α) : Container α :=
  match DList.getTail c.lru.probation, DList.getTail c.lru.tiny with
  | some probationNode, some tinyNode =>
    if c.admitToProbation tinyNode probationNode then
      let c := (c.modifyLru .tiny (DList.remove tinyNode)).modifyLru .probation
        (DList.linkAtHead tinyNode)
      let c := (c.unmarkTiny tinyNode).markTiny probationNode
      let c := (c.modifyLru .probation (DList.remove probationNode)).modifyLru .tiny
        (DList.linkAtTail probationNode)
      (c.unmarkProbation probationNode).markProbation tinyNode
    else c.modifyLru .probation (DList.moveToHead probationNode)
  | _, _ => c

/-- The overflow branch of `add`: the Tiny tail goes to the head of Probation. -/
def spillTinyTailLocked (c : Container α) : Container α :=
  match DList.getTail c.lru.tiny with
  | some tailNode =>
    let c := (c.modifyLru .tiny (DList.remove tailNode)).modifyLru .probation
      (DList.linkAtHead tailNode)
    (c.unmarkTiny tailNode).markProbation tailNode
  | none => c

/-- Moving the Tiny tail keeps the tuning members, Main and every `updateTime`. -/
@[simp] theorem tuning_maybePromoteTailLocked (c : Container α) :
    c.maybePromoteTailLocked.tuning = c.tuning := by
  unfold maybePromoteTailLocked; split <;> (try split_ifs) <;> rfl

@[simp] theorem tuning_spillTinyTailLocked (c : Container α) :
    c.spillTinyTailLocked.tuning = c.tuning := by
  unfold spillTinyTailLocked; split <;> rfl

@[simp] theorem maybePromoteTailLocked_accessFreq (c : Container α) :
    c.maybePromoteTailLocked.accessFreq = c.accessFreq := by
  unfold maybePromoteTailLocked; split <;> (try split_ifs) <;> rfl

@[simp] theorem spillTinyTailLocked_accessFreq (c : Container α) :
    c.spillTinyTailLocked.accessFreq = c.accessFreq := by
  unfold spillTinyTailLocked; split <;> rfl

@[simp] theorem maybePromoteTailLocked_main (c : Container α) :
    c.maybePromoteTailLocked.lru.main = c.lru.main := by
  unfold maybePromoteTailLocked; split <;> (try split_ifs) <;> rfl

@[simp] theorem spillTinyTailLocked_main (c : Container α) :
    c.spillTinyTailLocked.lru.main = c.lru.main := by
  unfold spillTinyTailLocked; split <;> rfl

@[simp] theorem getUpdateTime_maybePromoteTailLocked (c : Container α) (m : α) :
    c.maybePromoteTailLocked.getUpdateTime m = c.getUpdateTime m := by
  unfold maybePromoteTailLocked
  split <;> (try split_ifs) <;> simp [markTiny, unmarkTiny, markProbation, unmarkProbation]

@[simp] theorem getUpdateTime_spillTinyTailLocked (c : Container α) (m : α) :
    c.spillTinyTailLocked.getUpdateTime m = c.getUpdateTime m := by
  unfold spillTinyTailLocked; split <;> simp [unmarkTiny, markProbation]

@[simp] theorem maybePromoteTailLocked_windowSize (c : Container α) :
    c.maybePromoteTailLocked.windowSize = c.windowSize := by
  unfold maybePromoteTailLocked; split <;> (try split_ifs) <;> rfl

@[simp] theorem spillTinyTailLocked_windowSize (c : Container α) :
    c.spillTinyTailLocked.windowSize = c.windowSize := by
  unfold spillTinyTailLocked; split <;> rfl

/-- `add` after its check: link at the head of Tiny, count the key, enforce the Tiny cap,
maybe regrow the sketch, and mark the entry. The cap's product is a `size_t`, taken mod 2^64. -/
def addLocked (c : Container α) (node : α) (currTime : Time) : Container α :=
  let c := (c.modifyLru .tiny (DList.linkAtHead node)).markTiny node
  let c := c.updateFrequenciesLocked node
  let expectedSize := c.config.tinySizePercent * c.lru.size % 2 ^ 64 / 100
  let c := if expectedSize < c.lru.tiny.length then c.spillTinyTailLocked
    else c.maybePromoteTailLocked
  let c := c.maybeGrowAccessCountersLocked
  ((c.markInMMContainer node).setUpdateTime node currTime).unmarkAccessed node

/-- `addLocked` is list and bit work that keeps the tuning members, Main and every stamp, then
`maybeGrowAccessCountersLocked`, then the new entry's bits and stamp. -/
theorem addLocked_eq_grow (c : Container α) (n : α) (t : Time) :
    ∃ c₁ : Container α, c₁.tuning = c.tuning ∧ c₁.lru.main = c.lru.main ∧
      c₁.getUpdateTime = c.getUpdateTime ∧ c.addLocked n t =
        ((c₁.maybeGrowAccessCountersLocked.markInMMContainer n).setUpdateTime n t).unmarkAccessed n :=
  ⟨_, by split_ifs <;> simp [markTiny], by split_ifs <;> simp [markTiny],
    by funext m; split_ifs <;> simp [markTiny], rfl⟩

/-- `addLocked` sizes the sketch by the container it has built, from the capacity and ratio
it had. -/
theorem addLocked_sizing (c : Container α) (n : α) (t : Time) :
    (c.addLocked n t).capacity = (if (c.addLocked n t).size < 2 * c.capacity then c.capacity
      else max (c.addLocked n t).size kDefaultCapacity) ∧
    (c.addLocked n t).maxWindowSize = if (c.addLocked n t).size < 2 * c.capacity
      then c.maxWindowSize
      else max (c.addLocked n t).size kDefaultCapacity * c.config.windowToCacheSizeRatio := by
  obtain ⟨c₁, h₁, -, -, he⟩ := addLocked_eq_grow c n t
  have hcap : c₁.capacity = c.capacity := congrArg Tuning.capacity h₁
  have hmax : c₁.maxWindowSize = c.maxWindowSize := congrArg Tuning.maxWindowSize h₁
  have hcfg : c₁.config = c.config := congrArg Tuning.config h₁
  simp only [he, size, unmarkAccessed, unSetFlag, setUpdateTime, markInMMContainer, setFlag,
    setNode_capacity, setNode_maxWindowSize, setNode_lru, maybeGrowAccessCountersLocked_lru,
    maybeGrowAccessCountersLocked_capacity, maybeGrowAccessCountersLocked_maxWindowSize, hcap,
    hmax, hcfg, and_self]

@[simp] theorem addLocked_config (c : Container α) (n : α) (t : Time) :
    (c.addLocked n t).config = c.config := by
  obtain ⟨c₁, h₁, -, -, he⟩ := addLocked_eq_grow c n t
  have hcfg : c₁.config = c.config := congrArg Tuning.config h₁
  simp [he, unmarkAccessed, markInMMContainer, setUpdateTime, hcfg]

/-- `addLocked` leaves Main alone and stamps only the new entry. -/
@[simp] theorem addLocked_main (c : Container α) (n : α) (t : Time) :
    (c.addLocked n t).lru.main = c.lru.main := by
  obtain ⟨c₁, -, h₁, -, he⟩ := addLocked_eq_grow c n t
  simpa [he, unmarkAccessed, markInMMContainer] using h₁

theorem getUpdateTime_addLocked (c : Container α) (n m : α) (t : Time) :
    (c.addLocked n t).getUpdateTime m = if m = n then t else c.getUpdateTime m := by
  obtain ⟨c₁, -, -, h₁, he⟩ := addLocked_eq_grow c n t
  simp [he, unmarkAccessed, markInMMContainer, h₁]

@[simp] theorem addLocked_nextReconfigureTime (c : Container α) (n : α) (t : Time) :
    (c.addLocked n t).nextReconfigureTime = c.nextReconfigureTime := by
  obtain ⟨c₁, h₁, -, -, he⟩ := addLocked_eq_grow c n t
  have hnext : c₁.nextReconfigureTime = c.nextReconfigureTime :=
    congrArg Tuning.nextReconfigureTime h₁
  simp [he, unmarkAccessed, markInMMContainer, setUpdateTime, setFlag, unSetFlag, setNode, hnext]

/-- Before `maybeGrowAccessCountersLocked`, `addLocked` has counted the entry in the window. -/
theorem addLocked_eq_window (c : Container α) (n : α) (t : Time) :
    ∃ c₁ : Container α, c₁.tuning = c.tuning ∧ c₁.windowSize =
      (if c.windowSize + 1 = c.maxWindowSize then (c.windowSize + 1) / 2 else c.windowSize + 1) ∧
      c.addLocked n t =
        ((c₁.maybeGrowAccessCountersLocked.markInMMContainer n).setUpdateTime n t).unmarkAccessed n :=
  ⟨_, by split_ifs <;> simp [markTiny],
    by simp [apply_ite Container.windowSize, markTiny, setFlag, updateFrequenciesLocked_windowSize],
    rfl⟩

/-- `addLocked` counts the new entry in the window, unless the sketch is rebuilt after it. -/
theorem addLocked_windowSize (c : Container α) (n : α) (t : Time) :
    (c.addLocked n t).windowSize = if (c.addLocked n t).size < 2 * c.capacity then
      (if c.windowSize + 1 = c.maxWindowSize then (c.windowSize + 1) / 2 else c.windowSize + 1)
    else 0 := by
  obtain ⟨c₁, h₁, hw, he⟩ := addLocked_eq_window c n t
  have hcap : c₁.capacity = c.capacity := congrArg Tuning.capacity h₁
  simp only [he, size, unmarkAccessed, unSetFlag, setUpdateTime, markInMMContainer, setFlag,
    setNode_windowSize, setNode_lru, maybeGrowAccessCountersLocked_lru,
    maybeGrowAccessCountersLocked_windowSize, hcap, hw]

/-- `add(node)` at the clock reading `currTime`. -/
def add (c : Container α) (node : α) (currTime : Time) : Bool × Container α :=
  if c.isInMMContainer node then (false, c) else (true, c.addLocked node currTime)

/-- An `add` that returns true runs the locked body. -/
theorem add_of_fst {c : Container α} {n : α} {t : Time} (h : (c.add n t).1 = true) :
    (c.add n t).2 = c.addLocked n t := by
  unfold add at h ⊢
  split_ifs at h ⊢
  rfl

/-- `removeLocked`: unlink from the list the flags name and clear the flags. -/
def removeLocked (c : Container α) (node : α) : Container α :=
  let c := if c.isTiny node then (c.modifyLru .tiny (DList.remove node)).unmarkTiny node
    else if c.isProbation node then
      (c.modifyLru .probation (DList.remove node)).unmarkProbation node
    else c.modifyLru .main (DList.remove node)
  (c.unmarkAccessed node).unmarkInMMContainer node

@[simp] theorem tuning_removeLocked (c : Container α) (n : α) :
    (c.removeLocked n).tuning = c.tuning := by
  unfold removeLocked; dsimp only; split_ifs <;> rfl

@[simp] theorem removeLocked_windowSize (c : Container α) (n : α) :
    (c.removeLocked n).windowSize = c.windowSize := by
  unfold removeLocked; dsimp only; split_ifs <;> rfl

@[simp] theorem removeLocked_config (c : Container α) (n : α) :
    (c.removeLocked n).config = c.config :=
  congrArg Tuning.config (c.tuning_removeLocked n)

@[simp] theorem removeLocked_nextReconfigureTime (c : Container α) (n : α) :
    (c.removeLocked n).nextReconfigureTime = c.nextReconfigureTime :=
  congrArg Tuning.nextReconfigureTime (c.tuning_removeLocked n)

@[simp] theorem getUpdateTime_removeLocked (c : Container α) (n m : α) :
    (c.removeLocked n).getUpdateTime m = c.getUpdateTime m := by
  unfold removeLocked; dsimp only
  split_ifs <;> simp [unmarkTiny, unmarkProbation, unmarkAccessed, unmarkInMMContainer]

/-- Unlinking an entry leaves the arbiter as it was. -/
@[simp] theorem admitToProbation_removeLocked (c : Container α) (n : α) :
    (c.removeLocked n).admitToProbation = c.admitToProbation := by
  funext t p
  unfold removeLocked
  split_ifs <;> simp [admitToProbation, unmarkAccessed, unmarkInMMContainer, unmarkTiny,
    unmarkProbation]

@[simp] theorem removeLocked_accessFreq (c : Container α) (n : α) :
    (c.removeLocked n).accessFreq = c.accessFreq := by
  unfold removeLocked; dsimp only; split_ifs <;> rfl

/-- `remove(node)`. -/
def remove (c : Container α) (node : α) : Bool × Container α :=
  if !c.isInMMContainer node then (false, c) else (true, c.removeLocked node)

/-- `replace` after its checks. -/
def replaceLocked (c : Container α) (oldNode newNode : α) : Container α :=
  let updateTime := c.getUpdateTime oldNode
  let c := if c.isTiny oldNode then
      ((c.modifyLru .tiny (DList.replace oldNode newNode)).unmarkTiny oldNode).markTiny newNode
    else if c.isProbation oldNode then
      ((c.modifyLru .probation (DList.replace oldNode newNode)).unmarkProbation oldNode).markProbation
        newNode
    else c.modifyLru .main (DList.replace oldNode newNode)
  let c := ((c.unmarkInMMContainer oldNode).markInMMContainer newNode).setUpdateTime newNode
    updateTime
  if c.isAccessed oldNode then c.markAccessed newNode else c.unmarkAccessed newNode

@[simp] theorem tuning_replaceLocked (c : Container α) (o n : α) :
    (c.replaceLocked o n).tuning = c.tuning := by
  unfold replaceLocked; dsimp only; split_ifs <;> rfl

@[simp] theorem replaceLocked_windowSize (c : Container α) (o n : α) :
    (c.replaceLocked o n).windowSize = c.windowSize := by
  unfold replaceLocked; dsimp only; split_ifs <;> rfl

@[simp] theorem replaceLocked_config (c : Container α) (o n : α) :
    (c.replaceLocked o n).config = c.config :=
  congrArg Tuning.config (c.tuning_replaceLocked o n)

@[simp] theorem replaceLocked_nextReconfigureTime (c : Container α) (o n : α) :
    (c.replaceLocked o n).nextReconfigureTime = c.nextReconfigureTime :=
  congrArg Tuning.nextReconfigureTime (c.tuning_replaceLocked o n)

@[simp] theorem replaceLocked_accessFreq (c : Container α) (o n : α) :
    (c.replaceLocked o n).accessFreq = c.accessFreq := by
  unfold replaceLocked; dsimp only; split_ifs <;> rfl

/-- `replace(oldNode, newNode)`. -/
def replace (c : Container α) (oldNode newNode : α) : Bool × Container α :=
  if c.isTiny newNode || c.isProbation newNode then (false, c)
  else if !c.isInMMContainer oldNode || c.isInMMContainer newNode then (false, c)
  else (true, c.replaceLocked oldNode newNode)

/-- The checks a `replace` that returns true has passed. -/
theorem replace_guard {c : Container α} {o n : α} (h : (c.replace o n).1 = true) :
    c.isTiny n = false ∧ c.isProbation n = false ∧ c.isInMMContainer o = true ∧
      c.isInMMContainer n = false := by
  unfold replace at h
  split_ifs at h
  simp_all

/-- A `replace` that returns true runs the locked body, and one that returns false changes
nothing. -/
theorem replace_of_fst {c : Container α} {o n : α} (h : (c.replace o n).1 = true) :
    (c.replace o n).2 = c.replaceLocked o n := by
  unfold replace at h ⊢
  split_ifs at h ⊢
  rfl

theorem replace_of_fst_eq_false {c : Container α} {o n : α} (h : (c.replace o n).1 = false) :
    (c.replace o n).2 = c := by
  unfold replace at h ⊢
  split_ifs at h ⊢ <;> rfl

/-- Lines 875–892 of `recordAccess`: when Main exceeds its share of Main and Probation, its
tail goes to the tail of Probation. The share's product is a `size_t`, taken mod 2^64. -/
def demoteMainTailLocked (c : Container α) : Container α :=
  let totalMainSize := c.lru.probation.length + c.lru.main.length
  let expectedMainSize := c.config.protectionSegmentSizePct * totalMainSize % 2 ^ 64 / 100
  if expectedMainSize < c.lru.main.length then
    match DList.getTail c.lru.main with
    | some mainTail =>
      ((c.modifyLru .main (DList.remove mainTail)).modifyLru .probation
        (DList.linkAtTail mainTail)).markProbation mainTail
    | none => c
  else c

@[simp] theorem tuning_demoteMainTailLocked (c : Container α) :
    c.demoteMainTailLocked.tuning = c.tuning := by
  unfold demoteMainTailLocked; dsimp only; split_ifs <;> (try split) <;> rfl

@[simp] theorem getUpdateTime_demoteMainTailLocked (c : Container α) (m : α) :
    c.demoteMainTailLocked.getUpdateTime m = c.getUpdateTime m := by
  unfold demoteMainTailLocked; dsimp only; split_ifs <;> (try split) <;> simp [markProbation]

@[simp] theorem demoteMainTailLocked_windowSize (c : Container α) :
    c.demoteMainTailLocked.windowSize = c.windowSize := by
  unfold demoteMainTailLocked; dsimp only; split_ifs <;> (try split) <;> rfl

@[simp] theorem demoteMainTailLocked_accessFreq (c : Container α) :
    c.demoteMainTailLocked.accessFreq = c.accessFreq := by
  unfold demoteMainTailLocked; dsimp only; split_ifs <;> (try split) <;> rfl

@[simp] theorem hashNode_demoteMainTailLocked (c : Container α) :
    c.demoteMainTailLocked.hashNode = c.hashNode := by
  unfold demoteMainTailLocked; dsimp only; split_ifs <;> (try split) <;> simp [markProbation]

/-- Lines 869–893 of `recordAccess`: a Probation entry above `protectionFreq_` moves to the
head of Main, and Main is brought back to its share. -/
def promoteToMainLocked (c : Container α) (node : α) : Container α :=
  let freq := c.accessFreq.getCount (c.hashNode node)
  if c.config.protectionFreq_ < freq then
    (((c.modifyLru .probation (DList.remove node)).modifyLru .main
      (DList.linkAtHead node)).unmarkProbation node).demoteMainTailLocked
  else c

@[simp] theorem tuning_promoteToMainLocked (c : Container α) (n : α) :
    (c.promoteToMainLocked n).tuning = c.tuning := by
  unfold promoteToMainLocked; dsimp only; split_ifs <;> simp [unmarkProbation]

@[simp] theorem getUpdateTime_promoteToMainLocked (c : Container α) (n m : α) :
    (c.promoteToMainLocked n).getUpdateTime m = c.getUpdateTime m := by
  unfold promoteToMainLocked; dsimp only; split_ifs <;> simp [unmarkProbation]

@[simp] theorem promoteToMainLocked_maxWindowSize (c : Container α) (n : α) :
    (c.promoteToMainLocked n).maxWindowSize = c.maxWindowSize :=
  congrArg Tuning.maxWindowSize (c.tuning_promoteToMainLocked n)

@[simp] theorem promoteToMainLocked_windowSize (c : Container α) (n : α) :
    (c.promoteToMainLocked n).windowSize = c.windowSize := by
  unfold promoteToMainLocked; dsimp only; split_ifs <;> simp [unmarkProbation, unSetFlag]

@[simp] theorem promoteToMainLocked_accessFreq (c : Container α) (n : α) :
    (c.promoteToMainLocked n).accessFreq = c.accessFreq := by
  unfold promoteToMainLocked; dsimp only; split_ifs <;> simp [unmarkProbation]

@[simp] theorem hashNode_promoteToMainLocked (c : Container α) (n : α) :
    (c.promoteToMainLocked n).hashNode = c.hashNode := by
  unfold promoteToMainLocked; dsimp only; split_ifs <;> simp [unmarkProbation]

/-- `recordAccess` under the lock, once the entry is found in the container. -/
def recordAccessLocked (c : Container α) (node : α) (curr : Time) : Container α :=
  let lruType := c.getLruType node
  let c := c.modifyLru lruType (DList.moveToHead node)
  let c := if lruType = .probation then c.promoteToMainLocked node else c
  (c.setUpdateTime node curr).updateFrequenciesLocked node

/-- The locked body of an access keeps the tuning members and stamps only the entry. -/
@[simp] theorem tuning_recordAccessLocked (c : Container α) (n : α) (t : Time) :
    (c.recordAccessLocked n t).tuning = c.tuning := by
  unfold recordAccessLocked; dsimp only; split_ifs <;> simp [setUpdateTime]

@[simp] theorem recordAccessLocked_lruRefreshTime (c : Container α) (n : α) (t : Time) :
    (c.recordAccessLocked n t).lruRefreshTime = c.lruRefreshTime :=
  congrArg Tuning.lruRefreshTime (c.tuning_recordAccessLocked n t)

@[simp] theorem recordAccessLocked_capacity (c : Container α) (n : α) (t : Time) :
    (c.recordAccessLocked n t).capacity = c.capacity :=
  congrArg Tuning.capacity (c.tuning_recordAccessLocked n t)

@[simp] theorem recordAccessLocked_maxWindowSize (c : Container α) (n : α) (t : Time) :
    (c.recordAccessLocked n t).maxWindowSize = c.maxWindowSize :=
  congrArg Tuning.maxWindowSize (c.tuning_recordAccessLocked n t)

@[simp] theorem recordAccessLocked_config (c : Container α) (n : α) (t : Time) :
    (c.recordAccessLocked n t).config = c.config :=
  congrArg Tuning.config (c.tuning_recordAccessLocked n t)

@[simp] theorem recordAccessLocked_nextReconfigureTime (c : Container α) (n : α) (t : Time) :
    (c.recordAccessLocked n t).nextReconfigureTime = c.nextReconfigureTime :=
  congrArg Tuning.nextReconfigureTime (c.tuning_recordAccessLocked n t)

theorem getUpdateTime_recordAccessLocked (c : Container α) (n m : α) (t : Time) :
    (c.recordAccessLocked n t).getUpdateTime m = if m = n then t else c.getUpdateTime m := by
  unfold recordAccessLocked; dsimp only; split_ifs <;> simp [*]

/-- The locked body of an access counts one more call in the window. -/
theorem recordAccessLocked_windowSize (c : Container α) (n : α) (t : Time) :
    (c.recordAccessLocked n t).windowSize =
      if c.windowSize + 1 = c.maxWindowSize then (c.windowSize + 1) / 2 else c.windowSize + 1 := by
  have h : ∀ c' : Container α, c'.windowSize = c.windowSize → c'.maxWindowSize = c.maxWindowSize →
      ((c'.setUpdateTime n t).updateFrequenciesLocked n).windowSize =
        if c.windowSize + 1 = c.maxWindowSize then (c.windowSize + 1) / 2
        else c.windowSize + 1 := fun c' hw hm => by
    rw [updateFrequenciesLocked_windowSize]; simp [setUpdateTime, hw, hm]
  apply h <;> simp [apply_ite Container.windowSize, apply_ite Container.maxWindowSize]

/-- Lines 837–849 of `recordAccess`, before the lock: the mode check and, on an entry in the
container that is due for a refresh or not yet accessed, the accessed bit. `none` is a return
of false. -/
def recordAccessPrefix (c : Container α) (node : α) (mode : AccessMode) (curr : Time) :
    Option (Container α) :=
  if (mode == .write && !c.config.updateOnWrite) || (mode == .read && !c.config.updateOnRead) then
    none
  else if c.isInMMContainer node &&
      (decide (c.getUpdateTime node + c.lruRefreshTime ≤ curr) || !c.isAccessed node) then
    some (if !c.isAccessed node then c.markAccessed node else c)
  else none

/-- Lines 860–897 of `recordAccess`, with the lock held: reconfigure at `curr`, check again
that the entry is in the container, and run the locked body. `statNow` is the clock reading
inside `reconfigureLocked`. -/
def recordAccessUnderLock (c : Container α) (node : α) (curr statNow : Time) :
    Bool × Container α :=
  let c := c.reconfigureLocked curr statNow
  if !c.isInMMContainer node then (false, c)
  else (true, c.recordAccessLocked node curr)

/-- `recordAccess(node, mode)` at the clock reading `curr`, with the lock free when it asks
for it. The lock is taken with `try_lock` when `tryLockUpdate` is set, and then `tryLockOk` is
its outcome. -/
def recordAccess (c : Container α) (node : α) (mode : AccessMode) (curr statNow : Time)
    (tryLockOk : Bool) : Bool × Container α :=
  match c.recordAccessPrefix node mode curr with
  | none => (false, c)
  | some c =>
    let ownsLock := if c.config.tryLockUpdate then tryLockOk else true
    if !ownsLock then (false, c)
    else c.recordAccessUnderLock node curr statNow

/-- The part before the lock runs only on an entry in the container, and sets its accessed
bit. -/
theorem recordAccessPrefix_eq_some {c c' : Container α} {n : α} {mode : AccessMode} {now : Time}
    (h : c.recordAccessPrefix n mode now = some c') :
    c.isInMMContainer n = true ∧ c' = c.markAccessed n := by
  unfold recordAccessPrefix at h
  split_ifs at h with _ hg ha <;> cases h
  · exact ⟨((Bool.and_eq_true _ _).mp hg).1, rfl⟩
  · exact ⟨((Bool.and_eq_true _ _).mp hg).1, (setFlag_of_isFlagSet (by simpa using ha)).symm⟩

/-- The refresh guard: on an entry already marked accessed, the part before the lock goes on
only at least `lruRefreshTime_` after the entry's stamp, in the 32-bit sum the code
compares. -/
theorem recordAccessPrefix_guard {c c' : Container α} {n : α} {mode : AccessMode} {now : Time}
    (h : c.recordAccessPrefix n mode now = some c') (ha : c.isAccessed n = true) :
    c.getUpdateTime n + c.lruRefreshTime ≤ now := by
  unfold recordAccessPrefix at h
  split_ifs at h with _ hg <;>
    simp only [ha, Bool.not_true, Bool.or_false, Bool.and_eq_true, decide_eq_true_eq] at hg <;>
    exact hg.2

/-- With the lock held, the call reconfigures, and runs the locked body when the entry is
still in the container. -/
theorem recordAccessUnderLock_cases (c : Container α) (n : α) (now statNow : Time) :
    (c.isInMMContainer n = false ∧
      c.recordAccessUnderLock n now statNow = (false, c.reconfigureLocked now statNow)) ∨
    (c.isInMMContainer n = true ∧ c.recordAccessUnderLock n now statNow =
      (true, (c.reconfigureLocked now statNow).recordAccessLocked n now)) := by
  have hin : (c.reconfigureLocked now statNow).isInMMContainer n = c.isInMMContainer n := by simp
  cases h : c.isInMMContainer n <;> simp [recordAccessUnderLock, hin, h]

@[simp] theorem recordAccessUnderLock_config (c : Container α) (n : α) (now statNow : Time) :
    (c.recordAccessUnderLock n now statNow).2.config = c.config := by
  unfold recordAccessUnderLock; dsimp only; split <;> simp

theorem recordAccessUnderLock_nextReconfigureTime (c : Container α) (n : α) (now statNow : Time) :
    (c.recordAccessUnderLock n now statNow).2.nextReconfigureTime =
      (c.reconfigureLocked now statNow).nextReconfigureTime := by
  unfold recordAccessUnderLock; dsimp only; split <;> simp

/-- The outcomes of `recordAccess`: nothing changes; a failed `try_lock` after the entry was
marked accessed; or the entry is in the container, the lock is held, and the call marks it,
reconfigures and runs the locked body. -/
theorem recordAccess_cases (c : Container α) (n : α) (mode : AccessMode) (now statNow : Time)
    (ok : Bool) :
    c.recordAccess n mode now statNow ok = (false, c) ∨
      (c.config.tryLockUpdate = true ∧ ok = false ∧ c.isInMMContainer n = true ∧
        c.recordAccess n mode now statNow ok = (false, c.markAccessed n)) ∨
      (c.isInMMContainer n = true ∧ (c.config.tryLockUpdate = true → ok = true) ∧
        c.recordAccess n mode now statNow ok =
          (true, ((c.markAccessed n).reconfigureLocked now statNow).recordAccessLocked n now)) := by
  unfold recordAccess
  rcases hp : c.recordAccessPrefix n mode now with _ | c'
  · exact .inl rfl
  · obtain ⟨hin, rfl⟩ := recordAccessPrefix_eq_some hp
    have hin' : (c.markAccessed n).isInMMContainer n = true := by simpa [markAccessed] using hin
    have hcfg : (c.markAccessed n).config = c.config := rfl
    simp only [hcfg]
    rcases (c.markAccessed n).recordAccessUnderLock_cases n now statNow with ⟨hn, -⟩ | ⟨-, he⟩
    · exact absurd hin' (by simp [hn])
    · cases hl : c.config.tryLockUpdate <;> cases ok <;>
        simp [he, hin]

section
variable {c : Container α} {n : α} {mode : AccessMode} {now statNow : Time} {ok : Bool}

/-- A call that returns true found the entry in the container, marked it accessed,
reconfigured and ran the locked body. -/
theorem recordAccess_of_fst (h : (c.recordAccess n mode now statNow ok).1 = true) :
    c.isInMMContainer n = true ∧ (c.recordAccess n mode now statNow ok).2 =
      ((c.markAccessed n).reconfigureLocked now statNow).recordAccessLocked n now := by
  rcases recordAccess_cases c n mode now statNow ok with he | ⟨-, -, -, he⟩ | ⟨hin, -, he⟩
  · simp [he] at h
  · simp [he] at h
  · exact ⟨hin, by rw [he]⟩

/-- The refresh guard: a call that returns true on an entry already marked accessed comes at
least `lruRefreshTime_` after the entry's stamp, in the 32-bit sum the code compares. -/
theorem recordAccess_guard (h : (c.recordAccess n mode now statNow ok).1 = true)
    (ha : c.isAccessed n = true) : c.getUpdateTime n + c.lruRefreshTime ≤ now := by
  unfold recordAccess at h
  split at h
  · cases h
  · exact recordAccessPrefix_guard ‹_› ha

end

/-- The member initialisers: zero counters, an empty sketch, the given lists and config. -/
def fresh (lru : MultiDList α) (config : Config) (nodes : α → Node)
    (index : Nat → Nat → Nat → Nat) : Container α :=
  { lru, windowSize := 0, maxWindowSize := 0, capacity := 0, nextReconfigureTime := 0,
    lruRefreshTime := 0, config, accessFreq := CountMinSketch.create 0 0 index, nodes }

/-- `Container(Config, PtrCompressor)` at the clock reading `now`; `index` is the sketch's
row hashing. -/
def new (config : Config) (nodes : α → Node) (index : Nat → Nat → Nat → Nat) (now : Time) :
    Container α :=
  let c := (fresh ⟨[], [], []⟩ config nodes index).maybeGrowAccessCountersLocked
  { c with lruRefreshTime := config.lruRefreshTime,
           nextReconfigureTime := firstReconfigureTime config now }

/-- `saveState()`; `configObject` is the default-constructed `MMTinyLFUConfig` that the
function fills. Modelled from the spec: `lru_.saveState()` saves the lists as they are. -/
def saveState (c : Container α) (configObject : MMTinyLFUConfig) : MMTinyLFUObject α :=
  { config := { configObject with
      lruRefreshTime := c.lruRefreshTime, lruRefreshRatio := c.config.lruRefreshRatio,
      updateOnWrite := c.config.updateOnWrite, updateOnRead := c.config.updateOnRead,
      windowToCacheSizeRatio := c.config.windowToCacheSizeRatio,
      tinySizePercent := c.config.tinySizePercent,
      mmReconfigureIntervalSecs := c.config.mmReconfigureIntervalSecs,
      newcomerWinsOnTie := c.config.newcomerWinsOnTie,
      protectionSegmentSizePct := c.config.protectionSegmentSizePct,
      protectionFreq_ := c.config.protectionFreq_ }
    lrus := c.lru }

/-- `Container(MMTinyLFUObject, PtrCompressor)` at the clock reading `now`, over the entries
that survived the restart. Fails as the config constructor does. Modelled from the spec: the
`MultiDList` restoring constructor (not under `src/`) gives back the saved lists. -/
def restore (object : MMTinyLFUObject α) (nodes : α → Node) (index : Nat → Nat → Nat → Nat)
    (now : Time) : Except String (Container α) := do
  let config ← Config.ofSerialized object.config
  let c := fresh object.lrus config nodes index
  let c := { c with lruRefreshTime := config.lruRefreshTime,
                    nextReconfigureTime := firstReconfigureTime config now }
  return c.maybeGrowAccessCountersLocked

omit [DecidableEq α] in
/-- A restore that succeeds builds the member initialisers over the saved lists and the
config the saved fields give. -/
theorem restore_eq_ok {object : MMTinyLFUObject α} {nodes : α → Node}
    {index : Nat → Nat → Nat → Nat} {now : Time} {c : Container α}
    (h : restore object nodes index now = .ok c) :
    ∃ config, Config.ofSerialized object.config = .ok config ∧
      c = ({ fresh object.lrus config nodes index with
        lruRefreshTime := config.lruRefreshTime,
        nextReconfigureTime := firstReconfigureTime config now } : Container α).maybeGrowAccessCountersLocked := by
  simp only [restore, bind, Except.bind] at h
  split at h
  · cases h
  · exact ⟨_, ‹_›, (Except.ok.inj h).symm⟩

omit [DecidableEq α] in
/-- A restore runs over the entries it is given. -/
theorem restore_nodes {object : MMTinyLFUObject α} {nodes : α → Node}
    {index : Nat → Nat → Nat → Nat} {now : Time} {c : Container α}
    (h : restore object nodes index now = .ok c) : c.nodes = nodes := by
  obtain ⟨config, -, rfl⟩ := restore_eq_ok h
  simp [fresh]

end Container
end WTinyLFU
