import WTinyLFU.DList
import WTinyLFU.CountMinSketch
import WTinyLFU.Config
import WTinyLFU.Container
import WTinyLFU.Iterator
import WTinyLFU.System
import WTinyLFU.Segments
import WTinyLFU.Invariant
import WTinyLFU.Eviction
import WTinyLFU.Membership
import WTinyLFU.Access
import WTinyLFU.Caps
import WTinyLFU.Persistence
import WTinyLFU.Sizing
import WTinyLFU.Ages
import WTinyLFU.Window
import WTinyLFU.Refresh
import WTinyLFU.Frames
import WTinyLFU.Schedule
import WTinyLFU.Lifecycle
import WTinyLFU.Replace
import WTinyLFU.Exclusion
import WTinyLFU.Bounds
import WTinyLFU.Admission
import WTinyLFU.Estimate
