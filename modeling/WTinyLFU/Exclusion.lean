import WTinyLFU.System

/-! The eviction iterator holds the container lock. While it is alive no call returns true; an
access still marks its entry accessed before it asks for the lock, and then fails its
`try_lock` or waits in `lock()`; and the only change to the lists is the unlink that
`remove(it)` makes of the entry the iterator is at. The iterator itself lives until it is
destroyed. -/
namespace WTinyLFU

open System

end WTinyLFU
