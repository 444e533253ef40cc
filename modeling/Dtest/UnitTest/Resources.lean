import Dtest.Memory.Calls
import Dtest.Scheduler.Model

/-!
# The resource window of a unit test

`Sandbox::resourceSnapshot` is called at both ends of the window and leaves in the snapshot the
differences of the cumulative counters.  `driverBody` is the function that `UnitTest::_driverRun`
runs in the sandbox; what the test functions do to the tracker are lists of events.
-/

universe u

namespace Dtest

variable {σ : Type u}

/-- `ResourceSnapshot::Quantity`. -/
structure Quantity where
  size : ℕ := 0
  count : ℕ := 0

/-- `ResourceSnapshot`. -/
structure ResourceSnapshot where
  initialized : Bool := false
  allocate : Quantity := {}
  deallocate : Quantity := {}
  max : Quantity := {}
  send : Quantity := {}
  receive : Quantity := {}

/-- The counters of `Network`. -/
structure NetworkCounters where
  sendSize : ℕ := 0
  sendCount : ℕ := 0
  recvSize : ℕ := 0
  recvCount : ℕ := 0

/-- The difference stored for a counter by the second of two snapshots. -/
def Quantity.since (q : Quantity) (size count : ℕ) : Quantity :=
  ⟨wsub size q.size, wsub count q.count⟩

/-- `Sandbox::resourceSnapshot`. -/
def resourceSnapshot (m : Memory σ) (n : NetworkCounters) (s : ResourceSnapshot) :
    Memory σ × ResourceSnapshot :=
  let m := if s.initialized then m else m.resetMaxAllocation
  (m,
    { initialized := true
      allocate := s.allocate.since m.allocateSize m.allocateCount
      deallocate := s.deallocate.since m.freeSize m.freeCount
      max := ⟨m.maxAllocate, m.maxAllocateCount⟩
      send := s.send.since n.sendSize n.sendCount
      receive := s.receive.since n.recvSize n.recvCount })

/-- The part of a `UnitTest` that deals with its resources. -/
structure UnitTest where
  ignoreMemoryLeak : Bool := false
  memoryBytesLimit : ℕ := 2 ^ 64 - 1
  memoryBlocksLimit : ℕ := 2 ^ 64 - 1
  resourceSnapshotBodyOnly : Bool := false
  status : Status := .pending
  usedResources : ResourceSnapshot := {}
  errors : List String := []

namespace UnitTest

/-- The condition of the first test in `_checkMemoryLeak`. -/
def leakDetected (t : UnitTest) : Bool :=
  !t.ignoreMemoryLeak && decide (t.usedResources.deallocate.size < t.usedResources.allocate.size)

/-- A status set together with an error. -/
def flag (t : UnitTest) (status : Status) (msg : String) : UnitTest :=
  { t with status := status, errors := t.errors ++ [msg] }

/-- `UnitTest::_checkMemoryLeak`; `memoryReport` is what the sandbox reports about its blocks. -/
def checkMemoryLeak (formatSize : ℕ → String) (memoryReport : String) (t : UnitTest) : UnitTest :=
  let used := t.usedResources
  let t := if t.leakDetected then
      t.flag .passWithMemoryLeak ("WARNING - possible memory leak detected: "
        ++ formatSize (wsub used.allocate.size used.deallocate.size) ++ " ("
        ++ toString (wsub used.allocate.count used.deallocate.count)
        ++ " block(s)) difference." ++ memoryReport)
    else t
  let t := if t.memoryBytesLimit < used.max.size then
      t.flag .memoryLimitExceeded ("WARNING - exceeded memory limit of "
        ++ formatSize t.memoryBytesLimit ++ " bytes")
    else t
  if t.memoryBlocksLimit < used.max.count then
    t.flag .memoryLimitExceeded ("WARNING - exceeded memory limit of "
      ++ toString t.memoryBlocksLimit ++ " blocks")
  else t

/-- The snapshot taken at one end of the window. -/
def snapshot (t : UnitTest) (m : Memory σ) (n : NetworkCounters) : Memory σ × UnitTest :=
  let r := resourceSnapshot m n t.usedResources
  (r.1, { t with usedResources := r.2 })

/-- The function that `_driverRun` runs in the sandbox, up to the times it takes; `n` and `n'` are
the network counters at the two ends of the window. -/
def driverBody (ex : Exemptions σ) (t : UnitTest) (m : Memory σ) (n n' : NetworkCounters)
    (onInit body onComplete : List (Event σ)) : Memory σ × UnitTest :=
  let t := { t with status := .fail }
  let r := if !t.resourceSnapshotBodyOnly then t.snapshot m n else (m, t)
  let m := r.1.events ex onInit
  let r := if t.resourceSnapshotBodyOnly then r.2.snapshot m n else (m, r.2)
  let m := r.1.events ex body
  let r := if t.resourceSnapshotBodyOnly then r.2.snapshot m n' else (m, r.2)
  let m := r.1.events ex onComplete
  let r := if !t.resourceSnapshotBodyOnly then r.2.snapshot m n' else (m, r.2)
  (r.1, { r.2 with status := .pass })

end UnitTest

end Dtest
