/-
# The block-device access registry

`driver/block_access.cpp` keeps one static table of registered devices, one of
leases and one of in-flight I/O tickets. Every public function runs under the
registry lock, so it is modelled as one total transition of the `Registry`.

Pointers to thread control blocks are only compared, never followed, except by
the reaper, which asks the scheduler whether the owner has stopped. A task is
therefore an address with a thread id, the null task is `none`, and the reaper
takes the answer of the scheduler as an argument. Arithmetic is that of the
source: unsigned and modulo `2 ^ 64`.
-/

import OpenXJ380.Kernel.Errno

namespace OpenXJ380.Block

open Function

abbrev BlockAccessToken := UInt64

def kDevices : Nat := 256
def kLeases : Nat := 64
def kTickets : Nat := 128

/-- A byte range of a registered device, in coordinates of the physical disk. -/
structure BlockExtent where
  device : UInt32 := 0
  physicalDevice : UInt32 := 0
  generation : UInt64 := 0
  physicalGeneration : UInt64 := 0
  start : UInt64 := 0
  bytes : UInt64 := 0
  deriving DecidableEq

structure Registration where
  extent : BlockExtent := {}
  valid : Bool := false
  published : Bool := false
  flushSupported : Bool := false
  deriving DecidableEq

/-- One slot of the lease or ticket table. A zero token marks a free slot. -/
structure Access where
  extent : BlockExtent := {}
  token : BlockAccessToken := 0
  owner : Option Nat := none
  tid : UInt64 := 0
  exclusive : Bool := false
  poisoned : Bool := false
  scan : Bool := false
  deriving DecidableEq

/-- The identity of a live thread control block: its address and thread id. -/
structure Task where
  address : Nat
  tid : UInt64
  deriving DecidableEq

structure Registry where
  devices : Fin kDevices → Registration
  leases : Fin kLeases → Access
  tickets : Fin kTickets → Access
  management : Access
  managementDepth : UInt32
  nextIdentity : UInt64
  ioAbandoned : Bool

/-- The zero-initialised static tables. -/
def Registry.initial : Registry where
  devices _ := {}
  leases _ := {}
  tickets _ := {}
  management := {}
  managementDepth := 0
  nextIdentity := 1
  ioAbandoned := false

section

variable (a b : BlockExtent)

def sameDisk : Bool :=
  a.physicalDevice == b.physicalDevice && a.physicalGeneration == b.physicalGeneration

def overlaps : Bool := sameDisk a b && a.bytes != 0 && b.bytes != 0 &&
    decide (a.start < b.start + b.bytes) && decide (b.start < a.start + a.bytes)

def contains : Bool :=
  sameDisk a b && decide (a.start ≤ b.start) && decide (b.start - a.start ≤ a.bytes) &&
    decide (b.bytes ≤ a.bytes - (b.start - a.start))

def exact : Bool := a.device == b.device && a.generation == b.generation && sameDisk a b &&
    a.start == b.start && a.bytes == b.bytes

end

def Access.live (entry : Access) : Bool := entry.token != 0

def taskAddress (task : Option Task) : Option Nat := task.map Task.address

def taskTid (task : Option Task) : UInt64 := task.elim 0 Task.tid

def owner (entry : Access) (task : Option Task) : Bool :=
  entry.owner == taskAddress task && entry.tid == taskTid task

/-- `stopped` answers, for the address of a live control block, whether its task
is dead or out and no longer referenced by the scheduler. -/
def ownerStopped (stopped : Nat → Bool) (entry : Access) : Bool :=
  if !entry.live || entry.poisoned then false
  else entry.owner.elim false stopped

/-- The entry belongs to the control block that was at this address under this
thread id. -/
def ownedByPointer (task : Nat) (tid : UInt64) (entry : Access) : Bool :=
  entry.live && entry.owner == some task && entry.tid == tid

/-- The entry of a granted lease; a shared lease belongs to no task. -/
def leaseEntry (task : Option Task) (extent : BlockExtent) (exclusive scan : Bool)
    (token : BlockAccessToken) : Access where
  extent := extent
  token := token
  owner := if exclusive then taskAddress task else none
  tid := if exclusive then taskTid task else 0
  exclusive := exclusive
  poisoned := false
  scan := scan

/-- The entry of an I/O request in flight. -/
def ticketEntry (task : Option Task) (extent : BlockExtent) (token : BlockAccessToken) :
    Access where
  extent := extent
  token := token
  owner := taskAddress task
  tid := taskTid task
  exclusive := false
  poisoned := false
  scan := false

def Registration.retire (entry : Registration) : Registration :=
  { entry with valid := false, published := false }

def Access.poison (entry : Access) : Access := { entry with poisoned := true }

/-- A loop over a table that returns at the first entry meeting `blocks`, with
the error of that entry: a poisoned entry fails, any other one is busy. -/
def firstConflict {n : Nat} (table : Fin n → Access) (blocks : Access → Bool) : Option Errno :=
  ((List.finRange n).find? fun i => blocks (table i)).map fun i =>
    if (table i).poisoned then .eio else .ebusy

/-- The first free slot of a table. -/
def freeSlot {n : Nat} (table : Fin n → Access) : Option (Fin n) :=
  (List.finRange n).find? fun i => !(table i).live

/-- The first slot of a table that carries a nonzero token. -/
def slotOf {n : Nat} (table : Fin n → Access) (token : BlockAccessToken) : Option (Fin n) :=
  (List.finRange n).find? fun i => (table i).token == token && token != 0

/-- Poison the entries of a table that meet a test and keep all the others. -/
def poisonWhere {n : Nat} (table : Fin n → Access) (test : Access → Bool) (i : Fin n) : Access :=
  if test (table i) then (table i).poison else table i

namespace Registry

variable (s : Registry)

section

variable (device : UInt32)

/-- The registration stored for a device number; outside the table there is none. -/
def deviceAt : Registration :=
  if h : device.toNat < kDevices then s.devices ⟨device.toNat, h⟩ else {}

def setDevice (entry : Registration) : Registry :=
  if h : device.toNat < kDevices then
    { s with devices := update s.devices ⟨device.toNat, h⟩ entry }
  else s

/-- Draw the next identity; zero means that the counter is exhausted. -/
def identity : UInt64 × Registry :=
  if s.nextIdentity == 0 - 1 then (0, s)
  else (s.nextIdentity, { s with nextIdentity := s.nextIdentity + 1 })

def resolve (generation : UInt64) : Option BlockExtent :=
  if kDevices ≤ device.toNat || !(s.deviceAt device).valid || !(s.deviceAt device).published then
    none
  else
    let entry := (s.deviceAt device).extent
    let physical := s.deviceAt entry.physicalDevice
    if generation != 0 && entry.generation != generation then none
    else if !physical.valid || !physical.published ||
        physical.extent.generation != entry.physicalGeneration then none
    else some entry

end

/-- Does any lease or ticket stand in the way of changing `extent`?  While a
device is being scanned its own task may register slices inside the scan. -/
def available (task : Option Task) (extent : BlockExtent) (registration : Bool) : Option Errno :=
  (firstConflict s.leases fun entry => entry.live && overlaps entry.extent extent &&
      (entry.poisoned ||
        !(registration && entry.scan && owner entry task && contains entry.extent extent))).or
    (firstConflict s.tickets fun entry => entry.live && overlaps entry.extent extent)

section

variable (task : Option Task)

def registerWhole (device : UInt32) (bytes : UInt64)
    (flushSupported : Bool) : Except Errno Registry :=
  if kDevices ≤ device.toNat || bytes == 0 then .error .einval
  else if (s.deviceAt device).valid then
    match s.available task (s.deviceAt device).extent false with
    | some error => .error error
    | none => .error .eexist
  else
    let (generation, next) := s.identity
    if generation == 0 then .error .eoverflow
    else .ok (next.setDevice device
      { extent := ⟨device, device, generation, generation, 0, bytes⟩
        valid := true, published := false, flushSupported })

def registerSlice (device parent : UInt32) (offset bytes : UInt64) : Except Errno Registry :=
  if kDevices ≤ device.toNat || bytes == 0 then .error .einval
  else if (s.deviceAt device).valid then .error .eexist
  else match s.resolve parent 0 with
    | none => .error .enodev
    | some base =>
      if base.bytes < offset || base.bytes - offset < bytes then .error .einval
      else
        let extent : BlockExtent := ⟨device, base.physicalDevice, 0,
          base.physicalGeneration, base.start + offset, bytes⟩
        match s.available task extent true with
        | some error => .error error
        | none =>
          let (generation, next) := s.identity
          if generation == 0 then .error .eoverflow
          else .ok (next.setDevice device
            { extent := { extent with generation }
              valid := true, published := false, flushSupported := false })

variable (device : UInt32)

def publishDevice (generation : UInt64) : Except Errno Registry :=
  if kDevices ≤ device.toNat || !(s.deviceAt device).valid ||
      (s.deviceAt device).extent.generation != generation then .error .enodev
  else .ok (s.setDevice device { s.deviceAt device with published := true })

/-- Unregistering the physical disk withdraws every slice of it as well. -/
def unregister : Except Errno Registry :=
  if kDevices ≤ device.toNat || !(s.deviceAt device).valid then .error .enodev
  else
    let extent := (s.deviceAt device).extent
    match s.available task extent false with
    | some error => .error error
    | none =>
      let retired := s.setDevice device ((s.deviceAt device).retire)
      if extent.device == extent.physicalDevice then
        .ok { retired with devices := fun i =>
          let entry := retired.devices i
          if entry.valid && sameDisk entry.extent extent then entry.retire
          else entry }
      else .ok retired

end

section

variable (task : Option Task)

def claim (extent : BlockExtent) (exclusive scan : Bool) :
    Except Errno (BlockAccessToken × Registry) :=
  if s.ioAbandoned then .error .eio
  else match s.resolve extent.device extent.generation with
    | none => .error .enodev
    | some current =>
      if !exact extent current then .error .enodev
      else if exclusive && !scan && task.isNone then .error .eperm
      else
        match (firstConflict s.leases fun entry =>
            entry.live && overlaps entry.extent extent).or
          (firstConflict s.tickets fun entry =>
            entry.live && overlaps entry.extent extent) with
        | some error => .error error
        | none =>
          match freeSlot s.leases with
          | none => .error .enospc
          | some slot =>
            let (value, next) := s.identity
            if value == 0 then .error .eoverflow
            else
              let entry := leaseEntry task extent exclusive scan value
              .ok (value, { next with leases := update next.leases slot entry })

section

variable (token : BlockAccessToken)

def release : Except Errno Registry :=
  match slotOf s.leases token with
  | none => .error .einval
  | some slot =>
    if (s.leases slot).poisoned then .error .eio
    else if (s.leases slot).exclusive && !owner (s.leases slot) task then .error .eperm
    else .ok { s with leases := update s.leases slot {} }

def poison : Registry :=
  { s with
    leases := poisonWhere s.leases fun entry => entry.token == token && token != 0
    tickets := poisonWhere s.tickets fun entry => entry.token == token && token != 0 }

end

def scanBegin (device : UInt32) : Except Errno (BlockAccessToken × Registry) :=
  match s.resolve device 0 with
  | none => .error .enodev
  | some extent =>
    if extent.device != extent.physicalDevice then .error .einval
    else s.claim task extent true true

end

def ioBegin (task : Option Task) (device : UInt32) (generation offset bytes : UInt64) :
    Except Errno (BlockAccessToken × Registry) :=
  if s.ioAbandoned then .error .eio
  else match s.resolve device generation with
    | none => .error .enodev
    | some base =>
      if base.bytes < offset || base.bytes - offset < bytes then .error .einval
      else
        let extent : BlockExtent := { base with start := base.start + offset, bytes }
        match (firstConflict s.leases fun entry => entry.live && overlaps entry.extent extent &&
            (entry.poisoned ||
              (entry.exclusive && (!owner entry task || !contains entry.extent extent)))).or
          (firstConflict s.tickets fun entry =>
            entry.live && entry.poisoned && overlaps entry.extent extent) with
        | some error => .error error
        | none =>
          match freeSlot s.tickets with
          | none => .error .enospc
          | some slot =>
            let (value, next) := s.identity
            if value == 0 then .error .eoverflow
            else
              let entry := ticketEntry task extent value
              .ok (value, { next with tickets := update next.tickets slot entry })

def flushBegin (task : Option Task) (device : UInt32) (generation : UInt64) :
    Except Errno (BlockAccessToken × Registry) :=
  match s.resolve device generation with
  | none => .error .enodev
  | some extent => s.ioBegin task device extent.generation 0 extent.bytes

/-- The first unpoisoned ticket carrying the token is given back. -/
def ioEnd (token : BlockAccessToken) : Registry :=
  match (List.finRange kTickets).find? fun i =>
      (s.tickets i).token == token && token != 0 && !(s.tickets i).poisoned with
  | none => s
  | some slot => { s with tickets := update s.tickets slot {} }

def abandonOwner (task : Option Nat) (tid : UInt64) : Registry :=
  match task with
  | none => s
  | some task =>
    { s with
      leases := poisonWhere s.leases fun entry => entry.exclusive && ownedByPointer task tid entry
      tickets := poisonWhere s.tickets (ownedByPointer task tid)
      ioAbandoned := s.ioAbandoned ||
        (List.finRange kTickets).any fun i => ownedByPointer task tid (s.tickets i)
      management := if ownedByPointer task tid s.management then
        s.management.poison else s.management }

def reapAbandoned (stopped : Nat → Bool) : Registry :=
  { s with
    leases := poisonWhere s.leases fun entry => entry.exclusive && ownerStopped stopped entry
    tickets := poisonWhere s.tickets (ownerStopped stopped)
    ioAbandoned := s.ioAbandoned ||
      (List.finRange kTickets).any fun i => ownerStopped stopped (s.tickets i)
    management := if ownerStopped stopped s.management then
      s.management.poison else s.management }

variable (task : Option Task)

def managementBegin : Except Errno (BlockAccessToken × Registry) :=
  if s.management.poisoned then .error .eio
  else if s.management.live then
    if !owner s.management task then .error .ebusy
    else if s.managementDepth == 0 - 1 then .error .eoverflow
    else .ok (s.management.token, { s with managementDepth := s.managementDepth + 1 })
  else
    let (value, next) := s.identity
    if value == 0 then .error .eoverflow
    else .ok (value, { next with
      management := { token := value, owner := taskAddress task, tid := taskTid task
                      exclusive := true }
      managementDepth := 1 })

def managementEnd (token : BlockAccessToken) : Registry :=
  if token != 0 && s.management.token == token && !s.management.poisoned &&
      owner s.management task && s.managementDepth != 0 then
    if s.managementDepth == 1 then { s with management := {}, managementDepth := 0 }
    else { s with managementDepth := s.managementDepth - 1 }
  else s

end Registry

/-- A call of one public function with its arguments. -/
inductive Call
  | registerWhole (device : UInt32) (bytes : UInt64) (flushSupported : Bool)
  | registerSlice (device parent : UInt32) (offset bytes : UInt64)
  | publishDevice (device : UInt32) (generation : UInt64)
  | unregister (device : UInt32)
  | claim (extent : BlockExtent) (exclusive : Bool)
  | release (token : BlockAccessToken)
  | poison (token : BlockAccessToken)
  | ioBegin (device : UInt32) (generation offset bytes : UInt64)
  | flushBegin (device : UInt32) (generation : UInt64)
  | ioEnd (token : BlockAccessToken)
  | scanBegin (device : UInt32)
  | managementBegin
  | managementEnd (token : BlockAccessToken)
  | abandonOwner (task : Option Nat) (tid : UInt64)
  | reapAbandoned (stopped : Nat → Bool)

/-- A public call as one atomic step of the task that makes it. -/
structure Step where
  task : Option Task
  call : Call

namespace Registry

/-- What a call returns: an error, or the token it hands out (zero for calls
that hand out none) together with the registry after it. -/
def execute (s : Registry) (step : Step) : Except Errno (BlockAccessToken × Registry) :=
  match step.call with
  | .registerWhole device bytes flushSupported =>
    (s.registerWhole step.task device bytes flushSupported).map (0, ·)
  | .registerSlice device parent offset bytes =>
    (s.registerSlice step.task device parent offset bytes).map (0, ·)
  | .publishDevice device generation => (s.publishDevice device generation).map (0, ·)
  | .unregister device => (s.unregister step.task device).map (0, ·)
  | .claim extent exclusive => s.claim step.task extent exclusive false
  | .release token => (s.release step.task token).map (0, ·)
  | .poison token => .ok (0, s.poison token)
  | .ioBegin device generation offset bytes => s.ioBegin step.task device generation offset bytes
  | .flushBegin device generation => s.flushBegin step.task device generation
  | .ioEnd token => .ok (0, s.ioEnd token)
  | .scanBegin device => s.scanBegin step.task device
  | .managementBegin => s.managementBegin step.task
  | .managementEnd token => .ok (0, s.managementEnd step.task token)
  | .abandonOwner task tid => .ok (0, s.abandonOwner task tid)
  | .reapAbandoned stopped => .ok (0, s.reapAbandoned stopped)

/-- A refused call leaves the registry as it was. -/
def step (s : Registry) (step : Step) : Registry :=
  match s.execute step with
  | .ok (_, next) => next
  | .error _ => s

end Registry

end OpenXJ380.Block
