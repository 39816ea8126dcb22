/-
# Building an installation on a disk

`execute` of `src/kernel/installer/factory.cpp` turns a disk into a bootable one. It
withdraws the old partition table, clears the new ESP, publishes the new table, lets two
builders fill the file systems, checks everything and in the end writes one sector, the
root binding, that makes the loader accept the disk.

The device has a cache: a write that was not flushed may or may not survive a power
failure, each sector for itself. Whether a request succeeds is decided by an
environment, and a write that fails may have reached the cache in part. The builders and
the verifiers are part of the environment too: a builder makes any requests inside its
window, of sectors that are no root binding, and a verifier makes any reads through the
context, and both report what they like.

Offsets and sizes are in sectors. Each request is recorded with the device as it was
after it; no function of the source reads these records.
-/

import OpenXJ380.Installer.DiskLayout
import OpenXJ380.Protocol.Outcome
import OpenXJ380.Storage.Disk

namespace OpenXJ380.Installer

open Data Storage Protocol
open Block (zeros)

def rootBindingSize : Nat := 96

/-- `XJROOT01` -/
def rootBindingMagic : List UInt8 := [0x58, 0x4a, 0x52, 0x4f, 0x4f, 0x54, 0x30, 0x31]

def rootBindingCrc32c (bytes : List UInt8) : UInt32 := crc32c 0xffffffff bytes ^^^ 0xffffffff

/-- `xj_root_binding_valid`, for the descriptor at the start of a sector. -/
def rootBindingValid (sector : Sector) : Bool :=
  sector.equal 0 rootBindingMagic && sector.little 8 4 == 1 && sector.little 12 4 == rootBindingSize &&
    sector.little 80 8 != 0 && (rootBindingCrc32c (sector.slice 0 92)).toNat == sector.little 92 4

structure FactoryStatus where
  ioStarted : Bool := false
  ioFailed : Bool := false
  quarantined : Bool := false
  activationAttempted : Bool := false
  activationDurable : Bool := false
  complete : Bool := false

structure Medium where
  /-- What survives any power failure. -/
  durable : Nat → Sector
  /-- The sectors written since the last flush, oldest first. -/
  pending : List (Nat × Sector)
  /-- How many flushes have completed. -/
  flushes : Nat

def Medium.view (medium : Medium) : Nat → Sector := overlay medium.pending medium.durable

inductive Request
  | read (lba count : Nat)
  | write (lba : Nat) (data : List Sector)
  | flush

/-- The sectors of a write with their addresses. -/
def numbered (lba : Nat) (data : List Sector) : List (Nat × Sector) :=
  data.mapIdx fun i sector => (lba + i, sector)

/-- A write that fails may have reached the cache in part. -/
def Medium.perform (medium : Medium) (request : Request) (succeeds : Bool) (kept : Nat → Bool) :
    Medium :=
  match request, succeeds with
  | .read _ _, _ => medium
  | .write lba data, true => { medium with pending := medium.pending ++ numbered lba data }
  | .write lba data, false =>
    { medium with
      pending := medium.pending ++ (numbered lba data).filter fun write => kept write.1 }
  | .flush, true => ⟨medium.view, [], medium.flushes + 1⟩
  | .flush, false => medium

structure Answer where
  /-- What `ready` finds out about the lease and the device. -/
  ready : Bool
  succeeds : Bool
  kept : Nat → Bool

/-- A sector that is no root binding. -/
abbrev PlainSector : Type := { sector : Sector // rootBindingValid sector = false }

inductive BuildRequest
  | write (offset : Nat) (data : List PlainSector)
  | flush

structure BuildStep where
  request : BuildRequest
  succeeds : Bool
  kept : Nat → Bool

/-- What a builder does and reports. -/
structure Build where
  steps : List BuildStep
  error : Option Errno
  complete : Bool
  quarantined : Bool
  ioFailed : Bool

structure RootVerification where
  reads : List (Nat × Nat)
  error : Option Errno
  complete : Bool
  ioFailed : Bool
  recordsVerified : Nat
  dataBytesVerified : Nat

structure EspVerification where
  reads : List (Nat × Nat)
  error : Option Errno
  complete : Bool
  ioFailed : Bool
  publicationReady : Bool
  sectorOffset : Nat
  sector : Sector

structure Environment where
  answers : Nat → Answer
  rootBuild : Build
  espBuild : Build
  rootVerification : RootVerification
  espVerification : EspVerification

inductive FactoryPhase
  | published | initialFlush | espInvalidated | gptWritten | gptVerified | rootBuilt | espBuilt
  | rootVerified | espVerified | activationAttempted | activationDurable

inductive Outcome
  | refused | failed | done
  deriving DecidableEq

structure Entry where
  /-- The request came from the context and not from a builder. -/
  direct : Bool
  request : Request
  outcome : Outcome
  medium : Medium
  activationAttempted : Bool

structure Machine where
  medium : Medium
  status : FactoryStatus
  phase : FactoryPhase
  readBytes : Nat
  writtenBytes : Nat
  /-- How many requests the context has made. -/
  clock : Nat
  trace : List Entry

/-- What `preflight` leaves behind. -/
structure FactoryContext where
  options : DiskLayoutOptions
  layout : DiskLayout
  planned : diskLayoutPlan options = .ok layout
  gpt : DiskLayoutWorkspace
  built : diskLayoutBuild layout = .ok gpt
  packageRecords : Nat
  packageDataBytes : Nat

abbrev FactoryM : Type → Type := EStateM Errno Machine

namespace FactoryContext

variable (context : FactoryContext) (env : Environment)

def lastLba : Nat := context.layout.totalSectors - 1

def espSectors : Nat := context.layout.espLastLba - context.layout.espFirstLba + 1

def rootSectors : Nat := context.layout.rootLastLba - context.layout.rootFirstLba + 1

def phase (value : FactoryPhase) : FactoryM Unit := modify fun machine => { machine with phase := value }

/-- A request that goes through reaches the device; whatever goes wrong, the context never
makes another one. -/
def issue (request : Request) (inRange : Bool) : FactoryM Bool := fun machine =>
  let answer := env.answers machine.clock
  let admitted := !machine.status.ioFailed && answer.ready && inRange
  let succeeds := admitted && answer.succeeds
  let medium :=
    if admitted then machine.medium.perform request answer.succeeds answer.kept else machine.medium
  let outcome := if admitted then if answer.succeeds then .done else .failed else .refused
  let status :=
    { machine.status with
      ioStarted := machine.status.ioStarted || admitted
      ioFailed := machine.status.ioFailed || !succeeds }
  let entry := ⟨true, request, outcome, medium, machine.status.activationAttempted⟩
  .ok succeeds
    { machine with
      medium := medium, status := status, clock := machine.clock + 1
      trace := machine.trace ++ [entry] }

def inRange (lba count : Nat) : Bool :=
  lba ≤ context.layout.totalSectors && count ≤ context.layout.totalSectors - lba

def read (lba count : Nat) : FactoryM (Option (List Sector)) := do
  if ← issue env (.read lba count) (context.inRange lba count) then
    modify fun machine => { machine with readBytes := machine.readBytes + diskSectorBytes * count }
    let machine ← get
    return some ((List.range count).map fun i => machine.medium.view (lba + i))
  else return none

def write (lba : Nat) (data : List Sector) : FactoryM Bool := do
  let done ← issue env (.write lba data) (context.inRange lba data.length)
  if done then
    modify fun machine =>
      { machine with writtenBytes := machine.writtenBytes + diskSectorBytes * data.length }
  return done

def flush : FactoryM Bool := issue env .flush true

/-- A window's read: one that leaves the window fails the context like any other. -/
def windowRead (first sectors offset count : Nat) : FactoryM Bool :=
  issue env (.read (first + offset) count)
    (offset ≤ sectors && count ≤ sectors - offset && context.inRange (first + offset) count)

def demand (program : FactoryM Bool) : FactoryM Unit := do
  if ← program then return () else throw .eio

def fetch (lba count : Nat) : FactoryM (List Sector) := do
  match ← context.read env lba count with
  | some data => return data
  | none => throw .eio

/-- The error that a builder or a verifier returned, or one for an incomplete result. -/
def insist (error : Option Errno) (complete : Bool) : FactoryM Unit :=
  match error with
  | some error => throw error
  | none => if complete then pure () else throw .eio

section

variable (first sectors : Nat)

/-- One request of a builder; the window refuses what lies outside of it. -/
def buildStep (machine : Machine) (step : BuildStep) : Machine :=
  let request : Request :=
    match step.request with
    | .write offset data => .write (first + offset) (data.map Subtype.val)
    | .flush => .flush
  let inside : Bool :=
    match step.request with
    | .write offset data => offset ≤ sectors && data.length ≤ sectors - offset
    | .flush => true
  let medium :=
    if inside then machine.medium.perform request step.succeeds step.kept else machine.medium
  let outcome := if inside then if step.succeeds then .done else .failed else .refused
  let entry := ⟨false, request, outcome, medium, machine.status.activationAttempted⟩
  { machine with medium := medium, trace := machine.trace ++ [entry] }

def runBuilder (build : Build) : FactoryM Unit := do
  modify fun machine => build.steps.foldl (buildStep first sectors) machine
  modify fun machine =>
    let status := { machine.status with ioFailed := machine.status.ioFailed || build.ioFailed }
    { machine with status := status }
  insist build.error (build.complete && !build.quarantined && !build.ioFailed)

/-- The reads of a verifier, which may go on after one that failed. -/
def runReads (reads : List (Nat × Nat)) (ioFailed : Bool) : FactoryM Unit := do
  reads.forM fun span => do
    let _ ← context.windowRead env first sectors span.1 span.2
  modify fun machine =>
    let status := { machine.status with ioFailed := machine.status.ioFailed || ioFailed }
    { machine with status := status }

end

/-- Withdraw the old table: no header is left once this is flushed. -/
def withdraw : FactoryM Unit := do
  phase .initialFlush
  demand (flush env)
  demand (context.write env 1 [zeros])
  demand (context.write env context.lastLba [zeros])
  demand (context.write env 0 [zeros])
  demand (flush env)
  let mbr ← context.fetch env 0 1
  let primary ← context.fetch env 1 1
  let backup ← context.fetch env context.lastLba 1
  if mbr ≠ [zeros] ∨ primary ≠ [zeros] ∨ backup ≠ [zeros] then throw .eio

/-- Clear the new ESP, 65536 bytes at a time. -/
def clearEsp : FactoryM Unit := do
  (List.range ((context.espSectors + 127) / 128)).forM fun k =>
    demand (context.write env (context.layout.espFirstLba + 128 * k) (List.replicate 128 zeros))
  demand (flush env)
  phase .espInvalidated

def tableToSectors (table : Table) : List Sector :=
  (List.range tableSectors).map fun k i => table.byte (k * diskSectorBytes + i.val)

def tableOfSectors (sectors : List Sector) : Table :=
  fun i => (sectors.getD (i.val / diskSectorBytes) zeros).byte (i.val % diskSectorBytes)

def publishTable : FactoryM Unit := do
  let layout := context.layout
  let gpt := context.gpt
  demand (context.write env layout.backupEntriesLba (tableToSectors gpt.entries))
  demand (context.write env context.lastLba [gpt.backupHeader])
  demand (context.write env layout.primaryEntriesLba (tableToSectors gpt.entries))
  demand (context.write env 1 [gpt.primaryHeader])
  demand (context.write env 0 [gpt.mbr])
  demand (flush env)
  phase .gptWritten
  let mbr ← context.fetch env 0 1
  let primary ← context.fetch env 1 1
  let entries ← context.fetch env layout.primaryEntriesLba tableSectors
  let backup ← context.fetch env context.lastLba 1
  let backupEntries ← context.fetch env layout.backupEntriesLba tableSectors
  let readback : DiskLayoutReadback :=
    { mbr := mbr.headD zeros, primaryHeader := primary.headD zeros
      primaryEntries := tableOfSectors entries, backupHeader := backup.headD zeros
      backupEntries := tableOfSectors backupEntries }
  match diskLayoutValidate layout readback with
  | .error error => throw error
  | .ok _ => phase .gptVerified

def build : FactoryM Unit := do
  runBuilder context.layout.rootFirstLba context.rootSectors env.rootBuild
  phase .rootBuilt
  runBuilder context.layout.espFirstLba context.espSectors env.espBuild
  phase .espBuilt

def verify : FactoryM Unit := do
  let root := env.rootVerification
  context.runReads env context.layout.rootFirstLba context.rootSectors root.reads root.ioFailed
  insist root.error (root.complete && !root.ioFailed &&
    root.recordsVerified == context.packageRecords &&
    root.dataBytesVerified == context.packageDataBytes)
  phase .rootVerified
  let esp := env.espVerification
  context.runReads env context.layout.espFirstLba context.espSectors esp.reads esp.ioFailed
  insist esp.error (esp.complete && esp.publicationReady)
  if esp.sectorOffset ≥ context.espSectors then throw .euclean
  phase .espVerified

/-- Everything is flushed before the first request that can make the binding valid. -/
def activate : FactoryM Unit := do
  demand (flush env)
  phase .activationAttempted
  modify fun machine => { machine with status := { machine.status with activationAttempted := true } }
  let activation := context.layout.espFirstLba + env.espVerification.sectorOffset
  demand (context.write env activation [env.espVerification.sector])
  demand (flush env)
  let data ← context.fetch env activation 1
  if data ≠ [env.espVerification.sector] then throw .eio
  phase .activationDurable
  modify fun machine => { machine with status := { machine.status with activationDurable := true } }

def execute : FactoryM Unit := do
  context.withdraw env
  context.clearEsp env
  context.publishTable env
  context.build env
  context.verify env
  context.activate env

/-- A run on a device as it was found. -/
def installed (old : Medium) : Machine :=
  match context.execute env ⟨old, {}, .published, 0, 0, 0, []⟩ with
  | .ok _ machine => machine
  | .error _ machine => machine

end FactoryContext

end OpenXJ380.Installer
