/-
# The store of special permissions

A user's decisions are kept in two files, the primary one and a backup, and the snapshot
that was loaded or saved last stays in memory until the system stops. A save writes the
snapshot it starts from to the backup and then the new one to the primary file. Each of
the two is written in place: the commit mark is cleared, the rest is written, and the mark
is put back.

A save is performed on a volume with a budget of its own. It may be cut off anywhere, by
a write that fails or by a crash; after a failure the next save is made from the same
memory, after a crash the memory is empty. The directories exist, memory is not short, and
what is on the volume can be read.
-/

import OpenXJ380.Protocol.Run
import OpenXJ380.Storage.Files
import OpenXJ380.User.DecisionFormat

namespace OpenXJ380.User.Decisions

open Data Storage Protocol

/-- The two files, `permission.dat` and `permission.dat.backup`. -/
inductive Copy
  | primary
  | backup
  deriving DecidableEq, Repr

structure Store where
  volume : Volume Copy
  cache : Option Snapshot

abbrev StoreM : Type → Type := EStateM Errno Store

def onFiles {α : Type} (program : FileM Copy α) : StoreM α := fun store =>
  match program store.volume with
  | .ok value volume => .ok value { store with volume }
  | .error error volume => .error error { store with volume }

/-- A user name that can stand in a path. -/
def component (user : List UInt8) : Bool :=
  !user.isEmpty && decide (user.length < 64) && user != [0x2e] && user != [0x2e, 0x2e] &&
    user.all fun byte => decide (32 ≤ byte.toNat) && byte != 0x2f && byte != 0x5c

section

variable (user : List UInt8)

/-- The snapshot of a user for whom nothing is stored. -/
def Snapshot.initial : Snapshot := ⟨1, user ++ List.replicate (64 - user.length) 0, []⟩

def readCopy : Option (List UInt8) → Except Errno Snapshot
  | none => .error .enoent
  | some data =>
    match readSnapshot user data with
    | none => .error .eio
    | some snapshot => .ok snapshot

/-- The newer of two readable copies, or the readable one. If there is none, a user whose
files are both missing starts anew. -/
def selectCopy : Except Errno Snapshot → Except Errno Snapshot → Except Errno Snapshot
  | .ok primary, .ok backup =>
    .ok (if backup.generation > primary.generation then backup else primary)
  | .ok primary, .error _ => .ok primary
  | .error _, .ok backup => .ok backup
  | .error first, .error second =>
    if first ≠ .enoent ∨ second ≠ .enoent then .error .eio else .ok (.initial user)

def loadFiles (files : Copy → Option (List UInt8)) : Except Errno Snapshot :=
  selectCopy user (readCopy user (files .primary)) (readCopy user (files .backup))

def loadStore : StoreM Snapshot := fun store =>
  if !component user then .error .einval store
  else
    match store.cache with
    | some entry => .ok entry store
    | none =>
      match loadFiles user store.volume.files with
      | .error error => .error error store
      | .ok entry => .ok entry { store with cache := some entry }

end

def invalidMark : List UInt8 := encodeLE 4 0
def commitMark : List UInt8 := encodeLE 4 xspStoreCommitted

/-- The header with the commit mark cleared. -/
def pendingHeader (data : List UInt8) : List UInt8 :=
  overwritten (data.take headerSize) commitOffset invalidMark

section

variable (path : Copy)

def ensureFile : FileM Copy Unit := do
  if (← content path) = none then mkfile path

/-- The file is read again and has to be what was written. -/
def checkCopy (user data : List UInt8) : FileM Copy Unit := do
  let checked ← content path
  if checked.bind (readSnapshot user) = none ∨ checked ≠ some data then throw .eio

def writeBody (data : List UInt8) : FileM Copy Unit := do
  if data.length > headerSize then write path headerSize (data.drop headerSize)

def writeSnapshot (user data : List UInt8) : FileM Copy Unit := do
  ensureFile path
  resize path data.length
  write path commitOffset invalidMark
  write path 0 (pendingHeader data)
  writeBody path data
  write path commitOffset commitMark
  sync
  checkCopy path user data

end

/-- The part of `special_permissions_save` for a decision that is still open. -/
def recordDecision (user : List UInt8) (entry : Snapshot) (path : List UInt8) (spid : Nat)
    (approved : Bool) : StoreM Unit := do
  let append := entry.recordOf path = none
  let bytes := headerSize + entry.body.length +
    (if append then recordSize + (path.length + 1) else 0)
  if append ∧ entry.records.length = xspMaxApps ∨ entry.generation = 2 ^ 64 - 1 ∨
      bytes > xspStoreLimit then throw .enospc
  let next := entry.settle path spid approved
  onFiles (writeSnapshot .backup user entry.encode)
  onFiles (writeSnapshot .primary user next.encode)
  modify fun store => { store with cache := some next }
  if approved then pure () else throw .eacces

/-- Returns normally for a granted permission and with `eacces` for a refused one. -/
def specialPermissionsSave (user executable : List UInt8) (spid : Nat) (approved : Bool) :
    StoreM Unit := do
  let path := cString executable
  if path.head? ≠ some 0x2f ∨ path.length ≥ xspAppPathBytes ∨ spid < 1 ∨ spid > 3 then throw .einval
  let entry ← loadStore user
  match entry.decision path spid with
  | .granted => pure ()
  | .refused => throw .eacces
  | .undecided => recordDecision user entry path spid approved

structure Decision where
  path : List UInt8
  spid : Nat
  approved : Bool
  deriving DecidableEq, Repr

/-- What is on the volume and in memory, and what callers were told. -/
structure History where
  files : Copy → Option (List UInt8)
  cache : Option Snapshot
  /-- A save was cut off since the system started. -/
  disturbed : Bool
  acknowledged : List Decision
  interrupted : List Decision

inductive Action
  | save (executable : List UInt8) (spid : Nat) (approved : Bool) (budget : Option Nat)
  | load
  | reboot

namespace History

def empty : History := ⟨fun _ => none, none, false, [], []⟩

section

variable (history : History)
include history

def keep (store : Store) : History :=
  { history with files := store.volume.files, cache := store.cache }

variable (decision : Decision)

def acknowledge : History :=
  { history with acknowledged := decision :: history.acknowledged }

def interrupt : History :=
  { history with disturbed := true, interrupted := decision :: history.interrupted }

/-- A save that returned with an error. -/
def failed : Errno → Store → History
  | .eacces, store => (history.keep store).acknowledge { decision with approved := false }
  | .eio, store => (history.keep store).interrupt decision
  | _, store => history.keep store

end

variable (user : List UInt8)

def step (history : History) : Action → History
  | .save executable spid approved budget =>
    let path := cString executable
    match specialPermissionsSave user executable spid approved
        ⟨⟨history.files, budget⟩, history.cache⟩ with
    | .ok _ store => (history.keep store).acknowledge ⟨path, spid, true⟩
    | .error error store => history.failed ⟨path, spid, approved⟩ error store
  | .load =>
    match loadStore user ⟨⟨history.files, none⟩, history.cache⟩ with
    | .ok _ store => history.keep store
    | .error _ store => history.keep store
  | .reboot => { history with cache := none, disturbed := false }

/-- A save that may be cut off begins with a readable primary copy and in a system in which
no save was cut off before. -/
def Orderly (history : History) : Action → Prop
  | .save _ _ _ budget =>
    budget = none ∨ history.disturbed = false ∧
      ((history.files .primary).bind (readSnapshot user)).isSome = true
  | _ => True

end History

end OpenXJ380.User.Decisions
