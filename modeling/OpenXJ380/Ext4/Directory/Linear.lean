/-
# Directories without an index

The names of a small directory are found by reading all its blocks
(`src/driver/fs/ext4/directory_index.cpp`). A new name goes into the first record with
enough room behind its own name, or into a block that is added; a name is removed by giving
its bytes to the record before it.

What a directory is for is the partial function from names to inodes and types that its
records give, `Directory.lookup`. The three operations are its lookup and its updates at
one name.
-/

import OpenXJ380.Data.Assoc
import OpenXJ380.Data.Checks
import OpenXJ380.Ext4.Directory.Leaf

namespace OpenXJ380.Ext4

open Data

/-- The characters of a string before its end. -/
structure CString where
  bytes : List UInt8
  terminated : 0 ∉ bytes
  deriving DecidableEq

structure DirectoryPosition where
  block : Nat
  number : Nat
  offset : Nat
  previous : Nat
  type : UInt8
  deriving DecidableEq

/-- In place of the record before the first record of a block. -/
def kNoRecord : Nat := 0xffff

def kMaximumDirectoryBlocks : Nat := 128

/-- A directory: fields of its inode and its blocks in logical order. -/
structure Directory (n : Nat) where
  mode : Nat
  flags : Nat
  links : Nat
  blocks : List (Block n)

/-- The inode flag of a directory with an index. -/
def Directory.indexed {n : Nat} (d : Directory n) : Bool := d.flags &&& 0x1000 != 0

/-- What the transaction answers when blocks are read, edited and added. An added block
has the contents that its place on the disk had. -/
structure DirectoryAccess (n : Nat) where
  read : Nat → Option Errno
  edit : Nat → Option Errno
  grow : Except Errno (Block n)

/-- The operations of a directory with an index, and whether the volume has them. -/
structure DirectoryIndex (n : Nat) where
  enabled : Bool
  validate : Directory n → Except Errno Unit
  find : Directory n → CString → Except Errno DirectoryPosition
  insert : Directory n → CString → UInt32 → UInt8 → Except Errno (Directory n)
  convertAndInsert : Directory n → CString → UInt32 → UInt8 → Except Errno (Directory n)

def ordinaryName (name : CString) : Except Errno Unit :=
  if name.bytes = [] ∨ 255 < name.bytes.length then .error .einval
  else if name.bytes = [0x2e] ∨ name.bytes = [0x2e, 0x2e] then .error .einval
  else if 0x2f ∈ name.bytes then .error .einval
  else .ok ()

def nameLength (name : CString) : Except Errno Unit :=
  if 255 < name.bytes.length then .error .enametoolong else ordinaryName name

namespace DirectoryFormat

variable {n : Nat} (f : DirectoryFormat) (access : DirectoryAccess n) (index : DirectoryIndex n)

def nsReadBlock (logical : Nat) (block : Block n) : Except Errno Unit := do
  attempt (access.read logical)
  f.directoryLeafCheck block

def rootRecords (block : Block n) : Bool :=
  block.get32 0 == f.inode && block.get16 4 == 12 && f.nameSize block 0 == 1 &&
    block.byte 8 == 0x2e && (!f.fileType || block.byte 7 == 2) && block.get32 12 != 0 &&
    decide (block.get32 12 ≤ f.inodeCount) && decide (12 ≤ block.get16 16) &&
    f.nameSize block 12 == 2 && block.byte 20 == 0x2e && block.byte 21 == 0x2e &&
    (!f.fileType || block.byte 19 == 2) &&
    (f.inode != 2 || block.get32 12 == 2) && (f.inode == 2 || block.get32 12 != f.inode)

def nsDirectory (d : Directory n) : Except Errno Unit :=
  if d.mode &&& 0o170000 ≠ 0o040000 then .error .enotdir
  else if d.flags &&& (0xffffffff ^^^ (0x80000 ||| 0xc8 ||| 0x10000 ||| 0x1000)) ≠ 0 then
    .error .eopnotsupp
  else if d.links = 0 then .error .enoent
  else if d.links < 2 then .error .eopnotsupp
  else
    match d.blocks with
    | [] => .error .euclean
    | block :: _ =>
      if d.indexed then
        if index.enabled then index.validate d else .error .euclean
      else if kMaximumDirectoryBlocks < d.blocks.length then .error .efbig
      else do
        f.nsReadBlock access 0 block
        if f.rootRecords block then .ok () else .error .euclean

def findInBlock (block : Block n) (logical : Nat) (name : List UInt8) :
    Nat → Nat → Nat → Option DirectoryPosition → Except Errno (Option DirectoryPosition)
  | 0, _, _, found => .ok found
  | rounds + 1, offset, previous, found =>
    let next := offset + block.get16 (offset + 4)
    if f.leafLimit n ≤ offset then .ok found
    else if block.get32 offset ≠ 0 ∧ f.nameSize block offset = name.length ∧
        block.slice (offset + 8) name.length = name then
      if found.isSome then .error .euclean
      else findInBlock block logical name rounds next offset (some ⟨logical, block.get32 offset,
        offset, previous, if f.fileType then block.byte (offset + 7) else 0⟩)
    else findInBlock block logical name rounds next offset found

def findInBlocks (name : List UInt8) :
    List (Block n) → Nat → Option DirectoryPosition → Except Errno (Option DirectoryPosition)
  | [], _, found => .ok found
  | block :: rest, logical, found => do
      f.nsReadBlock access logical block
      let found ← f.findInBlock block logical name n 0 kNoRecord found
      findInBlocks name rest (logical + 1) found

def nsFind (d : Directory n) (name : CString) : Except Errno DirectoryPosition :=
  if name.bytes = [] ∨ 255 < name.bytes.length then .error .einval
  else if d.indexed then index.find d name
  else do
    match ← f.findInBlocks access name.bytes d.blocks 0 none with
    | some position => .ok position
    | none => .error .enoent

/-- A record with room behind its name. -/
structure Slack where
  offset : Nat
  used : Nat
  record : Nat
  deriving DecidableEq

def selectInBlock (block : Block n) (needed : Nat) : Nat → Nat → Option Slack
  | 0, _ => none
  | rounds + 1, offset =>
    let record := block.get16 (offset + 4)
    let used := if block.get32 offset ≠ 0 then recordSize (f.nameSize block offset) else 0
    if f.leafLimit n ≤ offset then none
    else if used + needed ≤ record then some ⟨offset, used, record⟩
    else selectInBlock block needed rounds (offset + record)

def selectBlock (needed : Nat) : List (Block n) → Nat → Except Errno (Option (Nat × Slack))
  | [], _ => .ok none
  | block :: rest, logical => do
      f.nsReadBlock access logical block
      match f.selectInBlock block needed n 0 with
      | some slack => do
          attempt (access.edit logical)
          .ok (some (logical, slack))
      | none => selectBlock needed rest (logical + 1)

/-- Cut the room off a record and fill it with a new one. -/
def splitRecord (name : CString) (child : UInt32) (type : UInt8) (slack : Slack)
    (block : Block n) : Block n :=
  let cut := if slack.used ≠ 0 then block.set16 (slack.offset + 4) slack.used else block
  f.directoryLeafSeal (f.putEntry cut (slack.offset + slack.used) (slack.record - slack.used)
    child.toNat name.bytes type)

def nsInsert (d : Directory n) (name : CString) (child : UInt32) (type : UInt8) :
    Except Errno (Directory n) := do
  nameLength name
  if d.indexed then index.insert d name child type
  else
    match ← f.selectBlock access (recordSize name.bytes.length) d.blocks 0 with
    | some (logical, slack) => do
        attempt (access.edit logical)
        .ok { d with blocks := d.blocks.modify logical (f.splitRecord name child type slack) }
    | none =>
      if d.blocks.length = 1 ∧ index.enabled = true then do
        let converted ← index.convertAndInsert d name child type
        .ok { converted with flags := converted.flags ||| 0x1000 }
      else if d.blocks.length = kMaximumDirectoryBlocks then .error .efbig
      else do
        let fresh ← access.grow
        attempt (access.edit d.blocks.length)
        .ok { d with blocks := d.blocks ++ [f.directoryLeafSeal (f.putEntry fresh 0
          (f.leafLimit n) child.toNat name.bytes type)] }

/-- Give a record to the one before it; a first record stays, without an inode. -/
def clearRecord (position : DirectoryPosition) (block : Block n) : Except Errno (Block n) :=
  let record := block.get16 (position.offset + 4)
  let previous := block.get16 (position.previous + 4)
  if block.get32 position.offset ≠ position.number then .error .euclean
  else if position.previous ≠ kNoRecord then
    if position.previous + previous ≠ position.offset then .error .euclean
    else .ok (f.directoryLeafSeal ((block.set16 (position.previous + 4) (previous + record)).zero
      position.offset record))
  else .ok (f.directoryLeafSeal ((block.zero position.offset record).set16 (position.offset + 4)
    record))

def nsRemove (d : Directory n) (position : DirectoryPosition) : Except Errno (Directory n) :=
  match d.blocks[position.block]? with
  | none => .error .euclean
  | some block => do
      attempt (access.edit position.block)
      let cleared ← f.clearRecord position block
      .ok { d with blocks := d.blocks.set position.block cleared }

end DirectoryFormat

/-- The name of a record in use, with what it stands for. -/
def DirectoryEntry.binding (entry : DirectoryEntry) : Option (List UInt8 × Nat × UInt8) :=
  if entry.inode = 0 then none else some (entry.name, entry.inode, entry.type)

namespace Directory

variable {n : Nat} (f : DirectoryFormat) (d : Directory n)

def listing : List (List UInt8 × Nat × UInt8) :=
  (d.blocks.flatMap f.entries).filterMap DirectoryEntry.binding

def lookup : List UInt8 → Option (Nat × UInt8) := bindings (d.listing f)

/-- All blocks are accepted and no name is there twice. -/
structure Checked : Prop where
  blocks : ∀ block ∈ d.blocks, f.directoryLeafCheck block = .ok ()
  names : ((d.listing f).map Prod.fst).Nodup

/-- The first two records are the directory itself, without room for a name, and its parent. -/
def Rooted : Prop := ∃ block rest dotdot tail, d.blocks = block :: rest ∧
    f.entries block = ⟨0, 12, f.inode, [0x2e], if f.fileType then 2 else 0⟩ :: dotdot :: tail ∧
    dotdot.name = [0x2e, 0x2e] ∧ dotdot.inode ≠ 0

end Directory

end OpenXJ380.Ext4
