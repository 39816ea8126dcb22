/-
# Unix sockets

`src/driver/fs/vfs/unixsock.cpp`. Each function is a program over the sockets and the
table of bound paths. What a function does while it holds a lock, between two operations
on locks, is one step; what it reads without a lock is a step of its own.

Of the data that passes through a socket only the amounts are kept. Three fields of a
socket record its history and are read by no function: how often it was closed, how often
it was freed, and who is responsible for it.
-/

import OpenXJ380.Kernel.Errno
import OpenXJ380.Protocol.Locks

namespace OpenXJ380.Unix

open Function Protocol

abbrev SockId := Nat

/-- The text of `sun_path`, which is not empty. -/
abbrev Name := List UInt8

inductive SockState
  | free
  | bound
  | listening
  | connected
  deriving DecidableEq, Repr

inductive SockType
  | stream
  | dgram
  deriving DecidableEq, Repr

/-- Who is responsible for a socket: nobody but its descriptor, a queue of connections, a
call that has not handed it on yet, or nobody any more. -/
inductive Stage
  | loose
  | queued
  | carried
  | closed
  deriving DecidableEq, Repr

structure Sock where
  state : SockState := .free
  type : SockType := .stream
  localPath : Option Name := none
  /-- The peer address, if its family is set; its path may be empty. -/
  peerPath : Option (Option Name) := none
  peer : Option SockId := none
  connQueue : Option (List SockId) := none
  /-- The number of bytes in the ring. -/
  readable : Nat := 0
  /-- The number of datagrams, once there is a queue for them. -/
  dgQueue : Option Nat := none
  refcount : Nat := 1
  closed : Bool := false
  stage : Stage := .loose
  /-- Half of a pair. -/
  paired : Bool := false
  closes : Nat := 0
  frees : Nat := 0

def unixRingSize : Nat := 65536

namespace Sock

def writable (sock : Sock) : Nat :=
  let space := unixRingSize - sock.readable
  if space > 1 then space - 1 else 0

end Sock

structure Net where
  sock : SockId → Sock
  /-- The sockets created so far are those below. -/
  count : Nat
  /-- The table of bound paths, once there is one. -/
  names : Option (List SockId)

namespace Net

def empty : Net := ⟨fun _ => {}, 0, none⟩

def modify (net : Net) (sk : SockId) (f : Sock → Sock) : Net :=
  { net with sock := update net.sock sk (f (net.sock sk)) }

def create (net : Net) (sock : Sock) : Net :=
  { net with sock := update net.sock net.count sock, count := net.count + 1 }

section Lookup

variable (net : Net) (sk other : SockId) (f : Sock → Sock) (sock : Sock)

@[simp]
theorem modify_sock : (net.modify sk f).sock other = if other = sk then f (net.sock sk) else net.sock other := by
  simp only [modify, update_apply]

@[simp]
theorem modify_count : (net.modify sk f).count = net.count := rfl

@[simp]
theorem create_sock : (net.create sock).sock other = if other = net.count then sock else net.sock other := by
  simp only [create, update_apply]

@[simp]
theorem create_count : (net.create sock).count = net.count + 1 := rfl

end Lookup

/-- The first socket in the table that is bound to the path. -/
def find (net : Net) (name : Name) : Option SockId := (net.names.getD []).find? fun sk =>
    (net.sock sk).state ≠ .free ∧ (net.sock sk).localPath = some name

end Net

inductive Lock
  | sock (sk : SockId)
  | names
  deriving DecidableEq, Repr

/-- What there is when memory or descriptors are asked for: all of it, nothing, or only the
first part. -/
inductive Supply
  | plenty
  | short
  | exhausted
  deriving DecidableEq, Repr

inductive Result
  | ok
  | error (errno : Errno)
  /-- A new socket, or the socket of a new connection. -/
  | socket (sk : SockId)
  | pair (first second : SockId)
  deriving DecidableEq, Repr

/-- The functions that look a path up. -/
inductive Caller
  | bind (sk : SockId) (name : Name)
  | connect (sk : SockId) (name : Name)
  | send (name : Name)
  deriving DecidableEq, Repr

/-- The places of the functions. -/
inductive Place
  | unlock (sk : SockId) (result : Result)
  | done (result : Result)
  -- `unix_create`, and the sockets of `unix_socketpair`
  | create (type : SockType)
  | pair (type : SockType)
  -- `unix_ns_lookup`
  | lookup (caller : Caller)
  | lookupWait (caller : Caller)
  | lookupLocked (caller : Caller)
  | lookupRelease (caller : Caller) (found : Option SockId)
  -- `unix_bind`, with `unix_ns_register`
  | bind (sk : SockId) (name : Option Name)
  | bindLocked (sk : SockId) (name : Option Name)
  | bindTaken (sk existing : SockId)
  | bindStore (sk : SockId) (name : Name)
  | registerWait (sk : SockId)
  | registerLocked (sk : SockId)
  | registerRelease (sk : SockId)
  -- `unix_connect`
  | connect (sk : SockId) (name : Option Name)
  | connectLocked (sk : SockId) (name : Option Name)
  | connectWait (sk listener : SockId)
  | connectBoth (sk listener : SockId)
  | connectRefuse (sk listener : SockId) (errno : Errno)
  | connectUnref (sk listener : SockId) (errno : Errno)
  | connectRelease (sk listener : SockId)
  -- `unix_listen`
  | listen (sk : SockId)
  | listenLocked (sk : SockId)
  -- `unix_accept`
  | accept (sk : SockId)
  | acceptLocked (sk : SockId)
  | acceptLoop (sk : SockId)
  | acceptYield (sk : SockId)
  | acceptAgain (sk : SockId)
  | acceptRecheck (sk : SockId)
  -- `unix_read` and `unix_recvfrom`
  | read (sk : SockId) (size : Nat)
  | streamWait (sk : SockId) (size : Nat)
  | streamLocked (sk : SockId) (size : Nat)
  | streamYield (sk : SockId) (size : Nat)
  | recvWait (sk : SockId)
  | recvLocked (sk : SockId)
  | recvLoop (sk : SockId)
  | recvYield (sk : SockId)
  | recvAgain (sk : SockId)
  -- `unix_write` and `unix_sendto`
  | write (sk : SockId) (size : Nat)
  | writeWait (peer : SockId) (rest : Nat)
  | writeLocked (peer : SockId) (rest : Nat)
  | writeYield (peer : SockId) (rest : Nat)
  | sendto (sk : SockId) (address : Option (Option Name)) (size : Nat)
  | sendInit (peer : SockId)
  | sendInitWait (peer : SockId)
  | sendInitLocked (peer : SockId)
  | sendInitRelease (peer : SockId)
  | sendAlloc (peer : SockId)
  | sendWait (peer : SockId)
  | sendLocked (peer : SockId)
  | sendRelease (peer : SockId)
  | sendUnref (peer : SockId)
  -- `unix_poll`
  | poll (sk : SockId)
  | pollLocked (sk : SockId)
  | pollPeerWait (sk peer : SockId)
  | pollPeerRelease (sk peer : SockId)
  -- `unix_close`, with `unix_ns_unregister`
  | close (sk : SockId)
  | closeWait (sk : SockId)
  | closeLocked (sk : SockId)
  | closePeerWait (sk peer : SockId)
  | closePeerLocked (sk peer : SockId)
  | closePeerRelease (sk peer : SockId)
  | closeForget (sk : SockId)
  | closeName (sk : SockId)
  | unregisterWait (sk : SockId)
  | unregisterLocked (sk : SockId)
  | unregisterRelease (sk : SockId)
  | closeUnlock (sk : SockId)
  | closeUnref (sk : SockId)
  | closeTest (sk : SockId)
  -- `unix_sock_free`, with the sockets whose own freeing waits for this one
  | free (sk : SockId) (outer : List SockId)
  | freeWait (sk : SockId) (outer : List SockId) (child : SockId)
  | freeLocked (sk : SockId) (outer : List SockId) (child : SockId)
  | freePeerWait (sk : SockId) (outer : List SockId) (child peer : SockId)
  | freePeerLocked (sk : SockId) (outer : List SockId) (child peer : SockId)
  | freePeerRelease (sk : SockId) (outer : List SockId) (child peer : SockId)
  | freeForget (sk : SockId) (outer : List SockId) (child : SockId)
  | freeUnlock (sk : SockId) (outer : List SockId) (child : SockId)
  deriving DecidableEq, Repr

abbrev Code := Instruction Lock Net Supply Place

section Steps

variable (supply : Supply) (net : Net)

def Net.ref (net : Net) (sk : SockId) : Net :=
  net.modify sk fun sock => { sock with refcount := sock.refcount + 1 }

def Net.unref (net : Net) (sk : SockId) : Net :=
  net.modify sk fun sock => { sock with refcount := sock.refcount - 1 }

def createStep (type : SockType) : Net × Place :=
  if supply = .plenty then (net.create { type, stage := .carried }, .done (.socket net.count))
  else (net, .done (.error .enomem))

/-- Two sockets that are each other's peer. If there is memory for the first only, it is
closed again. -/
def pairStep (type : SockType) : Net × Place :=
  let first := net.count
  match supply with
  | .short => (net, .done (.error .enomem))
  | .exhausted => (net.create { type, stage := .carried }, .close first)
  | .plenty =>
    let second := first + 1
    let half (peer : SockId) : Sock :=
      { state := .connected, type, peer := some peer, refcount := 2, stage := .carried, paired := true }
    ((net.create (half second)).create (half first), .done (.pair first second))

section

variable (sk : SockId)

def bindStep (name : Option Name) : Net × Place :=
  if (net.sock sk).state ≠ .free then (net, .unlock sk (.error .einval))
  else
    match name with
    | none => (net.modify sk fun sock => { sock with state := .bound, localPath := none },
        .unlock sk .ok)
    | some name => (net, .lookup (.bind sk name))

/-- The search, which takes a reference to what it finds. -/
def lookupStep (caller : Caller) (name : Name) : Net × Place :=
  match net.find name with
  | none => (net, .lookupRelease caller none)
  | some found => (net.ref found, .lookupRelease caller (some found))

def registerStep : Net :=
  if supply = .plenty then { net with names := some (net.names.getD [] ++ [sk]) } else net

def connectStep (name : Option Name) : Net × Place :=
  if (net.sock sk).state ≠ .free ∧ (net.sock sk).state ≠ .bound then
    (net, .unlock sk (.error .einval))
  else
    let net := net.modify sk fun sock => { sock with peerPath := some name }
    if (net.sock sk).type = .dgram then
      (net.modify sk fun sock => { sock with state := .connected }, .unlock sk .ok)
    else
      match name with
      | none => (net, .unlock sk (.error .econnrefused))
      | some name => (net, .lookup (.connect sk name))

end

/-- A listener that accepts connections gets a new socket into its queue. -/
def connectBothStep (sk listener : SockId) : Net × Place :=
  match (net.sock listener).state, (net.sock listener).connQueue with
  | .listening, some queue =>
    if supply ≠ .plenty then (net, .connectRefuse sk listener .enomem)
    else
      let server := net.count
      let net := net.create
        { state := .connected, localPath := (net.sock listener).localPath,
          peerPath := some (net.sock sk).localPath, peer := some sk, stage := .queued }
      let net := net.modify sk fun sock => { sock with state := .connected, peer := some server }
      let net := net.modify listener fun sock => { sock with connQueue := some (queue ++ [server]) }
      (net.unref listener, .connectRelease sk listener)
  | _, _ => (net, .connectRefuse sk listener .econnrefused)

variable (sk : SockId)

def listenStep : Net × Place :=
  if (net.sock sk).type ≠ .stream then (net, .unlock sk (.error .eopnotsupp))
  else if (net.sock sk).state ≠ .bound then (net, .unlock sk (.error .einval))
  else
    (net.modify sk fun sock =>
      { sock with state := .listening, connQueue := some (sock.connQueue.getD []) }, .unlock sk .ok)

def acceptStep : Net × Place :=
  if (net.sock sk).state ≠ .listening ∨ (net.sock sk).connQueue = none then
    (net, .unlock sk (.error .einval))
  else (net, .acceptLoop sk)

def acceptLoopStep : Net × Place :=
  match (net.sock sk).connQueue with
  | some (first :: rest) =>
    let net := net.modify sk fun sock => { sock with connQueue := some rest }
    (net.modify first fun sock => { sock with stage := .carried }, .unlock sk (.socket first))
  | _ => (net, .acceptYield sk)

def acceptRecheckStep : Net × Place :=
  if (net.sock sk).state ≠ .listening then (net, .unlock sk (.error .einval)) else (net, .acceptLoop sk)

def streamStep (size : Nat) : Net × Place :=
  if (net.sock sk).readable = 0 then
    if (net.sock sk).closed ∨ (net.sock sk).peer = none then (net, .unlock sk .ok)
    else (net, .streamYield sk size)
  else
    (net.modify sk fun sock => { sock with readable := sock.readable - min size sock.readable },
      .unlock sk .ok)

def recvInitStep : Net :=
  net.modify sk fun sock => { sock with dgQueue := some (sock.dgQueue.getD 0) }

def recvStep : Net × Place :=
  if (net.sock sk).dgQueue.getD 0 = 0 then
    if (net.sock sk).closed then (net, .unlock sk .ok) else (net, .recvYield sk)
  else
    (net.modify sk fun sock => { sock with dgQueue := sock.dgQueue.map (· - 1) }, .unlock sk .ok)

/-- `unix_write` before it takes a lock. -/
def writeStep (size : Nat) : Place :=
  match (net.sock sk).type with
  | .dgram =>
    match (net.sock sk).peerPath with
    | some (some name) => .lookup (.send name)
    | _ => .done (.error .edestaddrreq)
  | .stream =>
    match (net.sock sk).peer with
    | none => .done (.error .epipe)
    | some peer => .writeWait peer size

def writeLoopStep (peer : SockId) (rest : Nat) : Net × Place :=
  if rest = 0 then (net, .unlock peer .ok)
  else
    let written := min rest (net.sock peer).writable
    if written = 0 then
      if (net.sock peer).closed then (net, .unlock peer (.error .epipe))
      else (net, .writeYield peer rest)
    else
      (net.modify peer fun sock => { sock with readable := sock.readable + written },
        .writeLocked peer (rest - written))

def sendtoStep (address : Option (Option Name)) (size : Nat) : Place :=
  match address with
  | some none => .done (.error .edestaddrreq)
  | some (some name) => .lookup (.send name)
  | none =>
    if (net.sock sk).peerPath = none then .done (.error .edestaddrreq) else .write sk size

def sendAllocStep (peer : SockId) : Net × Place :=
  if supply = .plenty then (net, .sendWait peer) else (net.unref peer, .done (.error .enomem))

def closeStep : Net × Place :=
  let net := net.modify sk fun sock => { sock with closed := true }
  match (net.sock sk).peer with
  | none => (net, .closeName sk)
  | some peer => (net, .closePeerWait sk peer)

/-- The peer learns that there is nobody at the other end. -/
def Net.abandon (net : Net) (peer : SockId) : Net :=
  net.modify peer fun sock => { sock with closed := true, peer := none }

def closeNameStep : Place :=
  if (net.sock sk).state = .free ∨ net.names = none then .closeUnlock sk else .unregisterWait sk

def unregisterStep : Net := { net with names := net.names.map (·.erase sk) }

def closeTestStep : Place :=
  if (net.sock sk).refcount = 0 then .free sk [] else .done .ok

variable (outer : List SockId)

/-- The connections nobody accepted are freed before the listener. -/
def freeStep : Net × Place :=
  match (net.sock sk).connQueue with
  | some (child :: _) => (net, .freeWait sk outer child)
  | _ =>
    let net := net.modify sk fun sock => { sock with frees := sock.frees + 1 }
    match outer with
    | [] => (net, .done .ok)
    | parent :: outer =>
      (net.modify parent fun sock => { sock with connQueue := sock.connQueue.map List.tail },
        .free parent outer)

def freeChildStep (child : SockId) : Place :=
  match (net.sock child).peer with
  | none => .freeForget sk outer child
  | some peer => .freePeerWait sk outer child peer

end Steps

/-- Where a function goes on after it looked a path up. -/
def Caller.resume : Caller → Option SockId → Place
  | .bind sk name, none => .bindStore sk name
  | .bind sk _, some existing => .bindTaken sk existing
  | .connect sk _, none => .unlock sk (.error .econnrefused)
  | .connect sk _, some listener => .connectWait sk listener
  | .send _, none => .done (.error .econnrefused)
  | .send _, some peer => .sendInit peer

def Caller.name : Caller → Name
  | .bind _ name => name
  | .connect _ name => name
  | .send name => name

/-- The functions. -/
def code : Place → Code
  | .unlock sk result => .release (.sock sk) (.done result)
  | .done _ => .finish
  | .create type => .act fun supply net => createStep supply net type
  | .pair type => .act fun supply net => pairStep supply net type
  | .lookup caller => .act fun _ net =>
    (net, if net.names = none then caller.resume none else .lookupWait caller)
  | .lookupWait caller => .acquire .names (.lookupLocked caller)
  | .lookupLocked caller => .act fun _ net => lookupStep net caller caller.name
  | .lookupRelease caller found => .release .names (caller.resume found)
  | .bind sk name => .acquire (.sock sk) (.bindLocked sk name)
  | .bindLocked sk name => .act fun _ net => bindStep net sk name
  | .bindTaken sk existing => .act fun _ net =>
    (net.unref existing, .unlock sk (.error .eaddrinuse))
  | .bindStore sk name => .act fun _ net =>
    (net.modify sk fun sock => { sock with state := .bound, localPath := some name }, .registerWait sk)
  | .registerWait sk => .acquire .names (.registerLocked sk)
  | .registerLocked sk => .act fun supply net => (registerStep supply net sk, .registerRelease sk)
  | .registerRelease sk => .release .names (.unlock sk .ok)
  | .connect sk name => .acquire (.sock sk) (.connectLocked sk name)
  | .connectLocked sk name => .act fun _ net => connectStep net sk name
  | .connectWait sk listener => .acquire (.sock listener) (.connectBoth sk listener)
  | .connectBoth sk listener => .act fun supply net => connectBothStep supply net sk listener
  | .connectRefuse sk listener errno => .release (.sock listener) (.connectUnref sk listener errno)
  | .connectUnref sk listener errno => .act fun _ net =>
    (net.unref listener, .unlock sk (.error errno))
  | .connectRelease sk listener => .release (.sock listener) (.unlock sk .ok)
  | .listen sk => .acquire (.sock sk) (.listenLocked sk)
  | .listenLocked sk => .act fun _ net => listenStep net sk
  | .accept sk => .acquire (.sock sk) (.acceptLocked sk)
  | .acceptLocked sk => .act fun _ net => acceptStep net sk
  | .acceptLoop sk => .act fun _ net => acceptLoopStep net sk
  | .acceptYield sk => .release (.sock sk) (.acceptAgain sk)
  | .acceptAgain sk => .acquire (.sock sk) (.acceptRecheck sk)
  | .acceptRecheck sk => .act fun _ net => acceptRecheckStep net sk
  | .read sk size => .act fun _ net =>
    (net, match (net.sock sk).type with | .dgram => .recvWait sk | .stream => .streamWait sk size)
  | .streamWait sk size => .acquire (.sock sk) (.streamLocked sk size)
  | .streamLocked sk size => .act fun _ net => streamStep net sk size
  | .streamYield sk size => .release (.sock sk) (.streamWait sk size)
  | .recvWait sk => .acquire (.sock sk) (.recvLocked sk)
  | .recvLocked sk => .act fun _ net => (recvInitStep net sk, .recvLoop sk)
  | .recvLoop sk => .act fun _ net => recvStep net sk
  | .recvYield sk => .release (.sock sk) (.recvAgain sk)
  | .recvAgain sk => .acquire (.sock sk) (.recvLoop sk)
  | .write sk size => .act fun _ net => (net, writeStep net sk size)
  | .writeWait peer rest => .acquire (.sock peer) (.writeLocked peer rest)
  | .writeLocked peer rest => .act fun _ net => writeLoopStep net peer rest
  | .writeYield peer rest => .release (.sock peer) (.writeWait peer rest)
  | .sendto sk address size => .act fun _ net => (net, sendtoStep net sk address size)
  | .sendInit peer => .act fun _ net =>
    (net, if (net.sock peer).dgQueue = none then .sendInitWait peer else .sendAlloc peer)
  | .sendInitWait peer => .acquire (.sock peer) (.sendInitLocked peer)
  | .sendInitLocked peer => .act fun _ net => (recvInitStep net peer, .sendInitRelease peer)
  | .sendInitRelease peer => .release (.sock peer) (.sendAlloc peer)
  | .sendAlloc peer => .act fun supply net => sendAllocStep supply net peer
  | .sendWait peer => .acquire (.sock peer) (.sendLocked peer)
  | .sendLocked peer => .act fun _ net =>
    (net.modify peer fun sock => { sock with dgQueue := sock.dgQueue.map (· + 1) }, .sendRelease peer)
  | .sendRelease peer => .release (.sock peer) (.sendUnref peer)
  | .sendUnref peer => .act fun _ net => (net.unref peer, .done .ok)
  | .poll sk => .acquire (.sock sk) (.pollLocked sk)
  | .pollLocked sk => .act fun _ net =>
    (net, match (net.sock sk).peer with | none => .unlock sk .ok | some peer => .pollPeerWait sk peer)
  | .pollPeerWait sk peer => .acquire (.sock peer) (.pollPeerRelease sk peer)
  | .pollPeerRelease sk peer => .release (.sock peer) (.unlock sk .ok)
  | .close sk => .act fun _ net =>
    (net.modify sk fun sock => { sock with closes := sock.closes + 1, stage := .closed }, .closeWait sk)
  | .closeWait sk => .acquire (.sock sk) (.closeLocked sk)
  | .closeLocked sk => .act fun _ net => closeStep net sk
  | .closePeerWait sk peer => .acquire (.sock peer) (.closePeerLocked sk peer)
  | .closePeerLocked sk peer => .act fun _ net => (net.abandon peer, .closePeerRelease sk peer)
  | .closePeerRelease sk peer => .release (.sock peer) (.closeForget sk)
  | .closeForget sk => .act fun _ net =>
    (net.modify sk fun sock => { sock with peer := none }, .closeName sk)
  | .closeName sk => .act fun _ net => (net, closeNameStep net sk)
  | .unregisterWait sk => .acquire .names (.unregisterLocked sk)
  | .unregisterLocked sk => .act fun _ net => (unregisterStep net sk, .unregisterRelease sk)
  | .unregisterRelease sk => .release .names (.closeUnlock sk)
  | .closeUnlock sk => .release (.sock sk) (.closeUnref sk)
  | .closeUnref sk => .act fun _ net => (net.unref sk, .closeTest sk)
  | .closeTest sk => .act fun _ net => (net, closeTestStep net sk)
  | .free sk outer => .act fun _ net => freeStep net sk outer
  | .freeWait sk outer child => .acquire (.sock child) (.freeLocked sk outer child)
  | .freeLocked sk outer child => .act fun _ net => (net, freeChildStep net sk outer child)
  | .freePeerWait sk outer child peer => .acquire (.sock peer) (.freePeerLocked sk outer child peer)
  | .freePeerLocked sk outer child peer => .act fun _ net =>
    (net.abandon peer, .freePeerRelease sk outer child peer)
  | .freePeerRelease sk outer child peer => .release (.sock peer) (.freeForget sk outer child)
  | .freeForget sk outer child => .act fun _ net =>
    (net.modify child fun sock => { sock with peer := none, state := .free },
      .freeUnlock sk outer child)
  | .freeUnlock sk outer child => .release (.sock child) (.free child (sk :: outer))

/-- The locks that are held at each place. -/
def Caller.held : Caller → List Lock
  | .bind sk _ => [.sock sk]
  | .connect sk _ => [.sock sk]
  | .send _ => []

def held : Place → List Lock
  | .unlock sk _ | .bindLocked sk _ | .bindTaken sk _ | .bindStore sk _ | .registerWait sk
  | .connectLocked sk _ | .connectWait sk _ | .connectUnref sk _ _ | .listenLocked sk
  | .acceptLocked sk | .acceptLoop sk | .acceptYield sk | .acceptRecheck sk
  | .streamLocked sk _ | .streamYield sk _ | .recvLocked sk | .recvLoop sk | .recvYield sk
  | .writeLocked sk _ | .writeYield sk _ | .sendInitLocked sk | .sendInitRelease sk
  | .sendLocked sk | .sendRelease sk | .pollLocked sk | .pollPeerWait sk _ | .closeLocked sk
  | .closePeerWait sk _ | .closeForget sk | .closeName sk | .unregisterWait sk | .closeUnlock sk
  | .freeLocked _ _ sk | .freePeerWait _ _ sk _ | .freeForget _ _ sk | .freeUnlock _ _ sk =>
    [.sock sk]
  | .lookup caller | .lookupWait caller => caller.held
  | .lookupLocked caller | .lookupRelease caller _ => .names :: caller.held
  | .registerLocked sk | .registerRelease sk | .unregisterLocked sk | .unregisterRelease sk =>
    [.names, .sock sk]
  | .connectBoth sk other | .connectRefuse sk other _ | .connectRelease sk other
  | .pollPeerRelease sk other | .closePeerLocked sk other | .closePeerRelease sk other
  | .freePeerLocked _ _ sk other | .freePeerRelease _ _ sk other => [.sock other, .sock sk]
  | _ => []

end OpenXJ380.Unix
