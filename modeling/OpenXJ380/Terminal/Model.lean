/-
# The input side of a pseudo terminal

What is written to the master side of a pair goes byte by byte through the line
discipline and is kept for the slave side in one buffer. A parallel array marks the byte
that ends a line and the one that stands for an end of file. Each turn of the loops of
`ptmx_write`, `pts_read` and `ptmx_read` runs with the lock of the pair held; between two
turns anything may happen.

The buffers are arrays; an index is written before it is read, so what lies behind the
pointers does not matter.
-/

import Mathlib

namespace OpenXJ380.Terminal

open Function

/-- `PTY_BUFF_SIZE`. -/
def bufferSize : ℕ := 4096

namespace Flag

def inlcr : UInt32 := 0o100
def igncr : UInt32 := 0o200
def icrnl : UInt32 := 0o400
def opost : UInt32 := 1
def onlcr : UInt32 := 4
def isig : UInt32 := 1
def icanon : UInt32 := 2
def echo : UInt32 := 0o10
def echoe : UInt32 := 0o20
def echok : UInt32 := 0o40
def echonl : UInt32 := 0o100
def noflsh : UInt32 := 0o200
def echoctl : UInt32 := 0o1000
def iexten : UInt32 := 0o100000

end Flag

/-- The indices of the control characters. -/
inductive Control
  | vintr
  | vquit
  | verase
  | vkill
  | veof
  | vsusp
  | veol
  | veol2
  deriving DecidableEq, Repr

/-- `struct termios`, as far as the input side reads it. -/
structure Termios where
  iflag : UInt32
  oflag : UInt32
  lflag : UInt32
  cc : Control → UInt8

def hasFlag (flags flag : UInt32) : Bool := flags &&& flag != 0

namespace Termios

variable (term : Termios)

/-- `pty_cc_matches`: zero disables a control character. -/
def ccMatches (index : Control) (ch : UInt8) : Bool := term.cc index != 0 && term.cc index == ch

def canonical : Bool := hasFlag term.lflag Flag.icanon

end Termios

def newline : UInt8 := 10
def carriageReturn : UInt8 := 13

/-- The settings of a new pair. -/
def ptyTermiosDefault : Termios where
  iflag := 0o400 ||| 0o2000 ||| 0o2 ||| 0o40 ||| 0o20
  oflag := Flag.opost ||| Flag.onlcr
  lflag := Flag.isig ||| Flag.icanon ||| Flag.echo ||| Flag.echoe ||| Flag.echok ||| Flag.echoctl
  cc := fun
    | .vintr => 3
    | .vquit => 28
    | .verase => 127
    | .vkill => 21
    | .veof => 4
    | .vsusp => 26
    | .veol => 0
    | .veol2 => 0

/-- What the master side has yet to read. -/
structure Output where
  masterBuffer : ℕ → UInt8
  ptrMaster : ℕ

namespace Output

/-- Append a byte. -/
def put (output : Output) (ch : UInt8) : Output :=
  ⟨update output.masterBuffer output.ptrMaster ch, output.ptrMaster + 1⟩

def translates (term : Termios) : Bool :=
  hasFlag term.oflag Flag.opost && hasFlag term.oflag Flag.onlcr

/-- `pts_write_inner`: the loop stops at the first byte without room. -/
def writeInner (term : Termios) : Output → List UInt8 → Output
  | output, [] => output
  | output, ch :: rest =>
    if translates term && ch == newline then
      if bufferSize < output.ptrMaster + 2 then output
      else writeInner term ((output.put carriageReturn).put newline) rest
    else if bufferSize < output.ptrMaster + 1 then output
    else writeInner term (output.put ch) rest

/-- `pty_echo_control`. -/
def echoControl (term : Termios) (ch : UInt8) : Bool :=
  hasFlag term.lflag Flag.echoctl && (ch < 32 || ch == 127) && ch != 9 && ch != newline

end Output

def inputEnd : UInt8 := 1
def inputEof : UInt8 := 2

/-- What the slave side has yet to read. -/
structure Input where
  slaveBuffer : ℕ → UInt8
  inputFlags : ℕ → UInt8
  ptrSlave : ℕ
  canonicalStart : ℕ

namespace Input

variable (input : Input)

/-- `pty_flush_input`. -/
def flush : Input := { input with ptrSlave := 0, canonicalStart := 0 }

/-- The last lines of `pty_input_byte`. -/
def store (ch : UInt8) (ends eof : Bool) : Input :=
  let pos := input.ptrSlave
  { slaveBuffer := update input.slaveBuffer pos (if eof then 0 else ch)
    inputFlags := update input.inputFlags pos
      (if ends then inputEnd ||| (if eof then inputEof else 0) else 0)
    ptrSlave := pos + 1
    canonicalStart := if ends then pos + 1 else input.canonicalStart }

/-- `memmove` of the bytes behind the consumed ones to the front. -/
def moved {α : Type} (array : ℕ → α) (count consumed : ℕ) : ℕ → α :=
  fun index => if index < count - consumed then array (index + consumed) else array index

/-- Remove bytes from the front. -/
def consume (consumed : ℕ) : Input where
  slaveBuffer := moved input.slaveBuffer input.ptrSlave consumed
  inputFlags := moved input.inputFlags input.ptrSlave consumed
  ptrSlave := input.ptrSlave - consumed
  canonicalStart :=
    if consumed < input.canonicalStart then input.canonicalStart - consumed else 0

end Input

inductive Signal
  | sigint
  | sigquit
  | sigtstp
  deriving DecidableEq, Repr

/-- `pty_handle_t`, as far as the data paths read it. -/
structure Pair where
  term : Termios
  input : Input
  output : Output
  masterFds : ℕ
  slaveFds : ℕ

namespace Pair

section

variable (pair : Pair)

def ptsDataAvailable : ℕ :=
  if !pair.term.canonical then pair.input.ptrSlave
  else
    match (List.range pair.input.ptrSlave).find? fun index =>
      pair.input.inputFlags index &&& inputEnd != 0 with
    | some index => index + 1
    | none => 0

/-- The first lines of `pty_input_byte`: a carriage return may be ignored. -/
def mapByte (term : Termios) (ch : UInt8) : Option UInt8 :=
  if ch == carriageReturn then
    if hasFlag term.iflag Flag.igncr then none
    else if hasFlag term.iflag Flag.icrnl then some newline
    else some ch
  else if ch == newline && hasFlag term.iflag Flag.inlcr then some carriageReturn
  else some ch

def signalOf (term : Termios) (ch : UInt8) : Option Signal :=
  if hasFlag term.lflag Flag.isig then
    if term.ccMatches .vintr ch then some .sigint
    else if term.ccMatches .vquit ch then some .sigquit
    else if term.ccMatches .vsusp ch then some .sigtstp
    else none
  else none

/-- The character ends a line, as a character of its own or as an end of file. -/
def endsLine (term : Termios) (ch : UInt8) : Bool :=
  term.canonical && (term.canonical && term.ccMatches .veof ch || ch == newline ||
    term.ccMatches .veol ch || (hasFlag term.lflag Flag.iexten && term.ccMatches .veol2 ch))

/-- `pty_echo_bytes`: all of the bytes or none. -/
def echoBytes (bytes : List UInt8) : Bool × Pair :=
  let needed := bytes.length + if Output.translates pair.term then bytes.count newline else 0
  if needed > bufferSize - pair.output.ptrMaster then (false, pair)
  else (true, { pair with output := pair.output.writeInner pair.term bytes })

/-- What `pty_input_byte` does to the input once the echo is made. Without room for the echo it
returns, and the byte is not consumed. -/
def afterEcho (echo : Bool × Pair) (change : Input → Input) : Bool × Pair :=
  if echo.1 then (true, { echo.2 with input := change echo.2.input }) else (false, echo.2)

section

variable (ch : UInt8)

/-- `pty_echo_char`. -/
def echoChar : Bool × Pair :=
  let flags := pair.term.lflag
  if !hasFlag flags Flag.echo &&
      !(pair.term.canonical && hasFlag flags Flag.echonl && ch == newline) then (true, pair)
  else if Output.echoControl pair.term ch then
    pair.echoBytes [94, if ch == 127 then 63 else ch + 64]
  else pair.echoBytes [ch]

/-- The branch of `pty_input_byte` for a signal character. The echo may fail. -/
def inputSignal : Pair :=
  let flushed :=
    if !hasFlag pair.term.lflag Flag.noflsh then
      { pair with input := pair.input.flush, output := { pair.output with ptrMaster := 0 } }
    else pair
  (flushed.echoChar ch).2

def eraseEcho : Bool × Pair :=
  let flags := pair.term.lflag
  if hasFlag flags Flag.echo then
    if hasFlag flags Flag.echoe then
      let last := pair.input.slaveBuffer (pair.input.ptrSlave - 1)
      let count := if Output.echoControl pair.term last then 6 else 3
      pair.echoBytes ([8, 32, 8, 8, 32, 8].take count)
    else pair.echoChar ch
  else (true, pair)

/-- The branch for the erase character. -/
def inputErase : Bool × Pair :=
  if pair.input.ptrSlave = pair.input.canonicalStart then (true, pair)
  else afterEcho (pair.eraseEcho ch) fun input => { input with ptrSlave := input.ptrSlave - 1 }

def killEcho : Bool × Pair :=
  let flags := pair.term.lflag
  if hasFlag flags Flag.echo then
    if hasFlag flags Flag.echok then pair.echoBytes [newline] else pair.echoChar ch
  else (true, pair)

/-- The branch for the kill character. -/
def inputKill : Bool × Pair :=
  afterEcho (pair.killEcho ch) fun input => { input with ptrSlave := input.canonicalStart }

/-- The rest of `pty_input_byte`. The last place of the buffer is for the end of the line: what
an unfinished line has too many is dropped. -/
def inputOther : Bool × Pair :=
  let term := pair.term
  let eof := term.canonical && term.ccMatches .veof ch
  let ends := endsLine term ch
  if term.canonical && !ends && bufferSize - 1 ≤ pair.input.ptrSlave &&
      pair.input.canonicalStart == 0 then (true, pair)
  else if pair.input.ptrSlave = bufferSize then (false, pair)
  else
    afterEcho (if !eof then pair.echoChar ch else (true, pair)) fun input =>
      input.store ch ends eof

end

/-- `pty_input_byte`: whether the byte was consumed, the signal to send, and the pair. -/
def ptyInputByte (byte : UInt8) : Bool × Option Signal × Pair :=
  match mapByte pair.term byte with
  | none => (true, none, pair)
  | some ch =>
    match signalOf pair.term ch with
    | some signal => (true, some signal, pair.inputSignal ch)
    | none =>
      let branch :=
        if pair.term.canonical && pair.term.ccMatches .verase ch then pair.inputErase ch
        else if pair.term.canonical && pair.term.ccMatches .vkill ch then pair.inputKill ch
        else pair.inputOther ch
      (branch.1, none, branch.2)

/-- One turn of `ptmx_write`: without a reader it fails, and a byte that is not consumed
is tried again later. -/
def ptmxWriteByte (byte : UInt8) : Option Pair :=
  if pair.slaveFds = 0 then none
  else
    let result := pair.ptyInputByte byte
    if result.1 then some result.2.2 else none

variable (size : ℕ)

/-- One turn of `pts_read`: the bytes read and the pair afterwards, or `none` if the
caller has to wait. -/
def ptsRead : Option (List UInt8 × Pair) :=
  if size = 0 then some ([], pair)
  else
    let found := pair.ptsDataAvailable
    let available := if found = 0 ∧ pair.masterFds = 0 then pair.input.ptrSlave else found
    if 0 < available then
      let eof := pair.term.canonical && pair.input.inputFlags (available - 1) &&& inputEof != 0
      let toCopy := min size (available - if eof then 1 else 0)
      let consumed := if eof && toCopy == available - 1 then toCopy + 1 else toCopy
      some ((List.range toCopy).map pair.input.slaveBuffer,
        { pair with input := pair.input.consume consumed })
    else if pair.masterFds = 0 then some ([], pair)
    else none

/-- One turn of `ptmx_read` that finds data. -/
def ptmxRead : Pair :=
  let toCopy := min size pair.output.ptrMaster
  { pair with
    output :=
      { masterBuffer := Input.moved pair.output.masterBuffer pair.output.ptrMaster toCopy
        ptrMaster := pair.output.ptrMaster - toCopy } }

end

/-- A new pair with readers and writers. -/
def opened (term : Termios) (masters slaves : ℕ) : Pair where
  term := term
  input := ⟨fun _ => 0, fun _ => 0, 0, 0⟩
  output := ⟨fun _ => 0, 0⟩
  masterFds := masters + 1
  slaveFds := slaves + 1

/-- The settings and the open ends of a pair stay. -/
structure Same (pair after : Pair) : Prop where
  term : after.term = pair.term
  masterFds : after.masterFds = pair.masterFds
  slaveFds : after.slaveFds = pair.slaveFds

/-- An echo changes the output alone, and nothing where it has no room. -/
structure Echoed (pair : Pair) (echo : Bool × Pair) : Prop extends Same pair echo.2 where
  input : echo.2.input = pair.input
  master : pair.output.ptrMaster ≤ bufferSize → echo.2.output.ptrMaster ≤ bufferSize
  refused : echo.1 = false → echo.2 = pair

end Pair

theorem Output.writeInner_le {output : Output} (term : Termios) (bytes : List UInt8)
    (h : output.ptrMaster ≤ bufferSize) :
    (output.writeInner term bytes).ptrMaster ≤ bufferSize := by
  induction bytes generalizing output with
  | nil => exact h
  | cons ch rest ih =>
    rw [writeInner]
    split
    all_goals
      split
      · exact h
      · exact ih (by simp only [put]; omega)

namespace Pair

variable {echo : Bool × Pair}

theorem Echoed.none (pair : Pair) : Echoed pair (true, pair) where
  toSame := ⟨rfl, rfl, rfl⟩
  input := rfl
  master := id
  refused := fun _ => rfl

variable (pair : Pair)

theorem echoed_echoBytes (bytes : List UInt8) : Echoed pair (pair.echoBytes bytes) := by
  rw [echoBytes]
  generalize bytes.length + (if Output.translates pair.term then bytes.count newline else 0) = needed
  split
  · exact ⟨⟨rfl, rfl, rfl⟩, rfl, id, fun _ => rfl⟩
  · exact ⟨⟨rfl, rfl, rfl⟩, rfl, Output.writeInner_le pair.term bytes,
      fun hfalse => absurd hfalse (by simp)⟩

theorem echoed_echoChar (ch : UInt8) : Echoed pair (pair.echoChar ch) := by
  rw [echoChar]
  split
  · exact .none pair
  split
  all_goals exact pair.echoed_echoBytes _

theorem echoed_eraseEcho (ch : UInt8) : Echoed pair (pair.eraseEcho ch) := by
  rw [eraseEcho]
  split
  · split
    · exact pair.echoed_echoBytes _
    · exact pair.echoed_echoChar ch
  · exact .none pair

theorem echoed_killEcho (ch : UInt8) : Echoed pair (pair.killEcho ch) := by
  rw [killEcho]
  split
  · split
    · exact pair.echoed_echoBytes _
    · exact pair.echoed_echoChar ch
  · exact .none pair

theorem echoed_otherEcho (ch : UInt8) (eof : Bool) :
    Echoed pair (if !eof then pair.echoChar ch else (true, pair)) := by
  split
  · exact pair.echoed_echoChar ch
  · exact .none pair

end Pair

end OpenXJ380.Terminal
