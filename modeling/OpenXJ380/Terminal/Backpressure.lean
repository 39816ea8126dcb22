/-
# Back-pressure of a pseudo terminal

Input that finds no room, in the buffer or for its echo, is not consumed and is tried again.
That is safe if the attempt has changed nothing, and it comes to an end if a line that is not
complete never fills the buffer: then the byte that completes it has a place, and the reader
something to read.
-/

import OpenXJ380.Protocol.Run
import OpenXJ380.Terminal.Model

namespace OpenXJ380.Terminal

open Function

namespace Pair

variable {pair : Pair} {echo : Bool × Pair}

theorem Echoed.afterEcho_refused (h : Echoed pair echo) (change : Input → Input)
    (hrefused : (afterEcho echo change).1 = false) : (afterEcho echo change).2 = pair := by
  rw [afterEcho] at hrefused ⊢
  split
  · rename_i hmade
    rw [if_pos hmade] at hrefused
    cases hrefused
  · rename_i hfull
    exact h.refused (by simpa using hfull)

theorem inputErase_refused {ch : UInt8} (hrefused : (pair.inputErase ch).1 = false) :
    (pair.inputErase ch).2 = pair := by
  rw [inputErase] at hrefused ⊢
  split
  · rfl
  · rename_i hline
    rw [if_neg hline] at hrefused
    exact (pair.echoed_eraseEcho ch).afterEcho_refused _ hrefused

theorem inputOther_refused {ch : UInt8} (hrefused : (pair.inputOther ch).1 = false) :
    (pair.inputOther ch).2 = pair := by
  rw [inputOther] at hrefused ⊢
  split
  · rfl
  rename_i hlong
  rw [if_neg hlong] at hrefused
  split
  · rfl
  rename_i hroom
  rw [if_neg hroom] at hrefused
  exact (pair.echoed_otherEcho ch _).afterEcho_refused _ hrefused

/-- A byte that is not consumed leaves the pair as it was. -/
theorem ptyInputByte_refused {byte : UInt8} (hrefused : (pair.ptyInputByte byte).1 = false) :
    (pair.ptyInputByte byte).2.2 = pair := by
  rw [ptyInputByte] at hrefused ⊢
  cases hmapped : mapByte pair.term byte with
  | none => rfl
  | some ch =>
  rw [hmapped] at hrefused
  dsimp only at hrefused ⊢
  cases hsignal : signalOf pair.term ch with
  | some signal =>
    rw [hsignal] at hrefused
    cases hrefused
  | none =>
    rw [hsignal] at hrefused
    dsimp only at hrefused ⊢
    split
    · rename_i herase
      rw [if_pos herase] at hrefused
      exact inputErase_refused hrefused
    rename_i herase
    rw [if_neg herase] at hrefused
    split
    · rename_i hkill
      rw [if_pos hkill] at hrefused
      exact (pair.echoed_killEcho ch).afterEcho_refused _ hrefused
    · rename_i hkill
      rw [if_neg hkill] at hrefused
      exact inputOther_refused hrefused

end Pair

namespace Input

/-- One turn of the loop of `pty_set_termios`: a byte is kept unless it stands for an end of
file. The state is the two arrays and `out`. -/
def keepByte (arrays : (ℕ → UInt8) × (ℕ → UInt8) × ℕ) (i : ℕ) : (ℕ → UInt8) × (ℕ → UInt8) × ℕ :=
  let (buffer, flags, out) := arrays
  if flags i &&& inputEof != 0 then arrays
  else (update buffer out (buffer i), update flags out 0, out + 1)

/-- The branch of `pty_set_termios` for a change of mode. -/
def changeMode (input : Input) (canonical : Bool) : Input :=
  let (buffer, flags, out) :=
    (List.range input.ptrSlave).foldl keepByte (input.slaveBuffer, input.inputFlags, 0)
  if canonical && out != 0 then ⟨buffer, update flags (out - 1) inputEnd, out, out⟩
  else ⟨buffer, flags, out, 0⟩

end Input

/-- `pty_set_termios`. -/
def Pair.setTermios (pair : Pair) (term : Termios) (flush : Bool) : Pair :=
  let input := if flush then pair.input.flush else pair.input
  { pair with
    input :=
      if hasFlag (pair.term.lflag ^^^ term.lflag) Flag.icanon then input.changeMode term.canonical
      else input
    term }

namespace Input

/-- The byte ends a line. -/
def Ends (input : Input) (i : ℕ) : Prop := (input.inputFlags i &&& inputEnd != 0) = true

/-- In canonical mode the ends of lines are below `canonicalStart`, the last one right below it,
and without any the buffer is not full. -/
structure Marked (input : Input) (canonical : Bool) : Prop where
  slave : input.ptrSlave ≤ bufferSize
  start : input.canonicalStart ≤ input.ptrSlave
  below : canonical = true → ∀ i < input.ptrSlave, input.Ends i → i < input.canonicalStart
  last : canonical = true → 0 < input.canonicalStart → input.Ends (input.canonicalStart - 1)
  short : canonical = true → input.canonicalStart = 0 → input.ptrSlave < bufferSize

variable {input : Input} {canonical : Bool}

theorem marked_flush (input : Input) (canonical : Bool) : input.flush.Marked canonical where
  slave := Nat.zero_le _
  start := Nat.le_refl _
  below := fun _ i hi => absurd hi (Nat.not_lt_zero i)
  last := fun _ hpos => absurd hpos (Nat.lt_irrefl 0)
  short := fun _ _ => (by decide : 0 < bufferSize)

section

variable (h : input.Marked canonical)
include h

theorem Marked.cut {kept : ℕ} (hstart : input.canonicalStart ≤ kept)
    (hle : kept ≤ input.ptrSlave) : Marked { input with ptrSlave := kept } canonical where
  slave := Nat.le_trans hle h.slave
  start := hstart
  below := fun hcanonical i hi => h.below hcanonical i (Nat.lt_of_lt_of_le hi hle)
  last := h.last
  short := fun hcanonical hzero => Nat.lt_of_le_of_lt hle (h.short hcanonical hzero)

/-- A byte is stored. One that ends no line finds a line before it, or leaves a place. -/
theorem Marked.store {ch : UInt8} {ends eof : Bool} (hroom : input.ptrSlave ≠ bufferSize)
    (hshort : canonical = true → ends = false → input.canonicalStart = 0 →
      input.ptrSlave < bufferSize - 1) : (input.store ch ends eof).Marked canonical where
  slave := Nat.lt_of_le_of_ne h.slave hroom
  start := by
    have hstart := h.start
    simp only [Input.store]
    split <;> omega
  below := by
    intro hcanonical i hi hends
    simp only [Input.store, Ends] at hi hends ⊢
    by_cases hnew : i = input.ptrSlave
    · rw [hnew, update_self] at hends
      cases ends with
      | true => exact hnew ▸ Nat.lt_succ_self _
      | false => exact absurd hends (by simp)
    · rw [update_of_ne hnew] at hends
      have hbelow := h.below hcanonical i (by omega) hends
      split <;> omega
  last := by
    intro hcanonical hpos
    simp only [Input.store, Ends] at hpos ⊢
    cases ends with
    | true =>
      simp only [if_true, Nat.add_sub_cancel, update_self]
      cases eof <;> decide
    | false =>
      simp only [Bool.false_eq_true, if_false] at hpos ⊢
      have hstart := h.start
      rw [update_of_ne (by omega)]
      exact h.last hcanonical hpos
  short := by
    intro hcanonical hzero
    simp only [Input.store] at hzero ⊢
    cases ends with
    | true => simp at hzero
    | false =>
      have hless := hshort hcanonical rfl hzero
      omega

/-- Bytes are read; in canonical mode not beyond the lines, unless there is no line. -/
theorem Marked.consume {consumed : ℕ} (hpos : 0 < consumed)
    (hle : consumed ≤ input.ptrSlave) : (input.consume consumed).Marked canonical where
  slave := Nat.le_trans (Nat.sub_le ..) h.slave
  start := by
    have hstart := h.start
    simp only [Input.consume]
    split <;> omega
  below := by
    intro hcanonical i hi hends
    simp only [Input.consume, Ends, moved] at hi hends ⊢
    rw [if_pos hi] at hends
    have hbelow := h.below hcanonical (i + consumed) (by omega) hends
    rw [if_pos (by omega)]
    omega
  last := by
    intro hcanonical hstart
    have hends := h.start
    simp only [Input.consume, Ends, moved] at hstart ⊢
    split at hstart
    · rename_i hless
      rw [if_pos hless, if_pos (by omega),
        show input.canonicalStart - consumed - 1 + consumed = input.canonicalStart - 1 by omega]
      exact h.last hcanonical (by omega)
    · omega
  short := by
    intro hcanonical hzero
    have hslave := h.slave
    simp only [Input.consume]
    omega

end

theorem foldl_keepByte (buffer flags : ℕ → UInt8) (count : ℕ) :
    ((List.range count).foldl keepByte (buffer, flags, 0)).2.2 ≤ count ∧
      ∀ j, j < ((List.range count).foldl keepByte (buffer, flags, 0)).2.2 →
        ((List.range count).foldl keepByte (buffer, flags, 0)).2.1 j = 0 := by
  induction count with
  | zero => exact ⟨Nat.le_refl _, fun j hj => absurd hj (Nat.not_lt_zero j)⟩
  | succ count ih =>
    rw [List.range_succ, List.foldl_append, List.foldl_cons, List.foldl_nil]
    generalize (List.range count).foldl keepByte (buffer, flags, 0) = arrays at ih
    obtain ⟨kept, marks, out⟩ := arrays
    obtain ⟨hle, hzero⟩ := ih
    dsimp only at hle hzero
    rw [keepByte]
    split
    · exact ⟨Nat.le_succ_of_le hle, hzero⟩
    · refine ⟨Nat.succ_le_succ hle, fun j hj => ?_⟩
      by_cases hlast : j = out
      · rw [hlast]
        exact update_self ..
      · exact (update_of_ne hlast ..).trans (hzero j (by dsimp only at hj; omega))

theorem marked_changeMode (hslave : input.ptrSlave ≤ bufferSize) (canonical : Bool) :
    (input.changeMode canonical).Marked canonical := by
  have hfold := foldl_keepByte input.slaveBuffer input.inputFlags input.ptrSlave
  rw [changeMode]
  generalize (List.range input.ptrSlave).foldl keepByte
    (input.slaveBuffer, input.inputFlags, 0) = arrays at hfold
  obtain ⟨buffer, flags, out⟩ := arrays
  obtain ⟨hle, hzero⟩ := hfold
  dsimp only at hle hzero ⊢
  split
  · rename_i hmode
    simp only [Bool.and_eq_true, bne_iff_ne] at hmode
    refine ⟨Nat.le_trans hle hslave, Nat.le_refl _, fun _ i hi _ => hi, fun _ _ => ?_,
      fun _ hnone => absurd hnone hmode.2⟩
    simp only [Ends, update_self]
    decide
  · rename_i hmode
    refine ⟨Nat.le_trans hle hslave, Nat.zero_le _, fun _ i hi hends => ?_,
      fun _ hpos => absurd hpos (Nat.lt_irrefl 0), fun hcanonical _ => ?_⟩
    · simp only [Ends, hzero i hi] at hends
      cases hends
    · have hout : out = 0 := by simpa [hcanonical] using hmode
      rw [hout]
      exact (by decide : 0 < bufferSize)

end Input

namespace Pair

/-- The pointers are inside the buffers and the lines are marked. -/
structure Safe (pair : Pair) : Prop where
  input : pair.input.Marked pair.term.canonical
  master : pair.output.ptrMaster ≤ bufferSize

variable {pair after : Pair} {echo : Bool × Pair} {ch : UInt8}

section

variable (h : pair.Safe)
include h

theorem Safe.echoed (hecho : Echoed pair echo) : echo.2.Safe := by
  refine ⟨?_, hecho.master h.master⟩
  rw [hecho.input, hecho.term]
  exact h.input

theorem Safe.afterEcho (hecho : Echoed pair echo) {change : Input → Input}
    (hmarked : (change pair.input).Marked pair.term.canonical) :
    (afterEcho echo change).2.Safe := by
  rw [Pair.afterEcho]
  split
  · refine ⟨?_, hecho.master h.master⟩
    rw [hecho.input, hecho.term]
    exact hmarked
  · have hsafe := h.echoed hecho
    exact hsafe

theorem Safe.inputSignal (ch : UInt8) : (pair.inputSignal ch).Safe := by
  rw [Pair.inputSignal]
  split
  · exact Safe.echoed ⟨Input.marked_flush _ _, Nat.zero_le _⟩ (echoed_echoChar _ ch)
  · exact h.echoed (pair.echoed_echoChar ch)

theorem Safe.inputErase (ch : UInt8) : (pair.inputErase ch).2.Safe := by
  rw [Pair.inputErase]
  split
  · exact h
  · have hstart := h.input.start
    exact h.afterEcho (pair.echoed_eraseEcho ch) (h.input.cut (by omega) (Nat.sub_le ..))

theorem Safe.inputKill (ch : UInt8) : (pair.inputKill ch).2.Safe :=
  h.afterEcho (pair.echoed_killEcho ch) (h.input.cut (Nat.le_refl _) h.input.start)

theorem Safe.inputOther (ch : UInt8) : (pair.inputOther ch).2.Safe := by
  rw [Pair.inputOther]
  split
  · exact h
  rename_i hkeep
  split
  · exact h
  rename_i hroom
  refine h.afterEcho (pair.echoed_otherEcho ch _)
    (h.input.store hroom fun hcanonical hends hzero => ?_)
  -- The branch for an overlong line was not taken.
  by_contra hfull
  refine hkeep ?_
  simp only [Bool.and_eq_true, Bool.not_eq_true', decide_eq_true_eq, beq_iff_eq]
  exact ⟨⟨⟨hcanonical, hends⟩, by omega⟩, hzero⟩

theorem Safe.ptyInputByte (byte : UInt8) : (pair.ptyInputByte byte).2.2.Safe := by
  rw [Pair.ptyInputByte]
  split
  · exact h
  split
  · exact h.inputSignal _
  dsimp only
  split
  · exact h.inputErase _
  split
  · exact h.inputKill _
  · exact h.inputOther _

end

/-- What can be read is in the buffer. -/
theorem ptsDataAvailable_le (pair : Pair) : pair.ptsDataAvailable ≤ pair.input.ptrSlave := by
  rw [ptsDataAvailable]
  split
  · exact Nat.le_refl _
  split
  · rename_i index hfind
    exact List.mem_range.mp (List.mem_of_find?_eq_some hfind)
  · exact Nat.zero_le _

theorem Safe.ptsRead (h : pair.Safe) {size : ℕ} {bytes : List UInt8}
    (hread : pair.ptsRead size = some (bytes, after)) : after.Safe := by
  have havailable := pair.ptsDataAvailable_le
  rw [Pair.ptsRead] at hread
  split at hread
  · cases hread
    exact h
  dsimp only at hread
  generalize hmost : (if pair.ptsDataAvailable = 0 ∧ pair.masterFds = 0 then pair.input.ptrSlave
    else pair.ptsDataAvailable) = available at hread
  have hle : available ≤ pair.input.ptrSlave := by
    rw [← hmost]
    split <;> omega
  split at hread
  · injection hread with hread
    obtain rfl := (Prod.mk.inj hread).2
    refine And.elim (fun hmin hmax => ⟨h.input.consume hmin hmax, h.master⟩) ?_
    cases pair.term.canonical && pair.input.inputFlags (available - 1) &&& inputEof != 0
    · simp only [Bool.false_and, Bool.false_eq_true, if_false]
      omega
    · simp only [Bool.true_and, if_true, beq_iff_eq]
      split <;> omega
  · split at hread
    · cases hread
      exact h
    · cases hread

theorem and_eq_of_xor_and {a b c : UInt32} (h : (a ^^^ b) &&& c = 0) : a &&& c = b &&& c := by
  apply UInt32.toBitVec_inj.mp
  have hbits := UInt32.toBitVec_inj.mpr h
  ext i hi
  have hbit := congrArg (fun v => v.getLsbD i) hbits
  simp only [UInt32.toBitVec_and, UInt32.toBitVec_xor, UInt32.toBitVec_ofNat] at hbit
  simp only [UInt32.toBitVec_and]
  grind

theorem canonical_eq_of_not_changed {a b : Termios}
    (h : ¬ hasFlag (a.lflag ^^^ b.lflag) Flag.icanon = true) : a.canonical = b.canonical := by
  simp only [hasFlag, Bool.not_eq_true, bne_eq_false_iff_eq] at h
  rw [Termios.canonical, Termios.canonical, hasFlag, hasFlag, and_eq_of_xor_and h]

theorem Safe.setTermios (h : pair.Safe) (term : Termios) (flush : Bool) :
    (pair.setTermios term flush).Safe := by
  have hmarked : (if flush then pair.input.flush else pair.input).Marked pair.term.canonical := by
    cases flush with
    | true => exact Input.marked_flush _ _
    | false => exact h.input
  refine ⟨?_, h.master⟩
  rw [Pair.setTermios]
  split
  · exact Input.marked_changeMode hmarked.slave _
  · rename_i hsame
    rw [← canonical_eq_of_not_changed hsame]
    exact hmarked

/-- What can happen to a pair with its lock held: a byte, a turn of `ptmx_write`, of `pts_read`
and of `ptmx_read`, output of the slave, a flush, new settings, and handles that are opened and
closed. -/
inductive PtyAction
  | inputByte (byte : UInt8)
  | ptmxWrite (byte : UInt8)
  | ptsRead (size : ℕ)
  | ptsWriteInner (bytes : List UInt8)
  | flushInput
  | setTermios (term : Termios) (flush : Bool)
  | ptmxRead (size : ℕ)
  | handles (masterFds slaveFds : ℕ)

def perform (pair : Pair) : PtyAction → Pair
  | .inputByte byte => (pair.ptyInputByte byte).2.2
  | .ptmxWrite byte => if pair.slaveFds = 0 then pair else (pair.ptyInputByte byte).2.2
  | .ptsRead size => (pair.ptsRead size).elim pair Prod.snd
  | .ptsWriteInner bytes => { pair with output := pair.output.writeInner pair.term bytes }
  | .flushInput => { pair with input := pair.input.flush }
  | .setTermios term flush => pair.setTermios term flush
  | .ptmxRead size => pair.ptmxRead size
  | .handles masterFds slaveFds => { pair with masterFds, slaveFds }

theorem safe_perform (pair : Pair) (action : PtyAction) (h : pair.Safe) :
    (pair.perform action).Safe := by
  cases action with
  | inputByte byte => exact h.ptyInputByte byte
  | ptmxWrite byte =>
    simp only [perform]
    split
    · exact h
    · exact h.ptyInputByte byte
  | ptsRead size =>
    simp only [perform]
    cases hread : pair.ptsRead size with
    | none => exact h
    | some result => exact h.ptsRead hread
  | ptsWriteInner bytes => exact ⟨h.input, Output.writeInner_le _ bytes h.master⟩
  | flushInput => exact ⟨Input.marked_flush _ _, h.master⟩
  | setTermios term flush => exact h.setTermios term flush
  | ptmxRead size => exact ⟨h.input, Nat.le_trans (Nat.sub_le ..) h.master⟩
  | handles masterFds slaveFds => exact ⟨h.input, h.master⟩

/-- Without a complete line there is none marked. -/
theorem Safe.start_eq_zero (h : pair.Safe) (hcanonical : pair.term.canonical = true)
    (hnone : pair.ptsDataAvailable = 0) : pair.input.canonicalStart = 0 := by
  by_contra hpos
  have hstart := h.input.start
  have hends := h.input.last hcanonical (by omega)
  rw [ptsDataAvailable, if_neg (by simp [hcanonical])] at hnone
  split at hnone
  · cases hnone
  · rename_i hfind
    exact List.find?_eq_none.mp hfind (pair.input.canonicalStart - 1)
      (List.mem_range.mpr (by omega)) hends

/-- The character as which a byte ends a line. -/
def delimiter (term : Termios) (byte : UInt8) : Option UInt8 :=
  (mapByte term byte).filter fun ch => (signalOf term ch).isNone &&
    !term.ccMatches .verase ch && !term.ccMatches .vkill ch && endsLine term ch

/-- A character that ends a line is stored where there is room for it and its echo. -/
theorem inputOther_stores (hroom : pair.input.ptrSlave < bufferSize)
    (hends : endsLine pair.term ch = true) (hecho : (pair.echoChar ch).1 = true) :
    (pair.inputOther ch).1 = true ∧
      (pair.inputOther ch).2.input.canonicalStart = pair.input.ptrSlave + 1 := by
  have hmade : ∀ eof : Bool, (if !eof then pair.echoChar ch else (true, pair)).1 = true := by
    intro eof
    cases eof with
    | false => exact hecho
    | true => rfl
  rw [inputOther, hends, if_neg (by simp), if_neg (by omega), afterEcho, if_pos (hmade _)]
  refine ⟨rfl, ?_⟩
  rw [(pair.echoed_otherEcho ch _).input]
  rfl

theorem ptyInputByte_stores {byte : UInt8} (hroom : pair.input.ptrSlave < bufferSize)
    (hends : delimiter pair.term byte = some ch) (hecho : (pair.echoChar ch).1 = true) :
    (pair.ptyInputByte byte).1 = true ∧
      (pair.ptyInputByte byte).2.2.input.canonicalStart = pair.input.ptrSlave + 1 := by
  obtain ⟨hmapped, hkind⟩ := Option.filter_eq_some_iff.mp hends
  simp only [Bool.and_eq_true, Option.isNone_iff_eq_none, Bool.not_eq_true'] at hkind
  obtain ⟨⟨⟨hsignal, herase⟩, hkill⟩, hline⟩ := hkind
  have hstored := inputOther_stores hroom hline hecho
  simp only [ptyInputByte, hmapped, hsignal, herase, hkill, Bool.and_false, Bool.false_eq_true,
    if_false]
  exact hstored

/-- Whatever is written, read and set: the pointers stay inside the buffers, in canonical mode
the ends of lines are below `canonicalStart` and the last one right below it, a byte that is
not consumed changes nothing, and without a complete line there is a place for the byte that
completes it. -/
theorem pty_backpressure (term : Termios) (masters slaves : ℕ) (actions : List PtyAction) :
    let pair := Protocol.run perform (opened term masters slaves) actions
    (pair.input.ptrSlave ≤ bufferSize ∧ pair.output.ptrMaster ≤ bufferSize ∧
      pair.input.canonicalStart ≤ pair.input.ptrSlave) ∧
    (pair.term.canonical = true →
      (∀ i < pair.input.ptrSlave, pair.input.Ends i → i < pair.input.canonicalStart) ∧
      (0 < pair.input.canonicalStart → pair.input.Ends (pair.input.canonicalStart - 1))) ∧
    (∀ byte, (pair.ptyInputByte byte).1 = false → (pair.ptyInputByte byte).2.2 = pair) ∧
    (pair.term.canonical = true → pair.ptsDataAvailable = 0 → pair.input.ptrSlave < bufferSize ∧
      ∀ byte ch, delimiter pair.term byte = some ch → (pair.echoChar ch).1 = true →
        (pair.ptyInputByte byte).1 = true ∧
          (pair.ptyInputByte byte).2.2.input.canonicalStart = pair.input.ptrSlave + 1) := by
  have hsafe : (Protocol.run perform (opened term masters slaves) actions).Safe :=
    Protocol.invariant_run_of_step perform Safe safe_perform
      ⟨Input.marked_flush ⟨fun _ => 0, fun _ => 0, 0, 0⟩ _, Nat.zero_le _⟩ actions
  intro pair
  refine ⟨⟨hsafe.input.slave, hsafe.master, hsafe.input.start⟩,
    fun hcanonical => ⟨hsafe.input.below hcanonical, hsafe.input.last hcanonical⟩,
    fun byte => ptyInputByte_refused, fun hcanonical hnone => ?_⟩
  have hroom := hsafe.input.short hcanonical (hsafe.start_eq_zero hcanonical hnone)
  exact ⟨hroom, fun byte ch hends hecho => ptyInputByte_stores hroom hends hecho⟩

end Pair

end OpenXJ380.Terminal
