/-
# The line discipline refines the line editor

The buffer of a pair in canonical mode holds the waiting lines of the reference editor,
each ended by a marked byte, and then the unfinished line; `canonicalStart` is where that
begins. Every turn of the loops keeps this, so that all reads return what the editor
returns, as long as no line is too long for the buffer and the echo has room.
-/

import OpenXJ380.Data.Window
import OpenXJ380.Protocol.Run
import OpenXJ380.Terminal.Editor
import OpenXJ380.Terminal.Model

namespace OpenXJ380.Terminal

open List Data Protocol

/-- The settings of the reference editor for a `termios`. -/
def Settings.ofTermios (term : Termios) : Settings where
  ignoreReturn := hasFlag term.iflag Flag.igncr
  returnToNewline := hasFlag term.iflag Flag.icrnl
  newlineToReturn := hasFlag term.iflag Flag.inlcr
  keepOnSignal := hasFlag term.lflag Flag.noflsh
  signal := fun ch => hasFlag term.lflag Flag.isig &&
    (term.ccMatches .vintr ch || term.ccMatches .vquit ch || term.ccMatches .vsusp ch)
  erase := term.ccMatches .verase
  kill := term.ccMatches .vkill
  eof := term.ccMatches .veof
  lineEnd := fun ch => ch == newline || term.ccMatches .veol ch ||
    (hasFlag term.lflag Flag.iexten && term.ccMatches .veol2 ch)

theorem mapByte_eq (term : Termios) (byte : UInt8) :
    Pair.mapByte term byte = (Settings.ofTermios term).translate byte := by
  simp only [Pair.mapByte, Settings.translate, carriageReturn, beq_iff_eq, Bool.and_eq_true]
  by_cases isReturn : byte = 13
  · rw [if_pos isReturn, if_pos isReturn, isReturn]
    rfl
  · rw [if_neg isReturn, if_neg isReturn]
    rfl

theorem signalOf_isSome (term : Termios) (ch : UInt8) :
    (Pair.signalOf term ch).isSome = (Settings.ofTermios term).signal ch := by
  simp only [Pair.signalOf, Settings.ofTermios]
  split_ifs <;> simp_all

/-- The mark of the last byte of a line. -/
def ending : Option UInt8 → UInt8 × UInt8
  | some ch => (ch, inputEnd)
  | none => (0, inputEnd ||| inputEof)

theorem ending_end (last : Option UInt8) : ((ending last).2 &&& inputEnd != 0) = true := by
  cases last with
  | none => decide
  | some ch => exact (by decide : (inputEnd &&& inputEnd != 0) = true)

theorem ending_eof (last : Option UInt8) : ((ending last).2 &&& inputEof != 0) = last.isNone := by
  cases last with
  | none => decide
  | some ch => exact (by decide : (inputEnd &&& inputEof != 0) = false)

/-- A line as it lies in the buffer. -/
def marked (line : Line) : List (UInt8 × UInt8) := line.body.map (·, 0) ++ [ending line.ending]

def encode (lines : List Line) : List (UInt8 × UInt8) := (lines.map marked).flatten

@[simp]
theorem length_marked (line : Line) : (marked line).length = line.body.length + 1 := by
  simp [marked]

@[simp]
theorem encode_cons (line : Line) (rest : List Line) :
    encode (line :: rest) = marked line ++ encode rest := by
  simp [encode]

theorem encode_append_singleton (lines : List Line) (line : Line) :
    encode (lines ++ [line]) = encode lines ++ marked line := by
  simp [encode]

theorem marked_drop {line : Line} {size : ℕ} (short : size ≤ line.body.length) :
    (marked line).drop size = marked (line.rest size) := by
  rw [marked, marked, drop_append_of_le_length (by simpa using short), Line.rest, map_drop]

namespace Input

/-- The used part of the buffer with its marks. -/
def contents (input : Input) : List (UInt8 × UInt8) :=
  window (fun index => (input.slaveBuffer index, input.inputFlags index)) input.ptrSlave

@[simp]
theorem length_contents (input : Input) : input.contents.length = input.ptrSlave :=
  length_window _ _

variable {input : Input}

theorem getElem?_contents {index : ℕ} {item : UInt8 × UInt8}
    (here : input.contents[index]? = some item) :
    index < input.ptrSlave ∧ input.inputFlags index = item.2 := by
  have below : index < input.ptrSlave := by
    rw [← input.length_contents]
    exact (List.getElem?_eq_some_iff.mp here).1
  rw [contents, window_getElem? below] at here
  exact ⟨below, congrArg Prod.snd (Option.some.inj here)⟩

theorem contents_store (input : Input) (ch : UInt8) (ends eof : Bool) :
    (input.store ch ends eof).contents = input.contents ++
      [(if eof then 0 else ch, if ends then inputEnd ||| (if eof then inputEof else 0) else 0)] := by
  rw [contents, contents, ← window_store]
  refine window_congr fun index _ => ?_
  by_cases last : index = input.ptrSlave
  · subst last
    simp [store]
  · simp [store, last]

theorem contents_take {kept : ℕ} (start : ℕ) (below : kept ≤ input.ptrSlave) :
    contents { input with ptrSlave := kept, canonicalStart := start } = input.contents.take kept :=
  window_take below

theorem contents_consume {consumed : ℕ} (below : consumed ≤ input.ptrSlave) :
    (input.consume consumed).contents = input.contents.drop consumed := by
  refine window_drop below fun index inside => ?_
  simp only [consume, moved, if_pos inside]

end Input

/-- The buffer holds what the editor holds. -/
structure Agrees (input : Input) (editor : Editor) : Prop where
  contents : input.contents = encode editor.lines ++ editor.current.map (·, 0)
  start : input.canonicalStart = (encode editor.lines).length
  room : input.ptrSlave ≤ bufferSize
  short : editor.current.length ≤ bufferSize - 1

namespace Agrees

variable {input : Input} {editor : Editor}

/-- The fill mark counts the waiting lines with their marks and the unfinished line. -/
theorem ptrSlave_eq (agrees : Agrees input editor) :
    input.ptrSlave = (encode editor.lines).length + editor.current.length := by
  rw [← input.length_contents, agrees.contents]
  simp

theorem flush (input : Input) : Agrees input.flush .empty :=
  ⟨rfl, rfl, Nat.zero_le _, Nat.zero_le _⟩

theorem eraseLast (agrees : Agrees input editor) (some : editor.current ≠ []) :
    Agrees { input with ptrSlave := input.ptrSlave - 1 }
      { editor with current := editor.current.dropLast } := by
  have ptr := agrees.ptrSlave_eq
  have positive := length_pos_iff.mpr some
  refine ⟨?_, agrees.start, Nat.le_trans (Nat.sub_le _ _) agrees.room, ?_⟩
  · have taken := Input.contents_take input.canonicalStart (Nat.sub_le input.ptrSlave 1)
    refine taken.trans ?_
    rw [agrees.contents, ptr, Nat.add_sub_assoc positive, take_length_add_append,
      ← map_take, dropLast_eq_take]
  · have short := agrees.short
    simp only [length_dropLast]
    omega

theorem kill (agrees : Agrees input editor) :
    Agrees { input with ptrSlave := input.canonicalStart } { editor with current := [] } := by
  have ptr := agrees.ptrSlave_eq
  have below : input.canonicalStart ≤ input.ptrSlave := by rw [ptr, agrees.start]; omega
  refine ⟨?_, agrees.start, Nat.le_trans below agrees.room, Nat.zero_le _⟩
  refine (Input.contents_take input.canonicalStart below).trans ?_
  rw [agrees.contents, agrees.start, take_left]
  simp

variable {ch : UInt8} (agrees : Agrees input editor)
include agrees

theorem ordinary (free : input.ptrSlave ≠ bufferSize)
    (short : (editor.current ++ [ch]).length ≤ bufferSize - 1) :
    Agrees (input.store ch false false) { editor with current := editor.current ++ [ch] } := by
  refine ⟨?_, agrees.start, Nat.lt_of_le_of_ne agrees.room free, short⟩
  rw [Input.contents_store, agrees.contents]
  simp

theorem complete (last : Option UInt8) (free : input.ptrSlave ≠ bufferSize)
    (same : (if last.isNone then 0 else ch,
      inputEnd ||| (if last.isNone then inputEof else 0)) = ending last) :
    Agrees (input.store ch true last.isNone) (editor.complete last) := by
  have stored : (input.store ch true last.isNone).contents = encode (editor.complete last).lines := by
    rw [Input.contents_store, agrees.contents, Editor.complete, encode_append_singleton, marked,
      append_assoc, if_pos rfl, same]
  refine ⟨?_, ?_, Nat.lt_of_le_of_ne agrees.room free, Nat.zero_le _⟩
  · simpa [Editor.complete] using stored
  · rw [← stored, Input.length_contents]
    simp [Input.store]

/-- Bytes of completed lines are removed from the front. -/
theorem consume {consumed : ℕ} {lines : List Line}
    (dropped : (encode editor.lines).drop consumed = encode lines)
    (below : consumed ≤ (encode editor.lines).length) :
    Agrees (input.consume consumed) { editor with lines := lines } := by
  have ptr := agrees.ptrSlave_eq
  have start := agrees.start
  refine ⟨?_, ?_, Nat.le_trans (Nat.sub_le _ _) agrees.room, agrees.short⟩
  · rw [Input.contents_consume (by omega), agrees.contents, drop_append_of_le_length below, dropped]
  · rw [← dropped, length_drop]
    simp only [Input.consume]
    split_ifs <;> omega

end Agrees

/-- The echo of one byte fits. -/
def Output.Drained (output : Output) : Prop := output.ptrMaster + 6 ≤ bufferSize

namespace Pair

variable {pair after : Pair} {editor edited : Editor} {echo : Bool × Pair} {ch : UInt8}

section

variable (drained : pair.output.Drained)
include drained

theorem echoBytes_drained {bytes : List UInt8}
    (small : bytes.length + bytes.count newline ≤ 6) : (pair.echoBytes bytes).1 = true := by
  unfold Output.Drained at drained
  unfold echoBytes
  rw [if_neg]
  split_ifs <;> omega

theorem echoChar_drained (ch : UInt8) : (pair.echoChar ch).1 = true := by
  have few : ∀ {bytes : List UInt8}, bytes.length ≤ 2 → (pair.echoBytes bytes).1 = true := by
    intro bytes short
    have count : bytes.count newline ≤ bytes.length := count_le_length
    exact echoBytes_drained drained (by omega)
  unfold echoChar
  dsimp only
  split
  · rfl
  split
  all_goals exact few (by simp)

theorem eraseEcho_drained (ch : UInt8) : (pair.eraseEcho ch).1 = true := by
  unfold eraseEcho
  dsimp only
  split_ifs
  · exact echoBytes_drained drained (by decide)
  · exact echoBytes_drained drained (by decide)
  · exact echoChar_drained drained ch
  · rfl

theorem killEcho_drained (ch : UInt8) : (pair.killEcho ch).1 = true := by
  unfold killEcho
  dsimp only
  split_ifs
  · exact echoBytes_drained drained (by decide)
  · exact echoChar_drained drained ch
  · rfl

end

/-- The byte is consumed, and the input is then that of the edited text. -/
structure Consumes (pair : Pair) (result : Bool × Pair) (edited : Editor) : Prop
    extends Same pair result.2 where
  consumed : result.1 = true
  agrees : Agrees result.2.input edited

theorem Echoed.agrees (echoed : Echoed pair echo) (agrees : Agrees pair.input editor) :
    Agrees echo.2.input editor := by
  rw [echoed.input]
  exact agrees

theorem Echoed.consumes (echoed : Echoed pair echo) (made : echo.1 = true) {change : Input → Input}
    (agrees : Agrees (change pair.input) edited) :
    Consumes pair (afterEcho echo change) edited := by
  rw [afterEcho, if_pos made]
  refine ⟨⟨echoed.term, echoed.masterFds, echoed.slaveFds⟩, rfl, ?_⟩
  rw [echoed.input]
  exact agrees

/-- What `ptmx_write` has of a byte that is refused or consumed. -/
theorem written {result : Bool × Pair}
    (h : result.1 = false ∧ editor.lines ≠ [] ∨ Consumes pair result edited) :
    (if result.1 = true then some result.2 else none) = none ∧ editor.lines ≠ [] ∨
      ∃ after, (if result.1 = true then some result.2 else none) = some after ∧ Same pair after ∧
        Agrees after.input edited := by
  rcases h with ⟨refused, waiting⟩ | consumes
  · exact .inl ⟨if_neg (by simp [refused]), waiting⟩
  · exact .inr ⟨result.2, if_pos consumes.consumed, consumes.toSame, consumes.agrees⟩

section

variable (agrees : Agrees pair.input editor)
include agrees

theorem inputSignal_agrees (ch : UInt8) :
    Same pair (pair.inputSignal ch) ∧ Agrees (pair.inputSignal ch).input
      (editor.press (Settings.ofTermios pair.term) .signal) := by
  simp only [inputSignal, Settings.ofTermios]
  by_cases keep : hasFlag pair.term.lflag Flag.noflsh = true
  · simp only [keep]
    have echoed := pair.echoed_echoChar ch
    exact ⟨echoed.toSame, echoed.agrees agrees⟩
  · simp only [keep]
    have echoed := echoed_echoChar
      { pair with input := pair.input.flush, output := { pair.output with ptrMaster := 0 } } ch
    exact ⟨⟨echoed.term, echoed.masterFds, echoed.slaveFds⟩, echoed.agrees (Agrees.flush _)⟩

theorem inputErase_agrees (drained : pair.output.Drained) (ch : UInt8) :
    Consumes pair (pair.inputErase ch) { editor with current := editor.current.dropLast } := by
  have ptr := agrees.ptrSlave_eq
  unfold inputErase
  by_cases none : editor.current = []
  · rw [if_pos (by rw [ptr, agrees.start, none]; rfl)]
    refine ⟨⟨rfl, rfl, rfl⟩, rfl, ?_⟩
    have same : { editor with current := editor.current.dropLast } = editor := by
      rw [none, dropLast_nil, ← none]
    rwa [same]
  · have positive := length_pos_iff.mpr none
    rw [if_neg (by rw [ptr, agrees.start]; omega)]
    exact (pair.echoed_eraseEcho ch).consumes (eraseEcho_drained drained ch) (agrees.eraseLast none)

theorem inputKill_agrees (drained : pair.output.Drained) (ch : UInt8) :
    Consumes pair (pair.inputKill ch) { editor with current := [] } :=
  (pair.echoed_killEcho ch).consumes (killEcho_drained drained ch) agrees.kill

/-- A full buffer has a complete line. -/
theorem lines_of_full (full : pair.input.ptrSlave = bufferSize) : editor.lines ≠ [] := by
  intro none
  have ptr := agrees.ptrSlave_eq
  have short := agrees.short
  rw [full, none] at ptr
  simp only [encode, map_nil, flatten_nil, length_nil, bufferSize] at ptr short
  omega

end

/-- What is stored in canonical mode, unless the buffer is full. -/
theorem inputOther_agrees (agrees : Agrees pair.input editor)
    (canonical : pair.term.canonical = true) (drained : pair.output.Drained) {eof ends : Bool}
    (isEof : (Settings.ofTermios pair.term).eof ch = eof)
    (isEnd : (eof || (Settings.ofTermios pair.term).lineEnd ch) = ends)
    (kept : ends = true ∨ pair.input.canonicalStart ≠ 0 ∨ pair.input.ptrSlave < bufferSize - 1)
    (stored : pair.input.ptrSlave ≠ bufferSize → Agrees (pair.input.store ch ends eof) edited) :
    (pair.inputOther ch).1 = false ∧ editor.lines ≠ [] ∨
      Consumes pair (pair.inputOther ch) edited := by
  have matching : pair.term.ccMatches .veof ch = eof := isEof
  have kind : endsLine pair.term ch = ends := by
    rw [← isEnd, endsLine, canonical, matching, Bool.true_and, Bool.true_and, Bool.or_assoc,
      Bool.or_assoc]
    simp only [Settings.ofTermios, Bool.or_assoc]
  have fits : ¬(true && !ends && decide (bufferSize - 1 ≤ pair.input.ptrSlave) &&
      pair.input.canonicalStart == 0) = true := by
    simp only [Bool.and_eq_true, Bool.not_eq_true', decide_eq_true_eq, beq_iff_eq]
    rintro ⟨⟨open?, long⟩, start⟩
    rcases kept with closed | later | room
    · exact absurd closed (by simp [open?])
    · exact later start
    · omega
  have made : (if !eof then pair.echoChar ch else (true, pair)).1 = true := by
    split_ifs
    · exact echoChar_drained drained ch
    · rfl
  unfold inputOther
  simp only [canonical, Bool.true_and, matching, kind] at fits ⊢
  rw [if_neg fits]
  by_cases full : pair.input.ptrSlave = bufferSize
  · rw [if_pos full]
    exact .inl ⟨rfl, lines_of_full agrees full⟩
  · rw [if_neg full]
    exact .inr ((pair.echoed_otherEcho ch eof).consumes made (stored full))

/-- One turn of `ptmx_write`: the byte is consumed as the editor does, or the buffer is
full and a line can be read. -/
theorem ptmxWriteByte_agrees (agrees : Agrees pair.input editor)
    (canonical : pair.term.canonical = true) (reader : pair.slaveFds ≠ 0)
    (drained : pair.output.Drained) {byte : UInt8}
    (short : (editor.press (Settings.ofTermios pair.term)
      ((Settings.ofTermios pair.term).key byte)).current.length ≤ bufferSize - 1) :
    pair.ptmxWriteByte byte = none ∧ editor.lines ≠ [] ∨
      ∃ after, pair.ptmxWriteByte byte = some after ∧ Same pair after ∧
        Agrees after.input (editor.press (Settings.ofTermios pair.term)
          ((Settings.ofTermios pair.term).key byte)) := by
  simp only [ptmxWriteByte, if_neg reader, ptyInputByte, mapByte_eq, Settings.key] at short ⊢
  cases translated : (Settings.ofTermios pair.term).translate byte with
  | none => exact .inr ⟨pair, rfl, ⟨rfl, rfl, rfl⟩, agrees⟩
  | some ch =>
    simp only [translated, Settings.keyOf] at short ⊢
    have interrupts := signalOf_isSome pair.term ch
    cases signal : signalOf pair.term ch with
    | some sent =>
      rw [signal, Option.isSome_some] at interrupts
      simp only [← interrupts]
      obtain ⟨same, after⟩ := inputSignal_agrees agrees ch
      exact .inr ⟨_, rfl, same, after⟩
    | none =>
      rw [signal, Option.isSome_none] at interrupts
      simp only [← interrupts] at short ⊢
      by_cases erase : (Settings.ofTermios pair.term).erase ch = true
      · have matching : pair.term.ccMatches .verase ch = true := erase
        simp only [canonical, matching, erase]
        exact written (.inr (inputErase_agrees agrees drained ch))
      have notErase : pair.term.ccMatches .verase ch = false := Bool.not_eq_true _ ▸ erase
      by_cases kill : (Settings.ofTermios pair.term).kill ch = true
      · have matching : pair.term.ccMatches .vkill ch = true := kill
        simp only [canonical, matching, notErase, erase, kill]
        exact written (.inr (inputKill_agrees agrees drained ch))
      have notKill : pair.term.ccMatches .vkill ch = false := Bool.not_eq_true _ ▸ kill
      simp only [canonical, notErase, notKill, erase, kill] at short ⊢
      -- The byte is stored, and the kinds differ in the mark.
      refine written ?_
      by_cases eof : (Settings.ofTermios pair.term).eof ch = true
      · simp only [eof]
        exact inputOther_agrees agrees canonical drained eof (Bool.true_or _) (.inl rfl)
          fun free => agrees.complete none free rfl
      have notEof := Bool.eq_false_iff.mpr eof
      by_cases ends : (Settings.ofTermios pair.term).lineEnd ch = true
      · simp only [notEof, ends]
        exact inputOther_agrees agrees canonical drained notEof ends (.inl rfl)
          fun free => agrees.complete (some ch) free (by simp [ending])
      have notEnds := Bool.eq_false_iff.mpr ends
      simp only [notEof, notEnds, Bool.false_eq_true, if_false] at short ⊢
      have room : pair.input.canonicalStart ≠ 0 ∨ pair.input.ptrSlave < bufferSize - 1 := by
        have ptr := agrees.ptrSlave_eq
        have start := agrees.start
        simp only [Editor.press, length_append, length_singleton] at short
        omega
      exact inputOther_agrees agrees canonical drained notEof notEnds (.inr room)
        fun free => agrees.ordinary free short

theorem ptsDataAvailable_nil (agrees : Agrees pair.input editor)
    (canonical : pair.term.canonical = true) (none : editor.lines = []) :
    pair.ptsDataAvailable = 0 := by
  have unmarked : (List.range pair.input.ptrSlave).find?
      (fun index => pair.input.inputFlags index &&& inputEnd != 0) = .none := by
    rw [List.find?_eq_none]
    intro index member
    have below := mem_range.mp member
    have ptr := agrees.ptrSlave_eq
    rw [none] at ptr
    have inside : index < editor.current.length := by simpa [encode, ptr] using below
    have here : pair.input.contents[index]? = some (editor.current[index], 0) := by
      rw [agrees.contents, none]
      simp [encode]
    simp [(Input.getElem?_contents here).2]
  simp only [ptsDataAvailable, canonical, Bool.not_true, Bool.false_eq_true, if_false, unmarked]

variable {line : Line} {rest : List Line} (agrees : Agrees pair.input editor)
include agrees

/-- The first line is available with its mark. -/
theorem ptsDataAvailable_cons
    (canonical : pair.term.canonical = true) (lines : editor.lines = line :: rest) :
    pair.ptsDataAvailable = line.body.length + 1 ∧
      (pair.input.inputFlags line.body.length &&& inputEof != 0) = line.ending.isNone := by
  have contents := agrees.contents
  rw [lines, encode_cons, marked, append_assoc, append_assoc, singleton_append] at contents
  have last : pair.input.contents[line.body.length]? = some (ending line.ending) := by
    rw [contents, List.getElem?_append_right (by simp)]
    simp
  obtain ⟨below, flag⟩ := Input.getElem?_contents last
  have marks : (List.range pair.input.ptrSlave).find?
      (fun index => pair.input.inputFlags index &&& inputEnd != 0) = some line.body.length := by
    rw [List.find?_range_eq_some]
    refine ⟨?_, mem_range.mpr below, fun index before => ?_⟩
    · rw [flag, ending_end]
    · have here : pair.input.contents[index]? = some (line.body[index], 0) := by
        rw [contents, List.getElem?_append_left (by simpa using before)]
        simp
      simp [(Input.getElem?_contents here).2]
  constructor
  · simp only [ptsDataAvailable, canonical, Bool.not_true, Bool.false_eq_true, if_false, marks]
  · rw [flag, ending_eof]

/-- The bytes that are copied are those of the first line. -/
theorem copied_eq (lines : editor.lines = line :: rest)
    {count : ℕ} (short : count ≤ line.bytes.length) :
    (List.range count).map pair.input.slaveBuffer = line.bytes.take count := by
  obtain ⟨tail, bytes⟩ : ∃ tail, (marked line).map Prod.fst = line.bytes ++ tail := by
    cases last : line.ending with
    | none => exact ⟨[0], by simp [marked, Line.bytes, ending, last, Function.comp_def]⟩
    | some ch => exact ⟨[], by simp [marked, Line.bytes, ending, last, Function.comp_def]⟩
  have all : window pair.input.slaveBuffer pair.input.ptrSlave =
      line.bytes ++ (tail ++ (encode rest ++ editor.current.map (·, 0)).map Prod.fst) := by
    rw [← append_assoc, ← bytes, ← map_append, ← append_assoc, ← encode_cons, ← lines,
      ← agrees.contents, Input.contents, window, window, map_map]
    rfl
  have below : count ≤ pair.input.ptrSlave := by
    have lengths := congrArg List.length all
    rw [length_window, length_append] at lengths
    omega
  have taken : window pair.input.slaveBuffer count =
      (window pair.input.slaveBuffer pair.input.ptrSlave).take count := window_take below
  rw [all, take_append_of_le_length short] at taken
  exact taken

/-- One turn of `pts_read` returns what the editor returns. -/
theorem ptsRead_agrees (canonical : pair.term.canonical = true)
    (writer : pair.masterFds ≠ 0) {size : ℕ} (room : 0 < size) :
    editor.read size = none ∧ pair.ptsRead size = none ∨
      ∃ bytes editorAfter after, editor.read size = some (bytes, editorAfter) ∧
        pair.ptsRead size = some (bytes, after) ∧ Same pair after ∧
        Agrees after.input editorAfter := by
  unfold ptsRead Editor.read
  rw [if_neg (Nat.ne_of_gt room)]
  simp only [writer, and_false, if_false]
  cases lines : editor.lines with
  | nil =>
    rw [ptsDataAvailable_nil agrees canonical lines]
    exact .inl ⟨rfl, rfl⟩
  | cons line rest =>
    obtain ⟨available, eof⟩ := ptsDataAvailable_cons agrees canonical lines
    right
    simp only [available, Nat.add_sub_cancel, canonical, Bool.true_and, eof]
    have length : line.body.length + 1 - (if line.ending.isNone = true then 1 else 0) =
        line.bytes.length := by
      cases last : line.ending <;> simp [Line.bytes, last]
    rw [length, copied_eq agrees lines (Nat.min_le_right _ _), ← take_eq_take_min]
    have consumed : (if (line.ending.isNone && min size line.bytes.length == line.body.length) = true
        then min size line.bytes.length + 1 else min size line.bytes.length) =
        if line.bytes.length ≤ size then (marked line).length else size := by
      cases last : line.ending <;> simp [Line.bytes, last] <;> split_ifs <;> omega
    rw [consumed]
    refine ⟨_, _, _, rfl, rfl, ⟨rfl, rfl, rfl⟩, ?_⟩
    by_cases all : line.bytes.length ≤ size
    · rw [if_pos all, if_pos all]
      exact agrees.consume (by rw [lines, encode_cons, drop_left])
        (by rw [lines, encode_cons, length_append]; omega)
    · have short := Line.size_le_body (Nat.lt_of_not_le all)
      rw [if_neg all, if_neg all]
      refine agrees.consume ?_ ?_
      · rw [lines, encode_cons, encode_cons,
          drop_append_of_le_length (by rw [length_marked]; omega), marked_drop short]
      · rw [lines, encode_cons, length_append, length_marked]
        omega

end Pair

/-- A pair with what its reads returned, and the reference session for the bytes that were
consumed and the reads that were answered. -/
structure System where
  pair : Pair
  reads : List (List UInt8)
  session : Session

/-- A turn of `ptmx_write`, of `pts_read` or of `ptmx_read`. -/
inductive Action
  | write (byte : UInt8)
  | read (size : ℕ)
  | drain (size : ℕ)

namespace System

def step (system : System) : Action → System
  | .write byte =>
    match system.pair.ptmxWriteByte byte with
    | none => system
    | some pair =>
      { system with
        pair := pair
        session := system.session.type (Settings.ofTermios system.pair.term) byte }
  | .read size =>
    match system.pair.ptsRead size with
    | none => system
    | some (bytes, pair) =>
      if size = 0 then { system with pair := pair }
      else
        { pair := pair
          reads := system.reads ++ [bytes]
          session := system.session.read size }
  | .drain size => { system with pair := system.pair.ptmxRead size }

/-- When a byte is written the echo has room, and no line becomes too long for the buffer
with its end. -/
def Admitted (system : System) : Action → Prop
  | .write byte => system.pair.output.Drained ∧
      (system.session.type (Settings.ofTermios system.pair.term) byte).editor.current.length ≤
        bufferSize - 1
  | _ => True

def initial (term : Termios) (masters slaves : ℕ) : System :=
  ⟨.opened term masters slaves, [], .start⟩

/-- The pair and the reference session agree. -/
structure Sound (term : Termios) (system : System) : Prop where
  fixed : system.pair.term = term
  writer : system.pair.masterFds ≠ 0
  reader : system.pair.slaveFds ≠ 0
  agrees : Agrees system.pair.input system.session.editor
  reads : system.reads = system.session.reads
  session : system.session.Sound (Settings.ofTermios term)

variable {term : Termios} {system : System}

theorem sound_initial (term : Termios) (masters slaves : ℕ) :
    (initial term masters slaves).Sound term :=
  ⟨rfl, Nat.succ_ne_zero _, Nat.succ_ne_zero _, ⟨rfl, rfl, Nat.zero_le _, Nat.zero_le _⟩, rfl,
    Session.sound_start _⟩

theorem type_editor (session : Session) (settings : Settings) (byte : UInt8) :
    (session.type settings byte).editor = session.editor.press settings (settings.key byte) :=
  session.press_editor settings (settings.key byte)

theorem type_reads (session : Session) (settings : Settings) (byte : UInt8) :
    (session.type settings byte).reads = session.reads := by
  simp only [Session.type]
  cases settings.key byte with
  | signal =>
    dsimp only [Session.press]
    split_ifs <;> rfl
  | ignored | erase | kill | eof | lineEnd | ordinary => rfl

section

variable (sound : system.Sound term)
include sound

variable (canonical : term.canonical = true)
include canonical

theorem Sound.write {byte : UInt8}
    (admitted : system.Admitted (.write byte)) : (system.step (.write byte)).Sound term := by
  obtain ⟨drained, short⟩ := admitted
  have mode : system.pair.term.canonical = true := sound.fixed ▸ canonical
  rw [type_editor] at short
  simp only [step]
  rcases Pair.ptmxWriteByte_agrees sound.agrees mode sound.reader drained short with
    ⟨refused, -⟩ | ⟨after, consumed, same, agrees⟩
  · rw [refused]
    exact sound
  rw [consumed]
  refine ⟨same.term.trans sound.fixed, same.masterFds ▸ sound.writer, same.slaveFds ▸ sound.reader,
    ?_, ?_, ?_⟩
  · rw [type_editor]
    exact agrees
  · rw [type_reads]
    exact sound.reads
  · rw [sound.fixed]
    exact sound.session.type byte

theorem Sound.read (size : ℕ) : (system.step (.read size)).Sound term := by
  have mode : system.pair.term.canonical = true := sound.fixed ▸ canonical
  simp only [step]
  by_cases none : size = 0
  · subst none
    exact sound
  have room := Nat.pos_of_ne_zero none
  rcases Pair.ptsRead_agrees sound.agrees mode sound.writer room with
    ⟨-, waits⟩ | ⟨bytes, editor, after, expected, result, same, agrees⟩
  · rw [waits]
    exact sound
  · have session := sound.session.read room
    simp only [Session.read, expected] at session
    simp only [result, if_neg none, Session.read, expected]
    exact ⟨same.term.trans sound.fixed, same.masterFds ▸ sound.writer,
      same.slaveFds ▸ sound.reader, agrees, by rw [sound.reads], session⟩

theorem Sound.step {action : Action}
    (admitted : system.Admitted action) : (system.step action).Sound term := by
  cases action with
  | write byte => exact sound.write canonical admitted
  | read size => exact sound.read canonical size
  | drain size =>
    exact ⟨sound.fixed, sound.writer, sound.reader, sound.agrees, sound.reads, sound.session⟩

end

/-- **Canonical input is that of the line editor.** After every admitted run of a pair in
canonical mode: the reads returned what the reads of the reference editor return on the
consumed bytes. Concatenated, they are the text of the completed lines, up to the lines
still waiting and without what a signal flushed; if nothing was flushed, these are the
lines the editor makes of the consumed bytes alone. Each read returned a part of one
completed line and no end-of-file character. The ends of file on an empty line are
as many as the empty reads and the empty lines waiting. The next read returns what the
editor returns, and a byte is refused only while a completed line is waiting. -/
theorem discipline_run (term : Termios) (canonical : term.canonical = true) (masters slaves : ℕ)
    {schedule : List Action}
    (admitted : Along step Admitted (initial term masters slaves) schedule) :
    let settings := Settings.ofTermios term
    let final := run step (initial term masters slaves) schedule
    final.reads = final.session.reads ∧
    final.reads.flatten ++ final.session.editor.pending = final.session.text ∧
    ((∀ byte ∈ final.session.typed, ¬Session.Flushes settings byte) →
      final.reads.flatten ++ final.session.editor.pending =
          (edit settings final.session.typed).pending ∧
        final.session.emptyEnds = (edit settings final.session.typed).emptyLines) ∧
    (∀ bytes ∈ final.reads, ∃ whole ∈ final.session.completed, bytes <:+: whole) ∧
    (∀ bytes ∈ final.reads, ∀ ch ∈ bytes, settings.eof ch = false) ∧
    final.reads.countP (· = []) + final.session.editor.emptyLines = final.session.emptyEnds ∧
    (∀ size, 0 < size → (final.pair.ptsRead size).map Prod.fst =
      (final.session.editor.read size).map Prod.fst) ∧
    ∀ byte, final.Admitted (.write byte) → final.pair.ptmxWriteByte byte = none →
      final.session.editor.lines ≠ [] := by
  intro settings final
  have sound : final.Sound term :=
    invariant_run step (Sound term) (fun _ _ allowed sound => sound.step canonical allowed)
      admitted (sound_initial term masters slaves)
  have mode : final.pair.term.canonical = true := sound.fixed ▸ canonical
  have text : final.reads.flatten ++ final.session.editor.pending = final.session.text := by
    rw [sound.reads, sound.session.text]
  have pieces : ∀ bytes ∈ final.reads, ∃ whole ∈ final.session.completed, bytes <:+: whole :=
    fun bytes member => sound.session.pieces bytes (sound.reads ▸ member)
  refine ⟨sound.reads, text, fun calm => ?_, pieces, fun bytes member ch inside => ?_, ?_,
    fun size room => ?_, fun byte allowed refused => ?_⟩
  · obtain ⟨-, same, ends⟩ := sound.session.edited calm
    exact ⟨text.trans same, ends⟩
  · obtain ⟨whole, found, part⟩ := pieces bytes member
    exact sound.session.completed whole found ch (part.subset inside)
  · rw [sound.reads, sound.session.emptyEnds]
  · rcases Pair.ptsRead_agrees sound.agrees mode sound.writer room with
      ⟨none, waits⟩ | ⟨bytes, editor, after, expected, result, -, -⟩
    · rw [none, waits]
      rfl
    · rw [expected, result]
      rfl
  · obtain ⟨drained, short⟩ := allowed
    rw [type_editor] at short
    rcases Pair.ptmxWriteByte_agrees sound.agrees mode sound.reader drained short with
      ⟨-, waiting⟩ | ⟨after, consumed, -⟩
    · exact waiting
    · exact absurd (consumed.symm.trans refused) (Option.some_ne_none _)

/-- A line with a correction, and an end of file on an empty line. -/
def sampleSchedule : List Action :=
  [.write 97, .write 98, .write 127, .write 13, .read 64, .write 4, .read 64]

/-- The line without the erased byte, and an empty read for the end of file. -/
theorem discipline_run_sample : ptyTermiosDefault.canonical = true ∧
      Along step Admitted (initial ptyTermiosDefault 0 0) sampleSchedule ∧
      (run step (initial ptyTermiosDefault 0 0) sampleSchedule).session.reads = [[97, 10], []] ∧
      (run step (initial ptyTermiosDefault 0 0) sampleSchedule).reads = [[97, 10], []] := by
  have canonical : ptyTermiosDefault.canonical = true := by decide
  have admitted : Along step Admitted (initial ptyTermiosDefault 0 0) sampleSchedule := by
    refine ⟨?_, ?_, ?_, ?_, trivial, ?_, trivial, trivial⟩
    all_goals exact ⟨by unfold Output.Drained; decide +kernel, by decide +kernel⟩
  have expected : (run step (initial ptyTermiosDefault 0 0) sampleSchedule).session.reads =
      [[97, 10], []] := by decide +kernel
  exact ⟨canonical, admitted, expected,
    (discipline_run ptyTermiosDefault canonical 0 0 admitted).1.trans expected⟩

end System

end OpenXJ380.Terminal
