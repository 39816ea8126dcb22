/-
# The reference line editor

What a terminal in canonical mode is for, without buffers: the keys of a line are edited
until the line is completed, completed lines wait in a queue, and a read takes from the
first of them only. A `Session` is an editor with the history of what was typed, which
lines were completed and what the reads returned.
-/

import Mathlib

namespace OpenXJ380.Terminal

open List

/-- The meaning of the bytes: the translation of carriage return and newline, and which
characters are special. -/
structure Settings where
  ignoreReturn : Bool
  returnToNewline : Bool
  newlineToReturn : Bool
  keepOnSignal : Bool
  signal : UInt8 → Bool
  erase : UInt8 → Bool
  kill : UInt8 → Bool
  eof : UInt8 → Bool
  lineEnd : UInt8 → Bool

/-- What a typed byte asks for. -/
inductive Key
  | ignored
  | signal
  | erase
  | kill
  | eof
  | lineEnd (ch : UInt8)
  | ordinary (ch : UInt8)
  deriving DecidableEq, Repr

namespace Settings

section

variable (settings : Settings) (byte : UInt8)

/-- The byte after translation. -/
def translate : Option UInt8 :=
  if byte = 13 then
    if settings.ignoreReturn then none
    else if settings.returnToNewline then some 10
    else some 13
  else if byte = 10 ∧ settings.newlineToReturn then some 13
  else some byte

def keyOf (ch : UInt8) : Key :=
  if settings.signal ch then .signal
  else if settings.erase ch then .erase
  else if settings.kill ch then .kill
  else if settings.eof ch then .eof
  else if settings.lineEnd ch then .lineEnd ch
  else .ordinary ch

def key : Key :=
  match settings.translate byte with
  | none => .ignored
  | some ch => settings.keyOf ch

end

/-- A byte that is kept is not an end of file. -/
theorem eof_of_key {settings : Settings} {byte ch : UInt8}
    (kept : settings.key byte = .lineEnd ch ∨ settings.key byte = .ordinary ch) :
    settings.eof ch = false := by
  unfold key at kept
  cases translated : settings.translate byte with
  | none => simp [translated] at kept
  | some mapped =>
    simp only [translated, keyOf] at kept
    split_ifs at kept with _ _ _ eof <;> simp at kept
    all_goals exact kept ▸ Bool.not_eq_true _ ▸ eof

end Settings

/-- A completed line: what was typed and the character that ended it, or none for an end
of file. -/
structure Line where
  body : List UInt8
  ending : Option UInt8
  deriving DecidableEq, Repr

namespace Line

/-- What the line delivers. -/
def bytes (line : Line) : List UInt8 := line.body ++ line.ending.toList

/-- The line without its first bytes. -/
def rest (line : Line) (size : ℕ) : Line := ⟨line.body.drop size, line.ending⟩

variable {line : Line} {size : ℕ} (short : size < line.bytes.length)
include short

theorem size_le_body : size ≤ line.body.length := by
  cases ending : line.ending <;> simp [bytes, ending] at short <;> omega

theorem rest_bytes : (line.rest size).bytes = line.bytes.drop size := by
  rw [bytes, rest, bytes, drop_append_of_le_length (size_le_body short)]

end Line

/-- The completed lines that wait and the line being typed. -/
structure Editor where
  lines : List Line
  current : List UInt8
  deriving DecidableEq, Repr

namespace Editor

def empty : Editor := ⟨[], []⟩

def complete (editor : Editor) (ending : Option UInt8) : Editor :=
  ⟨editor.lines ++ [⟨editor.current, ending⟩], []⟩

/-- A key changes the unfinished line, completes it, or flushes everything. -/
def press (settings : Settings) (editor : Editor) : Key → Editor
  | .ignored => editor
  | .signal => if settings.keepOnSignal then editor else empty
  | .erase => { editor with current := editor.current.dropLast }
  | .kill => { editor with current := [] }
  | .eof => editor.complete none
  | .lineEnd ch => editor.complete (some ch)
  | .ordinary ch => { editor with current := editor.current ++ [ch] }

variable (editor : Editor)

/-- A read takes what it has room for from the first line. -/
def read (size : ℕ) : Option (List UInt8 × Editor) :=
  match editor.lines with
  | [] => none
  | line :: rest =>
    some (line.bytes.take size,
      { editor with
        lines :=
          if line.bytes.length ≤ size then rest
          else line.rest size :: rest })

/-- The text of the waiting lines. -/
def pending : List UInt8 := (editor.lines.map Line.bytes).flatten

/-- Lines that deliver nothing: an end of file typed on an empty line. -/
def emptyLines : ℕ := editor.lines.countP (·.bytes = [])

variable (ending : Option UInt8)

theorem pending_complete :
    (editor.complete ending).pending = editor.pending ++ Line.bytes ⟨editor.current, ending⟩ := by
  simp [pending, complete]

theorem emptyLines_complete : (editor.complete ending).emptyLines =
      editor.emptyLines + if Line.bytes ⟨editor.current, ending⟩ = [] then 1 else 0 := by
  simp [emptyLines, complete]

end Editor

/-- The editor on typed bytes when nothing is read. -/
def edit (settings : Settings) (typed : List UInt8) : Editor :=
  typed.foldl (fun editor byte => editor.press settings (settings.key byte)) .empty

theorem edit_append (settings : Settings) (typed : List UInt8) (byte : UInt8) :
    edit settings (typed ++ [byte]) = (edit settings typed).press settings (settings.key byte) := by
  simp [edit]

/-- An editor with its history. `text` and `emptyEnds` are the text and the number of
empty lines among the completed lines, without what a flush took away unread. -/
structure Session where
  editor : Editor
  typed : List UInt8
  completed : List (List UInt8)
  reads : List (List UInt8)
  text : List UInt8
  emptyEnds : ℕ

namespace Session

def start : Session := ⟨.empty, [], [], [], [], 0⟩

/-- The history of a completed line. -/
def complete (session : Session) (ending : Option UInt8) : Session :=
  let line : Line := ⟨session.editor.current, ending⟩
  { session with
    editor := session.editor.complete ending
    completed := session.completed ++ [line.bytes]
    text := session.text ++ line.bytes
    emptyEnds := session.emptyEnds + if line.bytes = [] then 1 else 0 }

/-- A flush takes back what has not been read. -/
def flush (session : Session) : Session :=
  { session with
    editor := .empty
    text := session.reads.flatten
    emptyEnds := session.reads.countP (· = []) }

def press (settings : Settings) (session : Session) : Key → Session
  | .eof => session.complete none
  | .lineEnd ch => session.complete (some ch)
  | .signal => if settings.keepOnSignal then session else session.flush
  | key => { session with editor := session.editor.press settings key }

def type (settings : Settings) (session : Session) (byte : UInt8) : Session :=
  { session.press settings (settings.key byte) with typed := session.typed ++ [byte] }

def read (session : Session) (size : ℕ) : Session :=
  match session.editor.read size with
  | none => session
  | some (bytes, editor) =>
    { session with editor := editor, reads := session.reads ++ [bytes] }

theorem press_editor (settings : Settings) (session : Session) (key : Key) :
    (session.press settings key).editor = session.editor.press settings key := by
  cases key with
  | signal =>
    dsimp only [press, Editor.press]
    split_ifs <;> rfl
  | ignored | erase | kill | eof | lineEnd | ordinary => rfl

/-- A byte that flushes what is unread. -/
def Flushes (settings : Settings) (byte : UInt8) : Prop :=
  settings.key byte = .signal ∧ settings.keepOnSignal = false

/-- The invariant of a session. -/
structure Sound (settings : Settings) (session : Session) : Prop where
  text : session.text = session.reads.flatten ++ session.editor.pending
  emptyEnds : session.emptyEnds =
    session.reads.countP (· = []) + session.editor.emptyLines
  waiting : ∀ line ∈ session.editor.lines, ∃ whole ∈ session.completed, line.bytes <:+ whole
  pieces : ∀ bytes ∈ session.reads, ∃ whole ∈ session.completed, bytes <:+: whole
  current : ∀ ch ∈ session.editor.current, settings.eof ch = false
  completed : ∀ whole ∈ session.completed, ∀ ch ∈ whole, settings.eof ch = false
  edited : (∀ byte ∈ session.typed, ¬Flushes settings byte) →
    session.editor.current = (edit settings session.typed).current ∧
    session.text = (edit settings session.typed).pending ∧
    session.emptyEnds = (edit settings session.typed).emptyLines

theorem sound_start (settings : Settings) : start.Sound settings := by
  constructor <;> simp [start, Editor.empty, Editor.pending, Editor.emptyLines, edit]

variable {settings : Settings} {session : Session} {byte : UInt8} (sound : session.Sound settings)
include sound

theorem Sound.complete {ending : Option UInt8} (clean : ∀ ch ∈ ending, settings.eof ch = false)
    (same : ∀ editor : Editor, editor.press settings (settings.key byte) = editor.complete ending) :
    { session.complete ending with typed := session.typed ++ [byte] : Session }.Sound settings := by
  refine ⟨?_, ?_, ?_, ?_, ?_, ?_, ?_⟩
  · simp only [Session.complete, Editor.pending_complete, sound.text, append_assoc]
  · simp only [Session.complete, Editor.emptyLines_complete, sound.emptyEnds, Nat.add_assoc]
  · intro line member
    rcases mem_append.mp member with old | new
    · obtain ⟨whole, found, tail⟩ := sound.waiting line old
      exact ⟨whole, mem_append_left _ found, tail⟩
    · obtain rfl := mem_singleton.mp new
      exact ⟨_, mem_append_right _ (mem_singleton_self _), suffix_rfl⟩
  · intro bytes member
    obtain ⟨whole, found, part⟩ := sound.pieces bytes member
    exact ⟨whole, mem_append_left _ found, part⟩
  · simp [Session.complete, Editor.complete]
  · intro whole member ch inside
    rcases mem_append.mp member with old | new
    · exact sound.completed whole old ch inside
    · obtain rfl := mem_singleton.mp new
      rcases mem_append.mp inside with typed | last
      · exact sound.current ch typed
      · exact clean ch (by simpa using last)
  · intro calm
    obtain ⟨current, text, ends⟩ :=
      sound.edited fun other member => calm other (mem_append_left _ member)
    simp only [Session.complete, edit_append, same, Editor.pending_complete,
      Editor.emptyLines_complete, current, text, ends]
    exact ⟨rfl, trivial, trivial⟩

theorem Sound.change (change : List UInt8 → List UInt8)
    (clean : ∀ ch ∈ change session.editor.current, settings.eof ch = false)
    (same : ∀ editor : Editor, editor.press settings (settings.key byte) =
      { editor with current := change editor.current }) :
    Session.Sound settings
      { session with
        editor := { session.editor with current := change session.editor.current }
        typed := session.typed ++ [byte] } := by
  refine ⟨sound.text, sound.emptyEnds, sound.waiting, sound.pieces, clean, sound.completed, ?_⟩
  intro calm
  obtain ⟨current, text, ends⟩ :=
    sound.edited fun other member => calm other (mem_append_left _ member)
  rw [edit_append, same]
  exact ⟨congrArg change current, text, ends⟩

theorem Sound.flush (flushes : Flushes settings byte) :
    { session.flush with typed := session.typed ++ [byte] : Session }.Sound settings := by
  refine ⟨?_, ?_, ?_, sound.pieces, ?_, sound.completed, fun calm => ?_⟩
  · simp [Session.flush, Editor.pending, Editor.empty]
  · simp [Session.flush, Editor.emptyLines, Editor.empty]
  · simp [Session.flush, Editor.empty]
  · simp [Session.flush, Editor.empty]
  · exact absurd flushes (calm byte (by simp))

theorem Sound.type (byte : UInt8) : (session.type settings byte).Sound settings := by
  unfold Session.type
  cases key : settings.key byte with
  | ignored => exact sound.change id sound.current fun editor => by rw [key]; rfl
  | signal =>
    dsimp only [press]
    by_cases keep : settings.keepOnSignal = true
    · rw [if_pos keep]
      exact sound.change id sound.current fun editor => by
        simp only [key, Editor.press, if_pos keep]
        rfl
    · rw [if_neg keep]
      exact sound.flush ⟨key, Bool.not_eq_true _ ▸ keep⟩
  | erase =>
    refine sound.change List.dropLast (fun ch member => ?_) fun editor => by rw [key]; rfl
    exact sound.current ch (dropLast_subset _ member)
  | kill => exact sound.change (fun _ => []) (by simp) fun editor => by rw [key]; rfl
  | eof => exact sound.complete (by simp) fun editor => by rw [key]; rfl
  | lineEnd ch =>
    refine sound.complete (fun other member => ?_) fun editor => by rw [key]; rfl
    obtain rfl : ch = other := by simpa using member
    exact Settings.eof_of_key (.inl key)
  | ordinary ch =>
    refine sound.change (· ++ [ch]) (fun other member => ?_) fun editor => by rw [key]; rfl
    rcases mem_append.mp member with old | new
    · exact sound.current other old
    · rw [mem_singleton.mp new]
      exact Settings.eof_of_key (.inr key)

/-- A read that has room for anything. -/
theorem Sound.read {size : ℕ} (room : 0 < size) : (session.read size).Sound settings := by
  unfold Session.read Editor.read
  cases lines : session.editor.lines with
  | nil => exact sound
  | cons line rest =>
    obtain ⟨whole, found, tail⟩ := sound.waiting line (by simp [lines])
    have text := sound.text
    have ends := sound.emptyEnds
    simp only [Editor.pending, Editor.emptyLines, lines] at text ends
    have split := take_append_drop size line.bytes
    have later : ∀ other ∈ rest, ∃ whole ∈ session.completed, other.bytes <:+ whole :=
      fun other member => sound.waiting other (by simp [lines, member])
    refine ⟨?_, ?_, ?_, ?_, sound.current, sound.completed, sound.edited⟩
    · simp only [Editor.pending]
      split_ifs with all
      · simpa [take_of_length_le all] using text
      · rw [map_cons, flatten_cons, Line.rest_bytes (Nat.lt_of_not_le all),
          flatten_append, flatten_singleton, append_assoc, ← append_assoc _ _
          (rest.map Line.bytes).flatten, split]
        simpa using text
    · simp only [Editor.emptyLines, countP_append]
      rw [ends]
      split_ifs with all
      · rw [take_of_length_le all]
        simp only [countP_cons]
        ac_rfl
      · -- neither the piece nor the rest of a longer line is empty
        have longer := Nat.lt_of_not_le all
        have restBytes : (line.rest size).bytes ≠ [] := by
          rw [Line.rest_bytes longer]
          simpa using longer
        have nonempty : line.bytes ≠ [] := ne_nil_of_length_pos (Nat.zero_lt_of_lt longer)
        have piece : line.bytes.take size ≠ [] := by simpa [nonempty] using Nat.ne_of_gt room
        simp [restBytes, nonempty, piece]
    · intro other member
      simp only at member
      split_ifs at member with all
      · exact later other member
      · rcases mem_cons.mp member with rfl | behind
        · refine ⟨whole, found, ?_⟩
          rw [Line.rest_bytes (Nat.lt_of_not_le all)]
          exact (drop_suffix _ _).trans tail
        · exact later other behind
    · intro bytes member
      rcases mem_append.mp member with old | new
      · exact sound.pieces bytes old
      · obtain rfl := mem_singleton.mp new
        exact ⟨whole, found, (List.take_prefix _ _).isInfix.trans tail.isInfix⟩

end Session

end OpenXJ380.Terminal
