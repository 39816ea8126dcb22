/-
# Command lines

`append_cmdline_arg` (`src/kernel/task/pcb.cpp`) writes the arguments of a program into one text,
and `cmd_parse_limit` (`src/kernel/krlibc.cpp`) reads them again as they were. A text is the list
of its characters before the terminator, and memory is found.
-/

import Mathlib

namespace OpenXJ380.Cmdline

open List

abbrev Text := List UInt8

def space : UInt8 := 32
def apostrophe : UInt8 := 39
def quotes : UInt8 := 34
def backslash : UInt8 := 92

/-- `append_cmdline_char`: the terminator has to fit behind the character. -/
def appendCmdlineChar (size : ℕ) (cmdline : Text) (ch : UInt8) : Option Text :=
  if cmdline.length + 1 ≥ size then none else some (cmdline ++ [ch])

def appendIf (size : ℕ) (cond : Bool) (cmdline : Text) (ch : UInt8) : Option Text :=
  if cond then appendCmdlineChar size cmdline ch else some cmdline

/-- The loop over the characters of an argument. -/
def appendChars (size : ℕ) (quote : Bool) : Text → Text → Option Text
  | cmdline, [] => some cmdline
  | cmdline, c :: rest => do
    let escaped ← appendIf size (quote && (c = quotes || c = backslash)) cmdline backslash
    appendChars size quote (← appendCmdlineChar size escaped c) rest

def special (c : UInt8) : Bool := c = space || c = apostrophe || c = quotes || c = backslash

def needsQuote (arg : Text) : Bool := arg.isEmpty || arg.any special

def appendCmdlineArg (size : ℕ) (cmdline arg : Text) : Option Text := do
  let opened ← appendIf size (needsQuote arg) cmdline quotes
  let written ← appendChars size (needsQuote arg) opened arg
  appendCmdlineChar size (← appendIf size (needsQuote arg) written quotes) space

/-- The inner loop of `cmd_parse_limit`, with the quote that is open: the argument and the text
behind it. A backslash takes the next character as it is, except at the end of the text. -/
def parseArg (token : UInt8) : Option UInt8 → Text → Text × Text
  | _, [] => ([], [])
  | quote, c :: rest =>
    if quote = some c then parseArg token none rest
    else if quote = none ∧ c = token then ([], c :: rest)
    else if quote = none ∧ (c = apostrophe ∨ c = quotes) then parseArg token (some c) rest
    else match rest with
      | [] => ([c], [])
      | d :: tail =>
        if c = backslash then (parseArg token quote tail).map (d :: ·) id
        else (parseArg token quote (d :: tail)).map (c :: ·) id

def cmdParseLimit (token : UInt8) : ℕ → Text → List Text
  | 0, _ => []
  | max + 1, text =>
    match text.dropWhile (· = token) with
    | [] => []
    | c :: rest =>
      (parseArg token none (c :: rest)).1 ::
        cmdParseLimit token max (parseArg token none (c :: rest)).2

def escape (quote : Bool) (arg : Text) : Text :=
  arg.flatMap fun c => if quote && (c = quotes || c = backslash) then [backslash, c] else [c]

def printed (arg : Text) : Text :=
  if needsQuote arg then quotes :: escape true arg ++ [quotes, space]
  else escape false arg ++ [space]

variable {size : ℕ} {cmdline text arg : Text} {ch : UInt8}

theorem appendCmdlineChar_eq_some (h : appendCmdlineChar size cmdline ch = some text) :
    text = cmdline ++ [ch] := by
  unfold appendCmdlineChar at h
  split at h
  · cases h
  · exact (Option.some.inj h).symm

theorem appendIf_eq_some {cond : Bool} (h : appendIf size cond cmdline ch = some text) :
    text = cmdline ++ if cond then [ch] else [] := by
  cases cond with
  | false => simpa [appendIf] using h.symm
  | true => exact appendCmdlineChar_eq_some h

theorem appendChars_eq_some {quote : Bool} (h : appendChars size quote cmdline arg = some text) :
    text = cmdline ++ escape quote arg := by
  induction arg generalizing cmdline with
  | nil =>
    cases h
    simp [escape]
  | cons c rest ih =>
    simp only [appendChars, Option.bind_eq_bind, Option.bind_eq_some_iff] at h
    obtain ⟨escaped, hescaped, next, hnext, h⟩ := h
    rw [ih h, appendCmdlineChar_eq_some hnext, appendIf_eq_some hescaped]
    simp only [escape, flatMap_cons]
    split <;> simp

theorem appendCmdlineArg_eq_some (h : appendCmdlineArg size cmdline arg = some text) :
    text = cmdline ++ printed arg := by
  simp only [appendCmdlineArg, Option.bind_eq_bind, Option.bind_eq_some_iff] at h
  obtain ⟨opened, hopened, written, hwritten, closed, hclosed, h⟩ := h
  rw [appendCmdlineChar_eq_some h, appendIf_eq_some hclosed, appendChars_eq_some hwritten,
    appendIf_eq_some hopened, printed]
  cases needsQuote arg <;> simp

theorem foldlM_appendCmdlineArg {args : List Text}
    (h : args.foldlM (appendCmdlineArg size) cmdline = some text) :
    text = cmdline ++ args.flatMap printed := by
  induction args generalizing cmdline with
  | nil =>
    cases h
    simp
  | cons arg rest ih =>
    simp only [foldlM_cons, Option.bind_eq_bind, Option.bind_eq_some_iff] at h
    obtain ⟨next, hnext, h⟩ := h
    rw [ih h, appendCmdlineArg_eq_some hnext]
    simp

/-- The characters of an argument are read in the state in which they were written, up to the
place where that state ends. -/
theorem parseArg_escape {quote : Option UInt8} {d : UInt8} {tail rest : Text}
    (hquote : quote = none ∧ (∀ c ∈ arg, ¬special c) ∨ quote = some quotes)
    (hend : parseArg space quote (d :: tail) = ([], rest)) :
    parseArg space quote (escape quote.isSome arg ++ d :: tail) = (arg, rest) := by
  induction arg with
  | nil => exact hend
  | cons c arg ih =>
    have ih := ih (hquote.imp_left fun h => ⟨h.1, fun c hc => h.2 c (mem_cons_of_mem _ hc)⟩)
    obtain ⟨e, next, hnext⟩ : ∃ e next, escape quote.isSome arg ++ d :: tail = e :: next :=
      exists_cons_of_ne_nil (by simp)
    have hcons : escape quote.isSome (c :: arg) ++ d :: tail =
        (if quote.isSome && (c = quotes || c = backslash) then [backslash, c] else [c]) ++
          e :: next := by
      rw [← hnext, escape, flatMap_cons, append_assoc, escape]
    rw [hnext] at ih
    rw [hcons]
    rcases hquote with ⟨rfl, hplain⟩ | rfl
    · have hc := hplain c mem_cons_self
      simp only [special, Bool.or_eq_true, decide_eq_true_eq, not_or] at hc
      obtain ⟨⟨⟨hspace, hapostrophe⟩, hquotes⟩, hbackslash⟩ := hc
      simp [parseArg, ih, hspace, hapostrophe, hquotes, hbackslash]
    · by_cases hspecial : c = quotes ∨ c = backslash
      · have hne : quotes ≠ backslash := by decide
        simp [parseArg, ih, hspecial, hne]
      · obtain ⟨hquotes, hbackslash⟩ := not_or.mp hspecial
        simp [parseArg, ih, hbackslash, hquotes, Ne.symm hquotes]

theorem parseArg_printed (rest : Text) :
    parseArg space none (printed arg ++ rest) = (arg, space :: rest) := by
  have hspace : parseArg space none (space :: rest) = ([], space :: rest) := by
    cases rest <;> simp [parseArg]
  unfold printed
  split
  · have hclose : parseArg space (some quotes) (quotes :: space :: rest) = ([], space :: rest) := by
      simpa [parseArg] using hspace
    have hread := @parseArg_escape arg _ _ _ _ (.inr rfl) hclose
    obtain ⟨e, next, hnext⟩ : ∃ e next, escape true arg ++ quotes :: space :: rest = e :: next :=
      exists_cons_of_ne_nil (by simp)
    have hopen : quotes ≠ space := by decide
    simp_all [parseArg]
  · rename_i hplain
    have hread := @parseArg_escape arg _ _ _ _ (.inl ⟨rfl, by simp_all [needsQuote]⟩) hspace
    simpa using hread

theorem printed_eq_cons : ∃ c tail, printed arg = c :: tail ∧ c ≠ space := by
  unfold printed
  split
  · exact ⟨quotes, _, rfl, by decide⟩
  · rename_i hplain
    cases arg with
    | nil => simp [needsQuote] at hplain
    | cons c arg =>
      refine ⟨c, _, rfl, ?_⟩
      rintro rfl
      simp [needsQuote, special] at hplain

theorem cmdParseLimit_printed (args : List Text) {max : ℕ} (hmax : args.length ≤ max) :
    cmdParseLimit space max (args.flatMap printed) = args ∧
      cmdParseLimit space max (space :: args.flatMap printed) = args := by
  induction args generalizing max with
  | nil => cases max <;> simp [cmdParseLimit]
  | cons arg args ih =>
    cases max with
    | zero => simp at hmax
    | succ max =>
      obtain ⟨c, tail, hprinted, hc⟩ := @printed_eq_cons arg
      have hread := @parseArg_printed arg (args.flatMap printed)
      rw [flatMap_cons, hprinted, cons_append] at *
      simp [cmdParseLimit, hc, hread, (ih (by simpa using hmax)).2]

/-- Arguments that were all accepted are read back as they were. -/
theorem cmdline_round_trip {args : List Text} {max : ℕ} (hmax : args.length ≤ max)
    (h : args.foldlM (appendCmdlineArg size) [] = some cmdline) :
    cmdParseLimit space max cmdline = args := by
  rw [foldlM_appendCmdlineArg h]
  exact (cmdParseLimit_printed args hmax).1

/-- An empty argument, one with a space and one with quotes and a backslash. -/
theorem cmdline_round_trip_quoted :
    cmdParseLimit space 128 [34, 34, 32, 34, 97, 32, 98, 34, 32, 34, 92, 34, 92, 92, 34, 32] =
      [[], [97, 32, 98], [34, 92]] :=
  @cmdline_round_trip 32 _ _ 128 (by decide) (by decide)

end OpenXJ380.Cmdline
