/-
# Messages between processes

`src/kernel/task/ipc.cpp` keeps the messages of a process in one queue. `ipc_recv` looks for a
type by taking messages from the front and appending the others again; `ipc_free_type` does so
to drop all messages of a type. A search that ends in the middle leaves the queue rotated, and
the bound of the second loop shrinks while it runs.

So a message can come out before one of its type that was sent earlier, and messages of a
freed type can stay. Neither happens to a queue that holds at most one message of each type;
`boxes` is the abstract state, one first-in first-out box for each type.
-/

import OpenXJ380.Protocol.Run

namespace OpenXJ380.Task

open List Function

structure IpcMessage where
  type : UInt8
  data : Nat
  deriving DecidableEq

def isOf (type : UInt8) (message : IpcMessage) : Bool := message.type == type

def isNot (type : UInt8) (message : IpcMessage) : Bool := message.type != type

variable {type : UInt8} {message : IpcMessage}

@[simp]
theorem isOf_iff : isOf type message = true ↔ message.type = type := beq_iff_eq

@[simp]
theorem isNot_iff : isNot type message = true ↔ message.type ≠ type := bne_iff_ne

/-- The messages of a `lock_queue`, and the index its next node gets. -/
structure IpcQueue where
  messages : List IpcMessage
  nextIndex : Nat

namespace IpcQueue

/-- `lock_queue_enqueue`, with memory for the node; the last index is never given out. -/
def enqueue (q : IpcQueue) (message : IpcMessage) : IpcQueue :=
  if q.nextIndex = 2 ^ 64 - 1 then q
  else ⟨q.messages ++ [message], q.nextIndex + 1⟩

/-- `queue_dequeue`. -/
def dequeue (q : IpcQueue) : Option (IpcMessage × IpcQueue) :=
  match q.messages with
  | [] => none
  | message :: rest => some (message, { q with messages := rest })

/-- The loop of `ipc_recv`. -/
def recvLoop (type : UInt8) : (fuel i : Nat) → IpcQueue → Option IpcMessage × IpcQueue
  | 0, _, q => (none, q)
  | fuel + 1, i, q =>
    if i < q.messages.length then
      match q.dequeue with
      | none => (none, q)
      | some (message, rest) =>
        if message.type = type then (some message, rest)
        else recvLoop type fuel (i + 1) (rest.enqueue message)
    else (none, q)

/-- The loop of `ipc_free_type`. -/
def freeLoop (type : UInt8) : (fuel i : Nat) → IpcQueue → IpcQueue
  | 0, _, q => q
  | fuel + 1, i, q =>
    if i < q.messages.length then
      match q.dequeue with
      | none => q
      | some (message, rest) =>
        freeLoop type fuel (i + 1) (if message.type = type then rest else rest.enqueue message)
    else q

section

variable (q : IpcQueue)

section

variable (type : UInt8)

/-- `ipc_recv`; every turn raises the index, and the queue does not grow. -/
def recv : Option IpcMessage × IpcQueue := recvLoop type q.messages.length 0 q

/-- `ipc_free_type`. -/
def freeType : IpcQueue := freeLoop type q.messages.length 0 q

/-- The messages of one type, in the order of the queue. -/
def ofType : List IpcMessage := q.messages.filter (isOf type)

end

/-- There are indices left for a message and for a turn of the whole queue. -/
def Room : Prop := q.nextIndex + q.messages.length + 1 < 2 ^ 64

end

instance (q : IpcQueue) : Decidable q.Room := inferInstanceAs (Decidable (_ < _))

end IpcQueue

section Loops

variable {type : UInt8} {front back : List IpcMessage} {index fuel : Nat}
  (hfuel : back.length ≤ fuel)
include hfuel

variable (hroom : index + back.length < 2 ^ 64)
include hroom

/-- The front of the queue was passed and is behind its rest. The loop takes the first message
of the type, or the whole queue has turned around. -/
theorem recvLoop_eq : ∃ index', IpcQueue.recvLoop type fuel front.length ⟨back ++ front, index⟩ =
      match back.dropWhile (isNot type) with
      | [] => (none, ⟨front ++ back, index'⟩)
      | message :: rest =>
        (some message, ⟨rest ++ (front ++ back.takeWhile (isNot type)), index'⟩) := by
  induction back generalizing front index fuel with
  | nil =>
    refine ⟨index, ?_⟩
    cases fuel with
    | zero => simp [IpcQueue.recvLoop]
    | succ fuel => simp [IpcQueue.recvLoop]
  | cons message back ih =>
    obtain ⟨fuel, rfl⟩ : ∃ k, fuel = k + 1 := ⟨fuel - 1, by simp only [length_cons] at hfuel; omega⟩
    have hlt : front.length < (message :: back ++ front).length := by
      rw [length_append, length_cons]; omega
    rw [IpcQueue.recvLoop, if_pos hlt]
    simp only [IpcQueue.dequeue, cons_append]
    by_cases htype : message.type = type
    · refine ⟨index, ?_⟩
      rw [if_pos htype, dropWhile_cons_of_neg (by simp [htype]),
        takeWhile_cons_of_neg (by simp [htype])]
      simp
    · have hskip : (message.type != type) = true := by simp [htype]
      have hroom' : index + 1 + back.length < 2 ^ 64 := by
        simp only [length_cons] at hroom
        omega
      have hindex : index ≠ 2 ^ 64 - 1 := by omega
      rcases @ih (front ++ [message]) (index + 1) fuel (by simpa using hfuel) hroom' with ⟨index', hloop⟩
      refine ⟨index', ?_⟩
      rw [if_neg htype, IpcQueue.enqueue, if_neg hindex,
        dropWhile_cons_of_pos (p := isNot type) hskip,
        takeWhile_cons_of_pos (p := isNot type) hskip]
      simp only [length_append, append_assoc] at hloop ⊢
      exact hloop

theorem freeLoop_eq {i : Nat} (hi : front.length ≤ i) :
    ∃ k index', k ≤ back.length ∧ IpcQueue.freeLoop type fuel i ⟨back ++ front, index⟩ =
        ⟨back.drop k ++ (front ++ (back.take k).filter (isNot type)), index'⟩ ∧
      (back.drop k).length + front.length + ((back.take k).filter (isNot type)).length ≤ i + k := by
  induction back generalizing front index fuel i with
  | nil =>
    refine ⟨0, index, le_rfl, ?_, by simpa using hi⟩
    cases fuel with
    | zero => simp [IpcQueue.freeLoop]
    | succ fuel =>
      rw [IpcQueue.freeLoop]
      split
      · simp only [nil_append] at *
        omega
      · simp
  | cons message back ih =>
    obtain ⟨fuel, rfl⟩ : ∃ k, fuel = k + 1 := ⟨fuel - 1, by simp only [length_cons] at hfuel; omega⟩
    have hroom' : index + 1 + back.length < 2 ^ 64 := by
      simp only [length_cons] at hroom
      omega
    rw [IpcQueue.freeLoop]
    by_cases hlt : i < (message :: back ++ front).length
    · rw [if_pos hlt]
      simp only [IpcQueue.dequeue, cons_append]
      by_cases htype : message.type = type
      · rcases @ih front index fuel (by simpa using hfuel) (by omega) (i + 1) (by omega) with
          ⟨k, index', hk, hloop, hstop⟩
        refine ⟨k + 1, index', by simpa using hk, ?_, ?_⟩
        · rw [if_pos htype, hloop]
          simp [htype]
        · simp [htype] at hstop ⊢
          omega
      · have hindex : index ≠ 2 ^ 64 - 1 := by omega
        rcases @ih (front ++ [message]) (index + 1) fuel (by simpa using hfuel) hroom' (i + 1)
          (by simp; omega) with ⟨k, index', hk, hloop, hstop⟩
        refine ⟨k + 1, index', by simpa using hk, ?_, ?_⟩
        · rw [if_neg htype, IpcQueue.enqueue, if_neg hindex]
          simp only [append_assoc] at hloop ⊢
          rw [hloop]
          simp [htype]
        · simp [htype] at hstop ⊢
          omega
    · rw [if_neg hlt]
      refine ⟨0, index, Nat.zero_le _, by simp, ?_⟩
      simp only [length_append] at hlt
      simp only [drop_zero, take_zero, filter_nil, length_nil]
      omega

end Loops

namespace IpcQueue

variable {q : IpcQueue} {type : UInt8}

/-- No type has messages both before and behind the first message of `type`. -/
def Smooth (q : IpcQueue) (type : UInt8) : Prop := ∀ first ∈ q.messages.takeWhile (isNot type),
    ∀ second ∈ (q.messages.dropWhile (isNot type)).tail, first.type ≠ second.type

/-- The queue holds at most one message of each type. -/
def Sparse (q : IpcQueue) : Prop := ∀ type, (q.ofType type).length ≤ 1

theorem ofType_eq_nil {messages : List IpcMessage} {type : UInt8} :
    (messages.filter (isOf type)) = [] ↔ ∀ message ∈ messages, message.type ≠ type := by
  simp

/-- A message is received from the front of its box, and the other boxes stay as they are. -/
theorem recv_boxes (hroom : q.Room) (hsmooth : q.Smooth type) :
    (q.recv type).1 = (q.ofType type).head? ∧ ∀ other, (q.recv type).2.ofType other =
        if other = type then (q.ofType type).tail else q.ofType other := by
  have hindex : q.nextIndex + q.messages.length < 2 ^ 64 := by
    rw [Room] at hroom
    omega
  rcases @recvLoop_eq type [] q.messages q.nextIndex q.messages.length le_rfl
    hindex with ⟨index, hloop⟩
  simp only [append_nil, nil_append, length_nil] at hloop
  have hsplit := takeWhile_append_dropWhile (p := isNot type) (l := q.messages)
  have hbefore : ∀ message ∈ q.messages.takeWhile (isNot type),
      message.type ≠ type := fun message hmem => by
    simpa using mem_takeWhile_imp hmem
  rw [Smooth] at hsmooth
  generalize (q.messages.takeWhile (isNot type)) = before at *
  cases hafter : q.messages.dropWhile (isNot type) with
  | nil =>
    rw [hafter] at hloop
    dsimp only at hloop
    rw [hafter, append_nil] at hsplit
    rw [recv, hloop]
    have hnone : q.ofType type = [] := by
      rw [ofType, ← hsplit]
      exact ofType_eq_nil.mpr hbefore
    refine ⟨by rw [hnone]; rfl, fun other => ?_⟩
    split
    · rename_i heq
      rw [heq, hnone]
      exact hnone
    · rfl
  | cons message rest =>
    have hmessage : message.type = type := by
      have hhead := head_dropWhile_not (isNot type) (l := q.messages) (by rw [hafter]; simp)
      simpa [hafter, isNot] using hhead
    rw [hafter] at hsplit hsmooth hloop
    rw [recv, hloop]
    have hown : q.ofType type = message :: rest.filter (isOf type) := by
      rw [ofType, ← hsplit, filter_append, ofType_eq_nil.mpr hbefore, nil_append,
        filter_cons_of_pos (by simp [hmessage])]
    refine ⟨by rw [hown]; rfl, fun other => ?_⟩
    simp only [ofType, filter_append]
    split
    · rename_i heq
      rw [heq, ofType_eq_nil.mpr hbefore, append_nil]
      exact (congrArg List.tail hown).symm
    · rename_i hne
      rw [← hsplit, filter_append, filter_cons_of_neg (by simp [hmessage, Ne.symm hne])]
      by_cases hfirst : ∃ first ∈ before, first.type = other
      · rcases hfirst with ⟨first, hmem, htype⟩
        have hrest : (rest.filter (isOf other)) = [] :=
          ofType_eq_nil.mpr fun second hsecond heq => hsmooth first hmem second hsecond (htype.trans heq.symm)
        rw [hrest, append_nil, nil_append]
      · have hnone : (before.filter (isOf other)) = [] :=
          ofType_eq_nil.mpr fun first hmem heq => hfirst ⟨first, hmem, heq⟩
        rw [hnone, append_nil, nil_append]

theorem freeType_boxes (hroom : q.Room) (hsparse : q.ofType type = [] ∨ q.Sparse) :
    ∀ other, (q.freeType type).ofType other = if other = type then [] else q.ofType other := by
  have hindex : q.nextIndex + q.messages.length < 2 ^ 64 := by
    rw [Room] at hroom
    omega
  rcases @freeLoop_eq type [] q.messages q.nextIndex q.messages.length le_rfl
    hindex 0 le_rfl with ⟨k, index, hk, hloop, hstop⟩
  simp only [append_nil, nil_append] at hloop hstop
  have hpart : ∀ other, q.ofType other =
      (q.messages.take k).filter (isOf other) ++ (q.messages.drop k).filter (isOf other) := by
    intro other
    rw [ofType, ← filter_append, take_append_drop]
  -- The loop stops when no more messages are left than it has freed.
  have hfew : (q.messages.drop k).length ≤ ((q.messages.take k).filter (isOf type)).length := by
    have hcount := length_eq_length_filter_add (l := q.messages.take k) (isOf type)
    rw [length_take, Nat.min_eq_left hk,
      show (fun message => !isOf type message) = isNot type from rfl] at hcount
    omega
  -- So a box has messages on one side of the place where it stops only.
  have hside : ∀ other, (q.messages.drop k).filter (isOf other) = [] ∨
      other ≠ type ∧ (q.messages.take k).filter (isOf other) = [] := by
    intro other
    have hmost := length_filter_le (isOf other) (q.messages.drop k)
    rw [← length_eq_zero_iff, ← length_eq_zero_iff]
    rcases hsparse with hnone | hsparse
    · have htotal := congrArg List.length (hpart type)
      rw [hnone, length_nil, length_append] at htotal
      omega
    · have hone := hsparse type
      have hother := hsparse other
      rw [hpart, length_append] at hone hother
      by_cases heq : other = type
      · subst heq
        omega
      · rcases Nat.eq_zero_or_pos ((q.messages.drop k).filter (isOf other)).length with hzero | hpos
        · exact Or.inl hzero
        · exact Or.inr ⟨heq, by omega⟩
  intro other
  rw [freeType, hloop]
  simp only [ofType, filter_append, filter_filter]
  split
  · rename_i heq
    rw [heq, (hside type).resolve_right fun h => h.1 rfl, nil_append]
    exact filter_eq_nil_iff.mpr fun message _ => by simp
  · rename_i hne
    have hkeep : (q.messages.take k).filter (fun message => isOf other message && isNot type message) =
        (q.messages.take k).filter (isOf other) := by
      refine filter_congr fun message _ => ?_
      by_cases heq : message.type = other <;> simp [heq, hne]
    refine Eq.trans ?_ (hpart other).symm
    rw [hkeep]
    rcases hside other with hnone | ⟨-, hnone⟩
    all_goals rw [hnone, nil_append, append_nil]

end IpcQueue

inductive IpcCall
  | send (message : IpcMessage)
  | recv (type : UInt8)
  | free (type : UInt8)

/-- A queue and what was received from it, the latest last. -/
structure IpcRun where
  queue : IpcQueue
  received : List (UInt8 × Option IpcMessage)

def IpcRun.step (run : IpcRun) : IpcCall → IpcRun
  | .send message => { run with queue := run.queue.enqueue message }
  | .recv type => ⟨(run.queue.recv type).2, run.received ++ [(type, (run.queue.recv type).1)]⟩
  | .free type => { run with queue := run.queue.freeType type }

/-- One box for each type, and what was received from them. -/
structure Boxes where
  box : UInt8 → List IpcMessage
  received : List (UInt8 × Option IpcMessage)

def Boxes.step (boxes : Boxes) : IpcCall → Boxes
  | .send message =>
    { boxes with box := update boxes.box message.type (boxes.box message.type ++ [message]) }
  | .recv type =>
    ⟨update boxes.box type (boxes.box type).tail,
      boxes.received ++ [(type, (boxes.box type).head?)]⟩
  | .free type => { boxes with box := update boxes.box type [] }

/-- The calls that keep the order: a search does not part the messages of a type, and types are
freed that have no message or while no type has two. -/
def IpcRun.Orderly (run : IpcRun) : IpcCall → Prop
  | .send _ => run.queue.Room
  | .recv type => run.queue.Room ∧ run.queue.Smooth type
  | .free type => run.queue.Room ∧ (run.queue.ofType type = [] ∨ run.queue.Sparse)

def IpcRun.boxes (run : IpcRun) : Boxes := ⟨run.queue.ofType, run.received⟩

theorem IpcRun.boxes_step {run : IpcRun} {call : IpcCall} (h : run.Orderly call) :
    (run.step call).boxes = run.boxes.step call := by
  cases call with
  | send message =>
    have hindex : run.queue.nextIndex ≠ 2 ^ 64 - 1 := by
      rw [Orderly, IpcQueue.Room] at h
      omega
    simp only [step, boxes, Boxes.step, Boxes.mk.injEq, and_true, IpcQueue.enqueue, if_neg hindex]
    funext type
    by_cases heq : type = message.type
    · subst heq
      simp [IpcQueue.ofType]
    · rw [update_of_ne heq]
      simp [IpcQueue.ofType, Ne.symm heq]
  | recv type =>
    rcases IpcQueue.recv_boxes h.1 h.2 with ⟨hhead, hboxes⟩
    simp only [step, boxes, Boxes.step, hhead, Boxes.mk.injEq, and_true]
    funext other
    rw [hboxes other, update_apply]
  | free type =>
    simp only [step, boxes, Boxes.step, Boxes.mk.injEq, and_true]
    funext other
    rw [IpcQueue.freeType_boxes h.1 h.2 other, update_apply]

/-- **The queue is one box for each type.**  In every run of orderly calls each message is
received from the front of its box; a box is empty where nothing is received, and after its
type was freed. -/
theorem ipc_boxes (run : IpcRun) (calls : List IpcCall)
    (h : Protocol.Along IpcRun.step (fun run call => run.Orderly call) run calls) :
    (Protocol.run IpcRun.step run calls).boxes = Protocol.run Boxes.step run.boxes calls := by
  induction calls generalizing run with
  | nil => rfl
  | cons call calls ih =>
    rw [Protocol.run_cons, Protocol.run_cons, ih _ h.2, IpcRun.boxes_step h.1]

def emptyRun : IpcRun := ⟨⟨[], 0⟩, []⟩

/-- Two types, one message each, received the other way round. -/
theorem ipc_boxes_two :
    (Protocol.run IpcRun.step emptyRun [.send ⟨1, 10⟩, .send ⟨2, 20⟩, .recv 2, .free 1]).boxes =
      Protocol.run Boxes.step emptyRun.boxes [.send ⟨1, 10⟩, .send ⟨2, 20⟩, .recv 2, .free 1] := by
  refine ipc_boxes emptyRun _ ⟨?_, ?_, ⟨?_, ?_⟩, ⟨?_, ?_⟩, trivial⟩
  · exact show IpcQueue.Room _ by decide
  · exact show IpcQueue.Room _ by decide
  · decide
  · unfold IpcQueue.Smooth
    decide
  · decide
  · exact .inr fun type => (length_filter_le _ _).trans (by decide)

/-- Of two messages of type 1 the later one is received first, after one of type 2 was received
from between them; and of two messages of a type that is freed one stays. -/
theorem ipc_reorders_and_keeps : (Protocol.run IpcRun.step emptyRun
      [.send ⟨1, 10⟩, .send ⟨2, 20⟩, .send ⟨1, 11⟩, .recv 2, .recv 1]).received =
        [(2, some ⟨2, 20⟩), (1, some ⟨1, 11⟩)] ∧
    (Protocol.run IpcRun.step emptyRun
      [.send ⟨1, 10⟩, .send ⟨1, 11⟩, .free 1]).queue.ofType 1 = [⟨1, 11⟩] := by
  decide

end OpenXJ380.Task
