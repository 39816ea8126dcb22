/-
# Exactly once and in order

Under every interleaving of producers with the worker, the records of a pipe are
handled in the order in which they were accepted, each of them once, and a record that
is not written was refused by a retired descriptor or by a failed write. The counts
are those of the queued records, a channel is linked exactly while it has records, and
every ticket that is not queued any more has been released once.

The queue alone is described by `Queue.Sound` with the list of channels on the circular
list; the sections of the two parties preserve it. What the histories say is carried
by `System.Sound`.
-/

import OpenXJ380.Data.Places
import OpenXJ380.Data.Ring
import OpenXJ380.Message.Queue

namespace OpenXJ380.Message

open Function Data

variable {ι ν : Type} [DecidableEq ι]

omit [DecidableEq ι] in
theorem sum_map_change {nodes : List ι} (nodup : nodes.Nodup) {node : ι} (member : node ∈ nodes)
    (before after : ι → ℕ) (others : ∀ other ≠ node, after other = before other) :
    (nodes.map after).sum + before node = (nodes.map before).sum + after node := by
  obtain ⟨front, back, rfl⟩ := List.append_of_mem member
  have apart := List.nodup_append.mp nodup
  have frontSame : front.map after = front.map before :=
    List.map_congr_left fun other found => others other fun same =>
      apart.2.2 other found node List.mem_cons_self same
  have backSame : back.map after = back.map before :=
    List.map_congr_left fun other found => others other fun same =>
      (List.nodup_cons.mp apart.2.1).1 (same ▸ found)
  simp only [List.map_append, List.map_cons, List.sum_append, List.sum_cons, frontSame, backSame]
  omega

namespace Queue

/-- The queue with the channels on its circular list, from the entry. -/
structure Sound (bucket : ι → Fin buckets) (queue : Queue ι ν) (nodes : List ι) : Prop where
  entry : nodes.head? = queue.ready
  ring : Ring queue.readyNext queue.readyPrev nodes
  ready_iff : ∀ identity, identity ∈ nodes ↔ (queue.channels identity).records ≠ []
  chains_nodup : ∀ index, (queue.chains index).Nodup
  chain_iff : ∀ index identity, identity ∈ queue.chains index ↔
    bucket identity = index ∧ (queue.channels identity).records ≠ []
  count : ∀ identity,
    (queue.channels identity).count = (queue.channels identity).records.length
  perPipe : ∀ identity, (queue.channels identity).count ≤ limitPerPipe
  pending : queue.pendingCount =
    (nodes.map fun identity => (queue.channels identity).records.length).sum
  global : queue.pendingCount ≤ limitGlobal

variable {bucket : ι → Fin buckets} {queue : Queue ι ν} {nodes : List ι}

theorem Sound.found_iff (sound : queue.Sound bucket nodes) (identity : ι) :
    queue.found bucket identity = true ↔ (queue.channels identity).records ≠ [] := by
  simp [found, sound.chain_iff]

/-- The queue after a change that concerns one channel and its links only. -/
theorem Sound.change (sound : queue.Sound bucket nodes) {after : Queue ι ν} {nodesAfter : List ι}
    (identity : ι)
    (others : ∀ other ≠ identity, after.channels other = queue.channels other)
    (count : (after.channels identity).count = (after.channels identity).records.length)
    (perPipe : (after.channels identity).count ≤ limitPerPipe)
    (entry : nodesAfter.head? = after.ready)
    (ring : Ring after.readyNext after.readyPrev nodesAfter)
    (ready : identity ∈ nodesAfter ↔ (after.channels identity).records ≠ [])
    (readyOthers : ∀ other ≠ identity, (other ∈ nodesAfter ↔ other ∈ nodes))
    {chain : List ι}
    (chains : after.chains = update queue.chains (bucket identity) chain)
    (nodup : chain.Nodup)
    (chained : identity ∈ chain ↔ (after.channels identity).records ≠ [])
    (chainedOthers : ∀ other ≠ identity,
      (other ∈ chain ↔ other ∈ queue.chains (bucket identity)))
    (pending : after.pendingCount =
      (nodesAfter.map fun identity => (after.channels identity).records.length).sum)
    (global : after.pendingCount ≤ limitGlobal) : after.Sound bucket nodesAfter := by
  refine ⟨entry, ring, ?_, ?_, ?_, ?_, ?_, pending, global⟩
  · intro other
    by_cases same : other = identity
    · exact same ▸ ready
    · rw [readyOthers other same, others other same, sound.ready_iff]
  · intro index
    rw [chains]
    by_cases here : index = bucket identity
    · rwa [here, update_self]
    · rw [update_of_ne here]
      exact sound.chains_nodup index
  · intro index other
    rw [chains]
    by_cases here : index = bucket identity
    · subst here
      rw [update_self]
      by_cases same : other = identity
      · simpa [same] using chained
      · rw [chainedOthers other same, others other same, sound.chain_iff]
    · rw [update_of_ne here, sound.chain_iff]
      by_cases same : other = identity
      · simp [same, Ne.symm here]
      · rw [others other same]
  · intro other
    by_cases same : other = identity
    · exact same ▸ count
    · rw [others other same, sound.count]
  · intro other
    by_cases same : other = identity
    · exact same ▸ perPipe
    · rw [others other same]
      exact sound.perPipe other

variable {identity : ι}

theorem Sound.push (sound : queue.Sound bucket nodes) (packet : Packet ν)
    (linked : (queue.channels identity).records ≠ [])
    (room : (queue.channels identity).count < limitPerPipe)
    (space : queue.pendingCount < limitGlobal) :
    (queue.push identity packet).Sound bucket nodes := by
  have others : ∀ other ≠ identity,
      (queue.push identity packet).channels other = queue.channels other :=
    fun other different => update_of_ne different _ _
  have own : (queue.push identity packet).channels identity =
      { queue.channels identity with
        records := (queue.channels identity).records ++ [packet]
        count := (queue.channels identity).count + 1 } := update_self ..
  have member := (sound.ready_iff identity).mpr linked
  refine sound.change identity others ?_ ?_ sound.entry sound.ring ?_ (fun _ _ => Iff.rfl)
    (update_eq_self _ _).symm (sound.chains_nodup _) ?_ (fun _ _ => Iff.rfl) ?_ space
  · simp [own, sound.count]
  · rw [own]
    exact room
  · simpa [own] using member
  · exact (sound.chain_iff _ identity).trans (by simp [own, linked])
  have change := sum_map_change sound.ring.nodup member
    (fun identity => (queue.channels identity).records.length)
    (fun other => ((queue.push identity packet).channels other).records.length)
    (fun other different => by simp [others other different])
  have pending := sound.pending
  simp only [own, List.length_append, List.length_singleton] at change
  simp only [Queue.push] at change ⊢
  omega

theorem Sound.push_link (sound : queue.Sound bucket nodes) (packet : Packet ν)
    (unlinked : (queue.channels identity).records = []) (space : queue.pendingCount < limitGlobal) :
    ((queue.link bucket identity).push identity packet).Sound bucket (nodes ++ [identity]) := by
  have new : identity ∉ nodes := fun member => (sound.ready_iff identity).mp member unlinked
  set after := (queue.link bucket identity).push identity packet with after_def
  have channels : after.channels =
      update queue.channels identity ⟨[packet], 1, false⟩ := by
    simp only [after_def, Queue.push, link]
    split <;> simp [Channel.empty]
  have chains : after.chains = update queue.chains (bucket identity)
      (identity :: queue.chains (bucket identity)) := by
    simp only [after_def, link]
    split <;> rfl
  have pending : after.pendingCount = queue.pendingCount + 1 := by
    simp only [after_def, link]
    split <;> rfl
  have others : ∀ other ≠ identity, after.channels other = queue.channels other := by
    intro other different
    rw [channels, update_of_ne different]
  have own : after.channels identity = ⟨[packet], 1, false⟩ := by
    rw [channels, update_self]
  have unchained : identity ∉ queue.chains (bucket identity) := by
    simp [sound.chain_iff, unlinked]
  refine sound.change identity others ?_ ?_ ?_ ?_ ?_ ?_ chains
    (List.nodup_cons.mpr ⟨unchained, sound.chains_nodup _⟩) ?_ ?_ ?_ (pending ▸ space)
  · simp [own]
  · simp [own, limitPerPipe]
  · have entry := sound.entry
    simp only [after_def, link]
    cases nodes with
    | nil => rw [← entry]; rfl
    | cons first rest => rw [← entry]; rfl
  · have ring := sound.ring
    have entry := sound.entry
    simp only [after_def, link]
    cases nodes with
    | nil =>
      rw [← entry]
      exact Ring.single _ _ identity
    | cons first rest =>
      rw [← entry]
      exact ring.insert new
  · simp [own]
  · intro other different
    simp [different]
  · simp [own]
  · intro other different
    simp [different]
  · have front : (nodes.map fun other => (after.channels other).records.length) =
        nodes.map fun other => (queue.channels other).records.length := by
      refine List.map_congr_left fun other member => ?_
      rw [others other fun same => new (same ▸ member)]
    rw [List.map_append, List.sum_append, front, ← sound.pending, pending]
    simp [own]

omit [DecidableEq ι] in
theorem Sound.advance (sound : queue.Sound bucket (identity :: nodes)) :
    Sound bucket { queue with ready := some (queue.readyNext identity) }
      (nodes ++ [identity]) := by
  have entered : Ring queue.readyNext queue.readyPrev ([identity] ++ nodes) := sound.ring
  refine ⟨?_, entered.turn, ?_, sound.chains_nodup, sound.chain_iff, sound.count, sound.perPipe,
    ?_, sound.global⟩
  · cases nodes with
    | nil =>
      have self := (sound.ring.closed identity (by simp) identity (by simp)).1
      simp [self]
    | cons following rest =>
      have joined := (List.isChain_cons_cons.mp sound.ring.chain).1
      simp [joined.1]
  · intro other
    rw [← sound.ready_iff]
    simp [or_comm]
  · rw [sound.pending]
    simp [Nat.add_comm]

/-- A channel that keeps records after its first one is removed stays linked. -/
theorem Sound.pop_more (sound : queue.Sound bucket nodes)
    (more : (queue.channels identity).records.tail ≠ []) :
    (queue.pop bucket identity).Sound bucket nodes := by
  have linked : (queue.channels identity).records ≠ [] := fun none => more (by simp [none])
  have member := (sound.ready_iff identity).mpr linked
  have count := sound.count identity
  have positive := List.length_pos_iff.mpr linked
  simp only [Queue.pop, if_neg more]
  refine sound.change identity (fun other different => update_of_ne different _ _) ?_ ?_
    sound.entry sound.ring ?_ (fun _ _ => Iff.rfl) (update_eq_self _ _).symm
    (sound.chains_nodup _) ?_ (fun _ _ => Iff.rfl) ?_ ((Nat.sub_le _ _).trans sound.global)
  · simp [count]
  · simpa using (Nat.sub_le _ _).trans (sound.perPipe identity)
  · simpa [more] using member
  · simpa [more, linked] using sound.chain_iff (bucket identity) identity
  have change := sum_map_change sound.ring.nodup member
    (fun identity => (queue.channels identity).records.length)
    (fun other => (update queue.channels identity
      { queue.channels identity with
        records := (queue.channels identity).records.tail
        count := (queue.channels identity).count - 1 } other).records.length)
    (fun other different => by simp [different])
  have pending := sound.pending
  simp only [update_self, List.length_tail] at change ⊢
  omega

/-- A channel that loses its last record is unlinked. -/
theorem Sound.pop_last {before behind : List ι}
    (sound : queue.Sound bucket (before ++ identity :: behind))
    (last : (queue.channels identity).records.tail = []) :
    (queue.pop bucket identity).Sound bucket (before ++ behind) := by
  have linked : (queue.channels identity).records ≠ [] :=
    (sound.ready_iff identity).mp (by simp)
  have single : (queue.channels identity).records.length = 1 := by
    have positive := List.length_pos_iff.mpr linked
    have rest := congrArg List.length last
    simp only [List.length_tail, List.length_nil] at rest
    omega
  have nodup := List.nodup_middle.mp sound.ring.nodup
  have gone : identity ∉ before ++ behind := (List.nodup_cons.mp nodup).1
  have pending := sound.pending
  set after := queue.pop bucket identity with after_def
  have channels : after.channels = update queue.channels identity .empty := by
    simp only [after_def, Queue.pop, unlink]
    split_ifs <;> simp
  have chains : after.chains = update queue.chains (bucket identity)
      ((queue.chains (bucket identity)).erase identity) := by
    simp only [after_def, Queue.pop, unlink]
    split_ifs <;> rfl
  have total : after.pendingCount = queue.pendingCount - 1 := by
    simp only [after_def, Queue.pop, unlink]
    split_ifs <;> rfl
  have others : ∀ other ≠ identity, after.channels other = queue.channels other := by
    intro other different
    rw [channels, update_of_ne different]
  have own : after.channels identity = .empty := by rw [channels, update_self]
  have alone := sound.ring.next_eq_self_iff
  refine sound.change identity others ?_ ?_ ?_ ?_ ?_ ?_ chains ((sound.chains_nodup _).erase _) ?_ ?_ ?_
    (total ▸ (Nat.sub_le _ _).trans sound.global)
  · simp [own, Channel.empty]
  · simp [own, Channel.empty]
  · have entry := sound.entry
    have ring := sound.ring
    simp only [after_def, Queue.pop, if_pos last, unlink]
    by_cases self : queue.readyNext identity = identity
    · simp [self, alone.mp self]
    simp only [if_neg self, ← entry]
    -- the entry moves on only if it was the unlinked channel
    cases before with
    | nil =>
      cases behind with
      | nil => exact absurd (alone.mpr rfl) self
      | cons following rest =>
        have joined := (List.isChain_cons_cons.mp ring.chain).1
        simp [joined.1]
    | cons first rest =>
      have different : first ≠ identity := fun same => gone (by simp [same])
      simp [different]
  · simp only [after_def, Queue.pop, if_pos last, unlink]
    by_cases self : queue.readyNext identity = identity
    · rw [alone.mp self]
      exact Ring.nil _ _
    · simp only [if_neg self]
      exact sound.ring.unlink (mt alone.mpr self)
  · simpa [own, Channel.empty] using gone
  · intro other different
    simp [different]
  · simp [own, Channel.empty, (sound.chains_nodup (bucket identity)).mem_erase_iff]
  · intro other different
    simp [different]
  · have rest : ((before ++ behind).map fun other => (after.channels other).records.length) =
        (before ++ behind).map fun other => (queue.channels other).records.length := by
      refine List.map_congr_left fun other member => ?_
      rw [others other fun same => gone (same ▸ member)]
    rw [rest, total, pending]
    simp only [List.map_append, List.map_cons, List.sum_append, List.sum_cons]
    omega

/-- The records of a pipe. -/
def recordsOf (queue : Queue ι ν) (identity : ι) : List (Packet ν) :=
  (queue.channels identity).records

theorem Sound.reportFull (sound : queue.Sound bucket nodes) (identity : ι) :
    (queue.reportFull bucket identity).Sound bucket nodes := by
  unfold Queue.reportFull
  split_ifs with found
  · refine sound.change identity (fun other different => update_of_ne different _ _)
      ?_ ?_ sound.entry sound.ring ?_ (fun _ _ => Iff.rfl) (update_eq_self _ _).symm
      (sound.chains_nodup _) ?_ (fun _ _ => Iff.rfl) ?_ sound.global
    · simpa using sound.count identity
    · simpa using sound.perPipe identity
    · simpa using sound.ready_iff identity
    · simpa using sound.chain_iff (bucket identity) identity
    · rw [sound.pending]
      congr 2
      funext other
      by_cases same : other = identity <;> simp [same]
  · exact ⟨sound.entry, sound.ring, sound.ready_iff, sound.chains_nodup, sound.chain_iff,
      sound.count, sound.perPipe, sound.pending, sound.global⟩

theorem reportFull_records (queue : Queue ι ν) (identity : ι) :
    (queue.reportFull bucket identity).recordsOf = queue.recordsOf := by
  unfold Queue.reportFull recordsOf
  split_ifs
  · funext other
    by_cases same : other = identity <;> simp [same]
  · rfl

/-- What `message_enqueue` does under the lock: nothing to the records, or one more at the
end of its channel. -/
theorem Sound.enqueue (sound : queue.Sound bucket nodes) (identity : ι) (packet : Packet ν)
    (transferred : Bool) :
    (∃ nodesAfter, (queue.enqueue bucket identity packet transferred).2.Sound bucket nodesAfter) ∧
      ((∃ error, (queue.enqueue bucket identity packet transferred).1 = some error ∧
          (queue.enqueue bucket identity packet transferred).2.recordsOf = queue.recordsOf) ∨
        ((queue.enqueue bucket identity packet transferred).1 = none ∧
          (queue.enqueue bucket identity packet transferred).2.recordsOf =
            update queue.recordsOf identity (queue.recordsOf identity ++ [packet]))) := by
  unfold Queue.enqueue
  cases refused : queue.refusal bucket identity transferred with
  | some error =>
    simp only
    refine ⟨⟨nodes, ?_⟩, .inl ⟨error, rfl, ?_⟩⟩ <;> split_ifs
    · exact sound.reportFull identity
    · exact sound
    · exact queue.reportFull_records identity
    · rfl
  | none =>
    simp only [refusal] at refused
    split_ifs at refused with stopped full crowded untransferred
    have space : queue.pendingCount < limitGlobal := Nat.lt_of_not_le full
    by_cases found : queue.found bucket identity = true
    · have linked := (sound.found_iff identity).mp found
      have room : (queue.channels identity).count < limitPerPipe :=
        Nat.lt_of_not_le fun many => crowded ⟨found, many⟩
      simp only [if_pos found]
      refine ⟨⟨nodes, sound.push packet linked room space⟩, .inr ⟨trivial, ?_⟩⟩
      funext other
      by_cases same : other = identity
      · subst same
        simp [recordsOf, Queue.push]
      · simp [recordsOf, Queue.push, same]
    · have unlinked : (queue.channels identity).records = [] :=
        not_not.mp (mt (sound.found_iff identity).mpr found)
      simp only [if_neg found]
      refine ⟨⟨_, sound.push_link packet unlinked space⟩, .inr ⟨trivial, ?_⟩⟩
      funext other
      simp only [Queue.push, link]
      split <;> by_cases same : other = identity <;>
        simp [same, Channel.empty, unlinked, recordsOf]

omit [DecidableEq ι] in
/-- What the worker takes: nothing, or the first record of a channel that stays linked. -/
theorem Sound.take (sound : queue.Sound bucket nodes) :
    (∃ nodesAfter, queue.take.2.Sound bucket nodesAfter) ∧
      queue.take.2.recordsOf = queue.recordsOf ∧
      ∀ identity packet, queue.take.1 = some (identity, packet) →
        (queue.recordsOf identity).head? = some packet := by
  have entry := sound.entry
  cases nodes with
  | nil =>
    have empty : queue.ready = none := entry.symm
    simp only [Queue.take, empty]
    exact ⟨⟨[], sound⟩, trivial, fun _ _ none => by cases none⟩
  | cons first rest =>
    have ready : queue.ready = some first := entry.symm
    simp only [Queue.take, ready]
    refine ⟨⟨_, sound.advance⟩, rfl, fun identity packet found => ?_⟩
    obtain ⟨head, here, same⟩ := Option.map_eq_some_iff.mp found
    obtain ⟨rfl, rfl⟩ := Prod.mk.inj same
    exact here

/-- What the worker removes: the first record of a channel. -/
theorem Sound.pop (sound : queue.Sound bucket nodes) {identity : ι}
    (linked : queue.recordsOf identity ≠ []) :
    (∃ nodesAfter, (queue.pop bucket identity).Sound bucket nodesAfter) ∧
      (queue.pop bucket identity).recordsOf =
        update queue.recordsOf identity (queue.recordsOf identity).tail := by
  by_cases last : (queue.channels identity).records.tail = []
  · obtain ⟨before, behind, rfl⟩ := List.append_of_mem ((sound.ready_iff identity).mpr linked)
    refine ⟨⟨_, sound.pop_last last⟩, ?_⟩
    funext other
    simp only [Queue.pop, if_pos last, unlink]
    split <;> by_cases same : other = identity <;>
      simp [same, Channel.empty, last, recordsOf]
  · refine ⟨⟨_, sound.pop_more last⟩, ?_⟩
    funext other
    simp only [Queue.pop, if_neg last]
    by_cases same : other = identity <;> simp [same, recordsOf]

end Queue

namespace System

section

variable (system : System ι ν)

section

variable (identity : ι)

/-- The records accepted for a pipe, in order. -/
def acceptedFor : List (Packet ν) :=
  (system.accepted.filter (·.1 = identity)).map Prod.snd

/-- What the worker did for a pipe, in order. -/
def handledFor : List (Packet ν × Disposition) :=
  (system.handled.filter (·.1 = identity)).map Prod.snd

/-- The records the worker wrote to a pipe, in order. -/
def writtenTo : List (Packet ν) :=
  ((system.handledFor identity).filter (·.2 = .written)).map Prod.fst

/-- The queued records of a pipe that the worker has not handled yet: while it is about
to remove a record, that one does not count. -/
def waiting : List (Packet ν) :=
  match system.worker with
  | .popping current _ =>
    if current = identity then (system.queue.recordsOf identity).tail
    else system.queue.recordsOf identity
  | _ => system.queue.recordsOf identity

end

/-- Where the tickets are: with the queued records of a pipe, or released. -/
def tickets : Option ι → List ℕ
  | some identity => (system.queue.recordsOf identity).map Packet.number
  | none => system.released

end

omit [DecidableEq ι] in
theorem tickets_kept {before after : System ι ν} (tickets : Numbered before.tickets before.calls)
    (records : after.queue.recordsOf = before.queue.recordsOf)
    (released : after.released = before.released) (calls : after.calls = before.calls) :
    Numbered after.tickets after.calls := by
  have same : after.tickets = before.tickets := by
    funext place
    cases place with
    | none => exact released
    | some identity => simp only [System.tickets, records]
  rw [same, calls]
  exact tickets

/-- The worker holds the first record of a channel. -/
def Holds (system : System ι ν) : Prop :=
  match system.worker with
  | .idle => True
  | .writing identity packet | .popping identity packet =>
    (system.queue.recordsOf identity).head? = some packet

/-- The invariant of the queue, its worker and the histories. -/
structure Sound (bucket : ι → Fin buckets) (system : System ι ν) : Prop where
  queue : ∃ nodes, system.queue.Sound bucket nodes
  holds : system.Holds
  order : ∀ identity, system.acceptedFor identity =
    (system.handledFor identity).map Prod.fst ++ system.waiting identity
  refused : ∀ entry ∈ system.handled, entry.2.2 ≠ .failed .eagain
  tickets : Numbered system.tickets system.calls
  distinct : (system.accepted.map (·.2.number)).Nodup
  counted : ∀ entry ∈ system.accepted, entry.2.number < system.calls

theorem sound_initial (bucket : ι → Fin buckets) (links : ι → ι) :
    (initial links : System ι ν).Sound bucket := by
  have empty : ∀ place, (initial links : System ι ν).tickets place = [] := by
    intro place
    cases place <;> rfl
  refine ⟨⟨[], ?_⟩, trivial, fun _ => rfl, fun _ member => absurd member List.not_mem_nil,
    ⟨⟨fun place => ?_, fun {place _ _} member => ?_⟩, fun place number member => ?_,
      fun _ below => absurd below (Nat.not_lt_zero _)⟩, List.nodup_nil,
    fun _ member => absurd member List.not_mem_nil⟩
  · refine ⟨rfl, Ring.nil _ _, ?_, fun _ => List.nodup_nil, ?_, fun _ => rfl,
      fun _ => Nat.zero_le _, rfl, Nat.zero_le _⟩
    all_goals simp [initial, Channel.empty]
  · rw [empty place]
    exact List.nodup_nil
  all_goals
    rw [empty place] at member
    exact absurd member List.not_mem_nil

variable {bucket : ι → Fin buckets} {system : System ι ν} {queue : Queue ι ν}

section

variable (sound : system.Sound bucket)
include sound

/-- A refused call releases its ticket and leaves the records as they were. -/
theorem Sound.refuse
    (queueSound : ∃ nodes, queue.Sound bucket nodes)
    (records : queue.recordsOf = system.queue.recordsOf) :
    System.Sound bucket
      { system with
        queue := queue
        calls := system.calls + 1
        released := system.calls :: system.released } := by
  obtain ⟨-, holds, order, refused, tickets, distinct, counted⟩ := sound
  refine ⟨queueSound, ?_, ?_, refused, ?_, distinct, ?_⟩
  · simpa only [Holds, records] using holds
  · simpa only [acceptedFor, handledFor, waiting, records] using order
  · refine tickets.add none (List.Perm.refl _) fun place different => ?_
    cases place with
    | none => exact absurd rfl different
    | some identity => simp [System.tickets, records]
  · exact fun entry member => (counted entry member).trans (Nat.lt_succ_self _)

/-- An accepted record joins the queued ones of its pipe. -/
theorem Sound.accept {identity : ι} {value : ν}
    (queueSound : ∃ nodes, queue.Sound bucket nodes)
    (records : queue.recordsOf = update system.queue.recordsOf identity
      (system.queue.recordsOf identity ++ [⟨system.calls, value⟩])) :
    System.Sound bucket
      { system with
        queue := queue
        calls := system.calls + 1
        accepted := system.accepted ++ [(identity, ⟨system.calls, value⟩)] } := by
  obtain ⟨-, holds, order, refused, tickets, distinct, counted⟩ := sound
  set packet : Packet ν := ⟨system.calls, value⟩
  have own : queue.recordsOf identity = system.queue.recordsOf identity ++ [packet] := by
    rw [records, update_self]
  have others : ∀ other ≠ identity,
      queue.recordsOf other = system.queue.recordsOf other := by
    intro other different
    rw [records, update_of_ne different]
  -- a record the worker holds stays the first of its channel
  have stays : ∀ {other held}, (system.queue.recordsOf other).head? = some held →
      (queue.recordsOf other).head? = some held := by
    intro other held first
    by_cases same : other = identity
    · subst same
      rw [own, List.head?_append, first]
      rfl
    · rw [others other same, first]
  have waits : ∀ other, System.waiting
      { system with
        queue := queue
        calls := system.calls + 1
        accepted := system.accepted ++ [(identity, packet)] } other =
      system.waiting other ++ if identity = other then [packet] else [] := by
    intro other
    have grown : queue.recordsOf other =
        system.queue.recordsOf other ++ if identity = other then [packet] else [] := by
      by_cases same : identity = other
      · subst same
        simpa using own
      · simpa [same] using others other (Ne.symm same)
    unfold waiting
    cases worker : system.worker with
    | idle | writing => exact grown
    | popping current held =>
      simp only [Holds, worker] at holds
      simp only [grown]
      split_ifs with here <;> first | rfl | skip
      all_goals
        subst here
        exact List.tail_append_of_ne_nil (fun none => by simp [none] at holds)
  refine ⟨queueSound, ?_, ?_, refused, ?_, ?_, ?_⟩
  · unfold Holds at holds ⊢
    cases worker : system.worker with
    | idle => trivial
    | writing current held | popping current held =>
      simp only [worker] at holds ⊢
      exact stays holds
  · intro other
    rw [waits, ← List.append_assoc]
    have old := order other
    simp only [acceptedFor, handledFor, List.filter_append, List.map_append] at old ⊢
    rw [old]
    by_cases same : identity = other <;> simp [same]
  · refine tickets.add (some identity) ?_ fun place different => ?_
    · simp only [System.tickets, own, List.map_append]
      exact List.perm_append_singleton system.calls _
    · cases place with
      | none => rfl
      | some other =>
        have elsewhere : other ≠ identity := fun same => different (congrArg _ same)
        simp [System.tickets, others other elsewhere]
  · rw [List.map_append]
    refine List.nodup_append.mpr ⟨distinct, List.nodup_singleton _, ?_⟩
    intro number old other new
    obtain ⟨entry, member, rfl⟩ := List.mem_map.mp old
    obtain rfl : other = system.calls := by simpa using new
    exact (counted entry member).ne
  · intro entry member
    rcases List.mem_append.mp member with old | new
    · exact (counted entry old).trans (Nat.lt_succ_self _)
    · rw [List.mem_singleton.mp new]
      exact Nat.lt_succ_self _

theorem Sound.enqueue (identity : Option ι) (value : ν)
    (allocated transferred : Bool) :
    (system.enqueue bucket identity value allocated transferred).Sound bucket := by
  have refusal := sound.refuse sound.queue rfl
  obtain ⟨nodes, queueSound⟩ := sound.queue
  cases identity with
  | none => exact refusal
  | some identity =>
    simp only [System.enqueue]
    split_ifs
    · exact refusal
    obtain ⟨after, ⟨error, failed, records⟩ | ⟨accepted, records⟩⟩ :=
      queueSound.enqueue identity ⟨system.calls, value⟩ transferred
    · simp only [failed]
      exact sound.refuse after records
    · simp only [accepted]
      exact sound.accept after records

theorem Sound.startWorker :
    (system.step bucket .startWorker).Sound bucket := by
  obtain ⟨⟨nodes, queueSound⟩, holds, order, refused, tickets, distinct, counted⟩ := sound
  exact ⟨⟨nodes, { queueSound with }⟩, holds, order, refused, tickets_kept tickets rfl rfl rfl,
    distinct, counted⟩

theorem Sound.take :
    (system.step bucket .take).Sound bucket := by
  simp only [System.step]
  split
  case h_2 => exact sound
  case h_1 worker =>
    obtain ⟨nodes, queueSound⟩ := sound.queue
    obtain ⟨after, records, first⟩ := queueSound.take
    obtain ⟨-, -, order, refused, tickets, distinct, counted⟩ := sound
    refine ⟨after, ?_, fun identity => ?_, refused, ?_, distinct, counted⟩
    · cases found : system.queue.take.1 with
      | none => trivial
      | some taken =>
        simp only [Holds, records]
        exact first taken.1 taken.2 found
    · have old := order identity
      simp only [acceptedFor, handledFor, waiting, worker] at old ⊢
      cases found : system.queue.take.1 <;> simpa only [records] using old
    · exact tickets_kept tickets records rfl rfl

theorem Sound.write (retired : Bool) (result : Except Errno ℕ) :
    (system.write retired result).Sound bucket := by
  obtain ⟨queueSound, holds, order, refused, tickets, distinct, counted⟩ := sound
  unfold System.write
  cases worker : system.worker with
  | idle | popping =>
    exact ⟨queueSound, holds, order, refused, tickets, distinct, counted⟩
  | writing current packet =>
    simp only [Holds, waiting, worker] at holds order
    simp only
    split_ifs with full
    · exact ⟨queueSound, trivial, order, refused, tickets_kept tickets rfl rfl rfl,
        distinct, counted⟩
    refine ⟨queueSound, holds, fun identity => ?_, ?_, tickets_kept tickets rfl rfl rfl,
      distinct, counted⟩
    · have old := order identity
      simp only [acceptedFor, handledFor, waiting]
        at old ⊢
      rw [old]
      by_cases same : current = identity
      · subst same
        -- the record that was first of those waiting has now been handled
        obtain ⟨rest, records⟩ := List.head?_eq_some_iff.mp holds
        simp [records]
      · simp [same]
    · intro entry member
      rcases List.mem_append.mp member with earlier | new
      · exact refused entry earlier
      · rw [List.mem_singleton.mp new]
        exact full

theorem Sound.pop : (system.step bucket .pop).Sound bucket := by
  simp only [System.step]
  cases worker : system.worker with
  | idle | writing => exact sound
  | popping current packet =>
    obtain ⟨⟨nodes, queueSound⟩, holds, order, refused, tickets, distinct, counted⟩ := sound
    simp only [Holds, worker] at holds
    obtain ⟨rest, records⟩ := List.head?_eq_some_iff.mp holds
    have linked : system.queue.recordsOf current ≠ [] := by simp [records]
    obtain ⟨after, popped⟩ := queueSound.pop linked
    have own : (system.queue.pop bucket current).recordsOf current = rest := by
      simp [popped, records]
    have others : ∀ other ≠ current,
        (system.queue.pop bucket current).recordsOf other = system.queue.recordsOf other := by
      intro other different
      rw [popped, update_of_ne different]
    refine ⟨after, trivial, fun identity => ?_, refused, ?_, distinct, counted⟩
    · have old := order identity
      simp only [acceptedFor, handledFor, waiting, worker] at old ⊢
      by_cases same : current = identity
      · subst same
        simpa [records, own] using old
      · rw [others identity (Ne.symm same)]
        simpa [same] using old
    · have leaves : (system.tickets (some current)).Perm
          (packet.number :: rest.map Packet.number) := by simp [System.tickets, records]
      refine tickets.move ⟨Option.some_ne_none current, ?_, .refl _, ?_⟩
      · simpa only [System.tickets, own] using leaves
      intro place leaving arriving
      cases place with
      | none => exact absurd rfl arriving
      | some other =>
        have elsewhere : other ≠ current := fun same => leaving (congrArg _ same)
        simp [System.tickets, others other elsewhere]

theorem Sound.step (action : Action ι ν) :
    (system.step bucket action).Sound bucket := by
  cases action with
  | startWorker => exact sound.startWorker
  | enqueue identity value allocated transferred =>
    exact sound.enqueue identity value allocated transferred
  | take => exact sound.take
  | write retired result => exact sound.write retired result
  | pop => exact sound.pop

end

theorem sound_run (bucket : ι → Fin buckets) (links : ι → ι) (schedule : List (Action ι ν)) :
    (Protocol.run (System.step bucket) (initial links) schedule).Sound bucket :=
  Protocol.invariant_run_of_step (System.step bucket) (Sound bucket)
    (fun _ action sound => sound.step action) (sound_initial bucket links) schedule

/-- One turn of the worker's loop in which the write succeeds. -/
def turn : List (Action ι ν) := [.take, .write false (.ok 0), .pop]

/-- The worker ends the turn it is in and makes some more. -/
def turns : ℕ → List (Action ι ν)
  | 0 => [.write false (.ok 0), .pop]
  | more + 1 => turns more ++ turn

theorem pop_pendingCount (queue : Queue ι ν) (identity : ι) :
    (queue.pop bucket identity).pendingCount = queue.pendingCount - 1 := by
  simp only [Queue.pop, Queue.unlink]
  split_ifs <;> rfl

section

variable (sound : system.Sound bucket)
include sound

/-- A turn of the idle worker handles one record, if there is any. -/
theorem Sound.turn (idle : system.worker = .idle) :
    (Protocol.run (System.step bucket) system turn).worker = .idle ∧
      (Protocol.run (System.step bucket) system turn).queue.pendingCount =
        system.queue.pendingCount - 1 := by
  obtain ⟨nodes, queueSound⟩ := sound.queue
  have entry := queueSound.entry
  cases nodes with
  | nil =>
    have ready : system.queue.ready = none := by simpa using entry.symm
    have empty : system.queue.pendingCount = 0 := by simpa using queueSound.pending
    simp [System.turn, System.step, System.write, Queue.take, idle, ready, empty]
  | cons identity rest =>
    have ready : system.queue.ready = some identity := by simpa using entry.symm
    have linked := (queueSound.ready_iff identity).mp List.mem_cons_self
    obtain ⟨packet, others, records⟩ := List.exists_cons_of_ne_nil linked
    simp [System.turn, System.step, System.write, Queue.take, idle, ready, records,
      disposition, pop_pendingCount]

/-- After the turn it is in, the worker is idle. -/
theorem Sound.turns (more : ℕ) :
    (Protocol.run (System.step bucket) system (turns more)).worker = .idle ∧
      (Protocol.run (System.step bucket) system (turns more)).queue.pendingCount ≤
        system.queue.pendingCount - more := by
  induction more with
  | zero =>
    cases worker : system.worker <;>
      simp [System.turns, System.step, System.write, disposition, worker, pop_pendingCount]
  | succ more ih =>
    have reached : (Protocol.run (System.step bucket) system (System.turns more)).Sound bucket :=
      Protocol.invariant_run_of_step _ _ (fun _ action sound => sound.step action) sound _
    obtain ⟨idle, pending⟩ := reached.turn ih.1
    rw [System.turns, Protocol.run_append]
    exact ⟨idle, by omega⟩

/-- With nothing pending no channel has a record. -/
theorem Sound.recordsOf_eq_nil
    (empty : system.queue.pendingCount = 0) (identity : ι) :
    system.queue.recordsOf identity = [] := by
  obtain ⟨nodes, queueSound⟩ := sound.queue
  by_contra linked
  have member := (queueSound.ready_iff identity).mpr linked
  have lengths := List.sum_eq_zero_iff_forall_eq_nat.mp (queueSound.pending.symm.trans empty)
  have none := lengths _ (List.mem_map_of_mem member)
  exact linked (List.length_eq_zero_iff.mp none)

/-- A ticket that is not with a queued record has been released. -/
theorem Sound.released_iff {number : ℕ}
    (below : number < system.calls) :
    number ∈ system.released ↔
      ∀ identity, number ∉ (system.queue.recordsOf identity).map Packet.number := by
  constructor
  · intro released identity queued
    have same : (none : Option ι) = some identity :=
      sound.tickets.arranged.apart released queued
    exact Option.some_ne_none identity same.symm
  · intro absent
    obtain ⟨_ | identity, found⟩ := sound.tickets.placed number below
    · exact found
    · exact absurd found (absent identity)

end

omit [DecidableEq ι] in
theorem write_calls (retired : Bool) (result : Except Errno ℕ) :
    (system.write retired result).calls = system.calls := by
  unfold System.write
  split
  · simp only
    split_ifs <;> rfl
  · rfl

theorem run_calls_turns (bucket : ι → Fin buckets) (system : System ι ν) (more : ℕ) :
    (Protocol.run (System.step bucket) system (turns more)).calls = system.calls := by
  have take : ∀ before : System ι ν, (before.step bucket .take).calls = before.calls := by
    intro before
    simp only [System.step]
    split <;> rfl
  have pop : ∀ before : System ι ν, (before.step bucket .pop).calls = before.calls := by
    intro before
    simp only [System.step]
    split <;> rfl
  have write : ∀ before : System ι ν,
      (before.step bucket (.write false (.ok 0))).calls = before.calls :=
    fun before => write_calls false (.ok 0)
  induction more with
  | zero => simp only [turns, Protocol.run_cons, Protocol.run_nil, write, pop]
  | succ more ih =>
    simp only [turns, turn, Protocol.run_append, Protocol.run_cons, Protocol.run_nil, take,
      write, pop, ih]

/-- The numbers of the records written to a pipe are those of accepted ones, in order. -/
theorem Sound.writtenTo_sublist (sound : system.Sound bucket) (identity : ι) :
    (system.writtenTo identity).Sublist (system.acceptedFor identity) := by
  rw [sound.order identity]
  exact (List.filter_sublist.map Prod.fst).trans (List.sublist_append_left _ _)

theorem Sound.writtenTo_nodup (sound : system.Sound bucket) (identity : ι) :
    ((system.writtenTo identity).map Packet.number).Nodup := by
  have accepted : ((system.acceptedFor identity).map Packet.number).Nodup := by
    rw [acceptedFor, List.map_map]
    exact sound.distinct.sublist (List.filter_sublist.map _)
  exact accepted.sublist ((sound.writtenTo_sublist identity).map _)

/-- **Exactly once and in order.** After every schedule of producers and worker: what the
worker has handled for a pipe, followed by what is still waiting, is what was accepted for
it; a record that was handled and not written found its descriptor retired or a failure
other than a full pipe; no record is written twice; the counts are those of the queued
records and within their limits; a channel is in its bucket and on the circular list
exactly while it has records; a ticket is released at most once, and exactly when its
record is no longer queued, which the worker brings about for all of them when its writes
succeed. -/
theorem delivery_run (bucket : ι → Fin buckets) (links : ι → ι) (schedule : List (Action ι ν)) :
    let final := Protocol.run (System.step bucket) (initial links) schedule
    (∀ identity, final.acceptedFor identity =
      (final.handledFor identity).map Prod.fst ++ final.waiting identity) ∧
    (∀ entry ∈ final.handled, entry.2.2 = .written ∨ entry.2.2 = .retired ∨
      ∃ error ≠ .eagain, entry.2.2 = .failed error) ∧
    (∀ identity, ((final.writtenTo identity).map Packet.number).Nodup) ∧
    (∀ identity, (final.queue.channels identity).count =
      (final.queue.recordsOf identity).length ∧
      (final.queue.channels identity).count ≤ limitPerPipe) ∧
    (∃ nodes, nodes.head? = final.queue.ready ∧
      Ring final.queue.readyNext final.queue.readyPrev nodes ∧
      (∀ identity, identity ∈ nodes ↔ final.queue.recordsOf identity ≠ []) ∧
      final.queue.pendingCount =
        (nodes.map fun identity => (final.queue.recordsOf identity).length).sum ∧
      final.queue.pendingCount ≤ limitGlobal) ∧
    (∀ index identity, identity ∈ final.queue.chains index ↔
      bucket identity = index ∧ final.queue.recordsOf identity ≠ []) ∧
    final.released.Nodup ∧
    (∀ entry ∈ final.accepted, entry.2.number ∈ final.released ↔
      ∀ identity, entry.2.number ∉ (final.queue.recordsOf identity).map Packet.number) ∧
    ∀ entry ∈ final.accepted, entry.2.number ∈ (Protocol.run (System.step bucket) final
      (turns final.queue.pendingCount)).released := by
  intro final
  have sound : final.Sound bucket := sound_run bucket links schedule
  obtain ⟨nodes, queueSound⟩ := sound.queue
  refine ⟨sound.order, fun entry member => ?_, sound.writtenTo_nodup,
    fun identity => ⟨queueSound.count identity, queueSound.perPipe identity⟩,
    ⟨nodes, queueSound.entry, queueSound.ring, queueSound.ready_iff, queueSound.pending,
      queueSound.global⟩, queueSound.chain_iff, sound.tickets.arranged.nodup none,
    fun entry member => sound.released_iff (sound.counted entry member),
    fun entry member => ?_⟩
  · have refused := sound.refused entry member
    cases outcome : entry.2.2 with
    | written => exact .inl rfl
    | retired => exact .inr (.inl rfl)
    | failed error =>
      refine .inr (.inr ⟨error, fun same => refused ?_, rfl⟩)
      rw [outcome, same]
  · have reached : (Protocol.run (System.step bucket) final
        (turns final.queue.pendingCount)).Sound bucket :=
      Protocol.invariant_run_of_step _ _ (fun _ action sound => sound.step action) sound _
    have pending := (sound.turns final.queue.pendingCount).2
    have below := sound.counted entry member
    rw [← run_calls_turns bucket final final.queue.pendingCount] at below
    refine (reached.released_iff below).mpr fun identity queued => ?_
    rw [reached.recordsOf_eq_nil (by omega) identity] at queued
    exact List.not_mem_nil queued

end System

end OpenXJ380.Message
