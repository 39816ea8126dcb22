/-
# Names of unix sockets

`unix_bind` (`src/driver/fs/vfs/unixsock.cpp`) looks a path up and registers it in two sections of
the lock of the namespace, looks up the whole string although it keeps the part inside the
address length, and does not ask whether the socket is closed. Where no two sockets are being bound
to one path, the strings end inside the address and no closed socket is bound, at most one open
socket has a path, and it is found until it is closed.

A section is one step. The lock of a socket is held while it is bound, so that no other call on
it goes on. `Unix.Model` has the calls with all their locks, and the copied part of an address as the
name. Here an address has its whole string, and a call is cut where the lock of the namespace
is free in between. `Shows` relates the two.
-/

import OpenXJ380.Unix.Model

namespace OpenXJ380.Unix.Namespace

open Function List Protocol

/-- A path, without the terminator. -/
abbrev Path := List UInt8

/-- An address as the caller gives it: the string that starts at `sun_path`, and `addrlen`. -/
structure Address where
  raw : Path
  length : Nat

/-- What is copied of the string. -/
def Address.path (address : Address) : Path := address.raw.take (min (address.length - 2) 108)

structure Sock where
  state : SockState := .free
  path : Path := []
  /-- `unix_close` was called; a peer that is closed is not told apart here. -/
  closed : Bool := false
  /-- The address that was looked up and is not registered yet. -/
  binding : Option Address := none
  /-- A bind to a path has succeeded. -/
  named : Bool := false

structure System (σ : Type) where
  socks : σ → Sock := fun _ => {}
  registered : List σ := []

variable {σ : Type} [DecidableEq σ]

namespace System

variable (sys : System σ)

def set (s : σ) (sock : Sock) : System σ := { sys with socks := update sys.socks s sock }

/-- `unix_ns_lookup`. -/
def lookup (path : Path) : Option σ := sys.registered.find? fun s =>
    (sys.socks s).state ≠ .free && (sys.socks s).path ≠ [] && (sys.socks s).path = path

end System

/-- The two sections of `unix_bind`, of which the second may find no memory for the entry;
`unix_listen`, `unix_connect`, the socket that a connection adds at the side of the listener, and
`unix_close`. -/
inductive Action (σ : Type)
  | bind (s : σ) (address : Address)
  | register (s : σ) (granted : Bool)
  | listen (s : σ)
  | connect (s : σ)
  | serve (s listener : σ)
  | close (s : σ)

/-- The lock of the socket is free. -/
def Sock.idle (sock : Sock) : Bool := sock.binding.isNone

def step (sys : System σ) : Action σ → System σ
  | .bind s address =>
    let sock := sys.socks s
    if 2 ≤ address.length && sock.idle && sock.state = .free &&
        (address.path = [] || (sys.lookup address.raw).isNone) then
      sys.set s { sock with binding := some address }
    else sys
  | .register s granted =>
    match (sys.socks s).binding with
    | none => sys
    | some address =>
      { sys.set s { sys.socks s with
          binding := none, path := address.path, state := .bound, named := address.path ≠ [] } with
        registered :=
          if address.path = [] || !granted then sys.registered else sys.registered ++ [s] }
  | .listen s =>
    if (sys.socks s).idle && (sys.socks s).state = .bound then
      sys.set s { sys.socks s with state := .listening }
    else sys
  | .connect s =>
    if (sys.socks s).idle && ((sys.socks s).state = .free || (sys.socks s).state = .bound) then
      sys.set s { sys.socks s with state := .connected }
    else sys
  | .serve s listener =>
    if (sys.socks s).idle && (sys.socks s).state = .free then
      sys.set s { sys.socks s with state := .connected, path := (sys.socks listener).path }
    else sys
  | .close s =>
    if (sys.socks s).idle then
      { sys.set s { sys.socks s with closed := true } with
        registered :=
          if (sys.socks s).state = .free then sys.registered else sys.registered.erase s }
    else sys

/-- The sockets and the table of a net, as far as names go. -/
structure Shows (net : Net) (sys : System SockId) : Prop where
  state : ∀ sk, (sys.socks sk).state = (net.sock sk).state
  path : ∀ sk, (sys.socks sk).path = (net.sock sk).localPath.getD []
  registered : sys.registered = net.names.getD []

section

variable {net : Net} {sys : System SockId} {sk : SockId} (shown : Shows net sys)
include shown

theorem Shows.lookup {name : Name} (hname : name ≠ []) : sys.lookup name = net.find name := by
  rw [System.lookup, Net.find, shown.registered]
  congr 1
  funext s
  rw [shown.state, shown.path]
  cases (net.sock s).localPath with
  | none => simp [Ne.symm hname]
  | some path =>
    by_cases hsame : path = name
    · simp [hsame, hname]
    · simp [hsame]

/-- One socket changes, and the table. -/
theorem Shows.modify {sock : Sock} (change : Unix.Sock → Unix.Sock) (names : Option (List SockId))
    {registered : List SockId} (hstate : sock.state = (change (net.sock sk)).state)
    (hpath : sock.path = (change (net.sock sk)).localPath.getD [])
    (hregistered : registered = names.getD []) :
    Shows { net.modify sk change with names } { sys.set sk sock with registered } where
  state other := by
    simp only [System.set, Net.modify_sock, update_apply]
    split
    · exact hstate
    · exact shown.state other
  path other := by
    simp only [System.set, Net.modify_sock, update_apply]
    split
    · exact hpath
    · exact shown.path other
  registered := hregistered

theorem Shows.untouched (change : Unix.Sock → Unix.Sock)
    (hstate : (change (net.sock sk)).state = (net.sock sk).state)
    (hpath : (change (net.sock sk)).localPath = (net.sock sk).localPath) :
    Shows (net.modify sk change) sys where
  state other := by
    rw [shown.state, Net.modify_sock]
    split
    · rename_i hsame
      rw [hsame, hstate]
    · rfl
  path other := by
    rw [shown.path, Net.modify_sock]
    split
    · rename_i hsame
      rw [hsame, hpath]
    · rfl
  registered := shown.registered

theorem Shows.create {sock : Sock} (created : Unix.Sock) (hstate : sock.state = created.state)
    (hpath : sock.path = created.localPath.getD []) :
    Shows (net.create created) (sys.set net.count sock) where
  state other := by
    simp only [System.set, Net.create_sock, update_apply]
    split
    · exact hstate
    · exact shown.state other
  path other := by
    simp only [System.set, Net.create_sock, update_apply]
    split
    · exact hpath
    · exact shown.path other
  registered := shown.registered

/-- The lookup of a bind changes no name. -/
theorem Shows.bind (address : Address) : Shows net (step sys (.bind sk address)) := by
  simp only [step]
  split
  · refine ⟨fun other => ?_, fun other => ?_, shown.registered⟩
    all_goals
      simp only [System.set, update_apply]
      split
    · rename_i hsame
      exact hsame ▸ shown.state other
    · exact shown.state other
    · rename_i hsame
      exact hsame ▸ shown.path other
    · exact shown.path other
  · exact shown

/-- The rest of a bind to a path, and of one without. -/
theorem Shows.register {address : Address} (hbinding : (sys.socks sk).binding = some address)
    (supply : Supply) :
    Shows (if address.path = [] then
        net.modify sk fun sock => { sock with state := .bound, localPath := none }
      else registerStep supply (net.modify sk fun sock =>
        { sock with state := .bound, localPath := some address.path }) sk)
      (step sys (.register sk (supply = .plenty))) := by
  simp only [step, hbinding]
  by_cases hempty : address.path = []
  · rw [if_pos hempty]
    refine shown.modify (fun sock => { sock with state := .bound, localPath := none }) net.names rfl
      hempty ?_
    simpa [hempty] using shown.registered
  · let stored : Unix.Sock → Unix.Sock :=
      fun sock => { sock with state := .bound, localPath := some address.path }
    rw [if_neg hempty, registerStep]
    by_cases hplenty : supply = .plenty
    · rw [if_pos hplenty]
      refine shown.modify stored (some (net.names.getD [] ++ [sk])) rfl rfl ?_
      simp [hempty, hplenty, shown.registered]
    · rw [if_neg hplenty]
      refine shown.modify stored net.names rfl rfl ?_
      simpa [hplenty] using shown.registered

variable (hidle : (sys.socks sk).idle = true)
include hidle

theorem Shows.listen (htype : (net.sock sk).type = .stream) :
    Shows (listenStep net sk).1 (step sys (.listen sk)) := by
  have hstate := shown.state sk
  rw [listenStep, if_neg (by simp [htype])]
  simp only [step, hidle, Bool.true_and, decide_eq_true_eq]
  by_cases hbound : (net.sock sk).state = .bound
  · rw [if_neg (not_not.mpr hbound), if_pos (hstate.trans hbound)]
    exact shown.modify (fun sock =>
        { sock with state := .listening, connQueue := some (sock.connQueue.getD []) })
      net.names rfl (shown.path sk) shown.registered
  · rw [if_pos hbound, if_neg (hstate ▸ hbound)]
    exact shown

/-- A datagram socket is connected at once. -/
theorem Shows.connect (htype : (net.sock sk).type = .dgram) (name : Option Name) :
    Shows (connectStep net sk name).1 (step sys (.connect sk)) := by
  have hstate := shown.state sk
  simp only [connectStep, step, hidle, Bool.true_and, Bool.or_eq_true, decide_eq_true_eq, hstate]
  by_cases hready : (net.sock sk).state = .free ∨ (net.sock sk).state = .bound
  · have hasked : Shows (net.modify sk fun sock => { sock with peerPath := some name }) sys :=
      shown.untouched _ rfl rfl
    rw [if_neg (by tauto), if_pos hready, if_pos (by simp [htype])]
    refine hasked.modify (fun sock => { sock with state := .connected }) net.names ?_ ?_ ?_
    · rfl
    · simp [shown.path]
    · exact shown.registered
  · rw [if_pos (by tauto), if_neg hready]
    exact shown

/-- A connection to a listener adds a socket with the path of the listener. -/
theorem Shows.serve {listener : SockId} {queue : List SockId}
    (hfresh : (sys.socks net.count).idle = true) (hfree : (sys.socks net.count).state = .free) (hother : sk ≠ net.count)
    (hready : (net.sock sk).state = .free ∨ (net.sock sk).state = .bound)
    (hlistening : (net.sock listener).state = .listening)
    (hqueue : (net.sock listener).connQueue = some queue) :
    Shows (connectBothStep .plenty net sk listener).1
      (step (step sys (.serve net.count listener)) (.connect sk)) := by
  have hserve : step sys (.serve net.count listener) = sys.set net.count { sys.socks net.count with
      state := .connected, path := (sys.socks listener).path } := by
    simp [step, hfresh, hfree]
  have hsame : ((step sys (.serve net.count listener)).socks sk) = sys.socks sk := by
    rw [hserve]
    exact update_of_ne hother ..
  have hconnect : step (step sys (.serve net.count listener)) (.connect sk) =
      (step sys (.serve net.count listener)).set sk { sys.socks sk with state := .connected } := by
    rw [step, hsame, if_pos (by simpa [hidle, shown.state] using hready)]
  have hcreated : Shows (net.create
      { state := .connected, localPath := (net.sock listener).localPath,
        peerPath := some (net.sock sk).localPath, peer := some sk, stage := .queued })
      (step sys (.serve net.count listener)) := by
    rw [hserve]
    exact shown.create _ rfl (shown.path listener)
  rw [hconnect]
  simp only [connectBothStep, hlistening, hqueue, ne_eq, not_true_eq_false, if_false]
  refine Shows.untouched (Shows.untouched (hcreated.modify
    (fun sock => { sock with state := .connected, peer := some net.count }) net.names ?_ ?_ ?_)
    _ rfl rfl) _ rfl rfl
  · rfl
  · simp [hother, shown.path]
  · exact hcreated.registered

/-- A close sets the mark, and takes a socket that has a state off the table. -/
theorem Shows.close : Shows (if (net.sock sk).state = .free then (closeStep net sk).1
    else unregisterStep (closeStep net sk).1 sk) (step sys (.close sk)) := by
  let marked : Unix.Sock → Unix.Sock := fun sock => { sock with closed := true }
  have hnet : (closeStep net sk).1 = net.modify sk marked := by
    rw [closeStep]
    split <;> rfl
  have hstate := shown.state sk
  simp only [step, hidle, if_true, hnet]
  by_cases hfree : (net.sock sk).state = .free
  · rw [if_pos hfree, if_pos (hstate.trans hfree)]
    exact shown.modify marked net.names hstate (shown.path sk) shown.registered
  · rw [if_neg hfree, if_neg (hstate ▸ hfree), unregisterStep]
    refine shown.modify marked (net.names.map (·.erase sk)) ?_ ?_ ?_
    · exact hstate
    · exact shown.path sk
    · rw [shown.registered]
      cases net.names <;> rfl

end

/-- The socket is not closed, the string of the address ends inside it, nobody else is binding to
it, and memory is found. -/
def Orderly (sys : System σ) : Action σ → Prop
  | .bind s address => (sys.socks s).closed = false ∧ address.path = address.raw ∧
    address.raw.length < 108 ∧ ∀ t other, (sys.socks t).binding = some other →
      other.path ≠ address.path ∨ address.path = []
  | .register _ granted => granted = true
  | _ => True

structure Sound (sys : System σ) : Prop where
  nodup : sys.registered.Nodup
  entry : ∀ s, s ∈ sys.registered ↔ (sys.socks s).named = true ∧ (sys.socks s).closed = false
  path : ∀ s, (sys.socks s).named = true → (sys.socks s).path ≠ [] ∧ (sys.socks s).state ≠ .free
  unique : ∀ s ∈ sys.registered, ∀ t ∈ sys.registered,
    (sys.socks s).path = (sys.socks t).path → s = t
  pending : ∀ s address, (sys.socks s).binding = some address →
    (sys.socks s).state = .free ∧ (sys.socks s).closed = false ∧
    ∀ t ∈ sys.registered, (sys.socks t).path ≠ address.path
  apart : ∀ s t address other, (sys.socks s).binding = some address →
    (sys.socks t).binding = some other → address.path = other.path → address.path = [] ∨ s = t

variable {sys : System σ} {s : σ} {path : Path}

omit [DecidableEq σ] in
theorem Sound.lookup_eq_none (sound : Sound sys) (h : sys.lookup path = none) :
    ∀ t ∈ sys.registered, (sys.socks t).path ≠ path := by
  intro t ht heq
  have hnamed := sound.path t ((sound.entry t).mp ht).1
  have hmissed := find?_eq_none.mp h t ht
  simp_all

omit [DecidableEq σ] in
theorem Sound.lookup_spec (sound : Sound sys) (h : sys.lookup path = some s) :
    (sys.socks s).closed = false ∧ (sys.socks s).path = path := by
  have hmem := mem_of_find?_eq_some h
  have hpath := find?_some h
  simp only [Bool.and_eq_true, decide_eq_true_eq] at hpath
  exact ⟨((sound.entry s).mp hmem).2, hpath.2⟩

omit [DecidableEq σ] in
theorem Sound.lookup_path (sound : Sound sys) (hnamed : (sys.socks s).named = true)
    (hopen : (sys.socks s).closed = false) : sys.lookup (sys.socks s).path = some s := by
  have hmem := (sound.entry s).mpr ⟨hnamed, hopen⟩
  cases h : sys.lookup (sys.socks s).path with
  | none => exact absurd rfl (sound.lookup_eq_none h s hmem)
  | some t => rw [sound.unique t (mem_of_find?_eq_some h) s hmem (sound.lookup_spec h).2]

/-- A change of a socket that is not being bound, and of nothing that its name rests on. -/
theorem Sound.set (sound : Sound sys) {sock : Sock} (hnamed : sock.named = (sys.socks s).named)
    (hclosed : sock.closed = (sys.socks s).closed) (hbinding : sock.binding = none)
    (hpath : sock.named = true → sock.path = (sys.socks s).path ∧ sock.state ≠ .free) :
    Sound (sys.set s sock) := by
  obtain ⟨hnodup, hentry, hpaths, hunique, hpending, hapart⟩ := sound
  constructor <;> simp only [System.set] <;> grind

theorem sound_step {action : Action σ} (sound : Sound sys) (orderly : Orderly sys action) :
    Sound (step sys action) := by
  cases action with
  | bind s address =>
    obtain ⟨hopen, hraw, -, hother⟩ := orderly
    simp only [step]
    split
    · rename_i hfree
      simp only [Sock.idle] at hfree
      have hnone : ∀ t ∈ sys.registered, (sys.socks t).path ≠ address.path := by
        intro t ht
        by_cases hempty : address.path = []
        · rw [hempty]
          exact (sound.path t ((sound.entry t).mp ht).1).1
        · exact sound.lookup_eq_none (by simp_all) t ht
      obtain ⟨hnodup, hentry, hpaths, hunique, hpending, hapart⟩ := sound
      constructor <;> simp only [System.set] <;> grind
    · exact sound
  | register s granted =>
    simp only [step, show granted = true from orderly]
    split
    · exact sound
    · obtain ⟨hnodup, hentry, hpaths, hunique, hpending, hapart⟩ := sound
      constructor <;> simp only [System.set] <;> grind
  | listen s =>
    simp only [step]
    split
    · exact sound.set rfl rfl (by simp_all [Sock.idle]) (by simp)
    · exact sound
  | connect s =>
    simp only [step]
    split
    · exact sound.set rfl rfl (by simp_all [Sock.idle]) (by simp)
    · exact sound
  | serve s listener =>
    simp only [step]
    split
    · exact sound.set rfl rfl (by simp_all [Sock.idle]) fun h => absurd (sound.path s h).2 (by simp_all)
    · exact sound
  | close s =>
    simp only [step]
    split
    · rename_i hidle
      simp only [Sock.idle] at hidle
      obtain ⟨hnodup, hentry, hpaths, hunique, hpending, hapart⟩ := sound
      constructor <;> simp only [System.set, update_apply] <;>
        grind
    · exact sound

/-- Registered sockets have different paths; a named socket is found until it is closed; and what
is found is open and has the path that was looked up. -/
theorem names_unique {calls : List (Action σ)} (orderly : Along step Orderly {} calls) :
    let sys := run step {} calls
    (∀ s ∈ sys.registered, ∀ t ∈ sys.registered, (sys.socks s).path = (sys.socks t).path → s = t) ∧
    (∀ s, (sys.socks s).named = true → (sys.socks s).closed = false →
      sys.lookup (sys.socks s).path = some s) ∧
    ∀ s path, sys.lookup path = some s → (sys.socks s).closed = false ∧ (sys.socks s).path = path := by
  have sound : Sound (run step {} calls) :=
    invariant_run step Sound (fun _ _ ok sound => sound_step sound ok) orderly
      ⟨nodup_nil, by simp, by simp, by simp, by simp, by simp⟩
  exact ⟨sound.unique, fun _ => sound.lookup_path, fun _ _ => sound.lookup_spec⟩

/-- Two binds to one path at the same time: both sockets are registered with it. -/
theorem path_bound_twice :
    let address : Address := ⟨[97, 98], 16⟩
    let sys : System Bool := run step {}
      [.bind false address, .bind true address, .register false true, .register true true]
    sys.registered = [false, true] ∧ (sys.socks false).path = [97, 98] ∧
      (sys.socks true).path = [97, 98] := by
  decide

/-- Two sockets are bound, one listens and is closed. -/
def closeOne : List (Action Bool) :=
  [.bind false ⟨[97], 16⟩, .register false true, .listen false, .bind true ⟨[98], 16⟩,
    .register true true, .close false]

/-- The other one is found and the one that was closed is not. -/
theorem names_unique_closeOne : (run step {} closeOne).lookup [98] = some true ∧
    (run step {} closeOne).lookup [97] ≠ some false := by
  have orderly : Along step Orderly ({} : System Bool) closeOne := by
    refine ⟨⟨by decide, by decide, by decide, by simp⟩, rfl, trivial,
      ⟨by decide, by decide, by decide, ?_⟩, rfl, trivial, trivial⟩
    decide +revert
  obtain ⟨-, hfound, hopen⟩ := names_unique orderly
  refine ⟨hfound true (by decide) (by decide), fun hclosed => ?_⟩
  exact absurd (hopen false [97] hclosed).1 (by decide)

end OpenXJ380.Unix.Namespace
