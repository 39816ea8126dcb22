/-
# Challenges, grants and password changes

Every property of the service comes from what its slots stand for. A challenge in a
slot was begun by the process and session it names and has not been used. A grant, and
the challenge of a password change that was begun with one, stand for a verification by
the same process in the same session for the same account, after which the process has
not exited and, as long as the revision in the slot is the stored one, the credential
has not been replaced. A change makes a new revision, so a verification is good for one
change only.
-/

import OpenXJ380.Protocol.Log
import OpenXJ380.Protocol.Run
import OpenXJ380.User.Auth

namespace OpenXJ380.User.Auth

open Function Protocol
open OpenXJ380.User.Auth.System (step)
open Event (Revises)

def Database.revisionOf (db : Database) (name : String) : Option Nat :=
  (db.findAccount name).map Account.revision

variable {db : Database} {account : Account} {events : List Event} {slot saved : SessionSlot}
  {s s' : State} {sys : System} {i : Fin 32}
  {name : String} {db' : Database} {history : List Event} {want : SessionSlot → Bool}
  {session : Nat}

theorem findAccount_name (h : db.findAccount name = some account) : account.name = name := by
  have hname := List.find?_some h
  simpa using hname

theorem findAccount_setAccount (db : Database) (account : Account) (name : String) :
    (db.setAccount account).findAccount name =
      if name = account.name then (db.findAccount name).map fun _ => account
      else db.findAccount name := by
  simp only [Database.findAccount, Database.setAccount]
  induction db.accounts with
  | nil => simp
  | cons other rest ih =>
    rw [List.map_cons, List.find?_cons, List.find?_cons, ih]
    by_cases hname : name = account.name
    · subst hname
      by_cases hother : other.name = account.name
      · simp [hother]
      · simp [beq_false_of_ne hother]
    · have haccount := beq_false_of_ne (Ne.symm hname)
      by_cases hother : other.name = account.name
      · simp [hother, haccount]
      · simp [hother, hname]

/-- Two stores in the order in which a run reaches them: no account is lost and a
revision that is still the same was not replaced by the events in between. -/
def Database.Grows (db db' : Database) (events : List Event) : Prop :=
  ∀ name revision, db.revisionOf name = some revision →
    ∃ revision', db'.revisionOf name = some revision' ∧ revision ≤ revision' ∧
      (revision' = revision → ∀ event ∈ events, ¬ event.Revises name)

theorem Database.Grows.refl (h : ∀ name, ∀ event ∈ events, ¬ event.Revises name) :
    db.Grows db events :=
  fun name revision hrevision => ⟨revision, hrevision, le_rfl, fun _ => h name⟩

theorem grows_setAccount {account' : Account} (hfound : db.findAccount name = some account)
    (hname : account'.name = account.name) (hrevision : account'.revision = account.revision + 1)
    (hother : ∀ other ≠ name, ∀ event ∈ events, ¬ event.Revises other) :
    db.Grows (db.setAccount account') events := by
  intro other revision hold
  have haccount : account'.name = name := hname.trans (findAccount_name hfound)
  by_cases hsame : other = name
  · subst hsame
    rw [Database.revisionOf, hfound, Option.map_some, Option.some.injEq] at hold
    refine ⟨revision + 1, ?_, by omega, by omega⟩
    rw [Database.revisionOf, findAccount_setAccount, if_pos haccount.symm, hfound, Option.map_some,
      Option.map_some, hrevision, hold]
  · refine ⟨revision, ?_, le_rfl, fun _ => hother other hsame⟩
    rw [Database.revisionOf, findAccount_setAccount, if_neg (haccount ▸ hsame)]
    exact hold

/-- Slots whose account is the one logged in when they were made. -/
def SessionSlot.Personal (slot : SessionSlot) : Prop :=
  slot.authorized = true ∨ (slot.challenge = true ∧ slot.operation.self = true)

/-- Slots that rest on a verified password. -/
def SessionSlot.Entitled (slot : SessionSlot) : Prop :=
  slot.authorized = true ∨ (slot.challenge = true ∧ slot.operation = .changePassword)

/-- A verification by this process in this session, of this account. -/
def Backed (db : Database) (history : List Event) (slot : SessionSlot) : Prop :=
  ∃ position revision, history[position]? = some (.verified slot.pid slot.session slot.username) ∧
      Since history position (· ≠ .exited slot.pid) ∧
      db.revisionOf slot.username = some revision ∧ slot.revision ≤ revision ∧
      (revision = slot.revision → Since history position (¬ ·.Revises slot.username))

structure SlotSound (s : State) (history : List Event) (slot : SessionSlot) : Prop where
  begun : slot.challenge = true → .begun slot.id slot.pid slot.session slot.operation slot.expires ∈
    history
  fresh : slot.challenge = true → slot.id < s.nextChallenge
  unused : slot.challenge = true → .consumed slot.id ∉ history
  session : slot.Personal → slot.session ≤ s.session.generation
  owner : slot.Personal → slot.session = s.session.generation →
    s.session.currentUser.map UserInfo.name = some slot.username
  backed : slot.Entitled → Backed s.database history slot

theorem slotSound_erased (s : State) (history : List Event) : SlotSound s history .erased := by
  constructor <;> simp [SessionSlot.erased, SessionSlot.Personal, SessionSlot.Entitled]

/-- What a step may do behind the back of a slot that it leaves alone. -/
structure Later (s s' : State) (events : List Event) : Prop where
  next : s.nextChallenge ≤ s'.nextChallenge
  generation : s.session.generation ≤ s'.session.generation
  user : s'.session.generation = s.session.generation →
    s'.session.currentUser = s.session.currentUser
  database : s.database.Grows s'.database events

/-- What a grant rests on stays in the history until its process exits. -/
theorem Backed.later (h : Backed db history slot) (grows : db.Grows db' events)
    (exited : .exited slot.pid ∉ events) :
    Backed db' (history ++ events) slot := by
  obtain ⟨position, revision, hverified, hexit, hrevision, hle, hsince⟩ := h
  obtain ⟨revision', hrevision', hle', hkept⟩ := grows _ _ hrevision
  refine ⟨position, revision', logged_append hverified, hexit.append ?_, hrevision',
    hle.trans hle', ?_⟩
  · exact fun event hevent heq => exited (heq ▸ hevent)
  · intro heq
    have hsame : revision' = revision := le_antisymm (heq ▸ hle) hle'
    exact (hsince (hsame ▸ heq)).append (hkept hsame)

/-- A slot stays sound while its process lives and its challenge is not used. -/
theorem SlotSound.later (h : SlotSound s history slot) (later : Later s s' events)
    (exited : .exited slot.pid ∉ events)
    (consumed : slot.challenge = true → .consumed slot.id ∉ events) :
    SlotSound s' (history ++ events) slot := by
  constructor
  · exact fun hchallenge => List.mem_append_left _ (h.begun hchallenge)
  · exact fun hchallenge => (h.fresh hchallenge).trans_le later.next
  · intro hchallenge hmem
    rcases List.mem_append.mp hmem with hold | hnew
    · exact h.unused hchallenge hold
    · exact consumed hchallenge hnew
  · exact fun hpersonal => (h.session hpersonal).trans later.generation
  · intro hpersonal hsession
    have hgeneration : s'.session.generation = s.session.generation :=
      le_antisymm (hsession ▸ h.session hpersonal) later.generation
    rw [later.user hgeneration]
    exact h.owner hpersonal (hsession.trans hgeneration)
  · exact fun hentitled => (h.backed hentitled).later later.database exited

/-- What may be logged after a history. -/
def Admissible (history : List Event) : Event → Prop
  | .consumed id => .consumed id ∉ history
  | .accepted id pid session operation now =>
    ∃ expires, .begun id pid session operation expires ∈ history ∧ now < expires
  | .changed pid session account =>
    ∃ position : Nat, history[position]? = some (.verified pid session account) ∧
      Since history position fun event => ¬ event.Revises account ∧ event ≠ .exited pid
  | _ => True

structure Sound (sys : System) : Prop where
  slots : ∀ i, SlotSound sys.state sys.history (sys.state.slots i)
  distinct : ∀ i j, (sys.state.slots i).challenge = true → (sys.state.slots j).challenge = true →
    (sys.state.slots i).id = (sys.state.slots j).id → i = j
  used : ∀ id, .consumed id ∈ sys.history → id < sys.state.nextChallenge
  history : Justified Admissible sys.history

theorem sound_initial (now : Nat) (session : Session) (database : Database) :
    Sound (.initial now session database) where
  slots := fun _ => slotSound_erased _ _
  distinct := by simp [System.initial, SessionSlot.erased]
  used := by simp [System.initial]
  history := justified_nil

/-- A step that at most erases slots and logs nothing about challenges. -/
theorem Sound.later (h : Sound sys) (later : Later sys.state s' events)
    (slots : ∀ i, s'.slots i = .erased ∨
      (s'.slots i = sys.state.slots i ∧ .exited (s'.slots i).pid ∉ events ∧
        ((s'.slots i).challenge = true → .consumed (s'.slots i).id ∉ events)))
    (used : ∀ id, .consumed id ∈ events → id < s'.nextChallenge)
    (history : Justified Admissible (sys.history ++ events)) :
    Sound ⟨s', sys.history ++ events⟩ where
  slots := by
    intro i
    rcases slots i with herased | ⟨hkept, hexited, hconsumed⟩
    · exact herased ▸ slotSound_erased _ _
    · rw [hkept] at hexited hconsumed
      exact hkept.symm ▸ (h.slots i).later later hexited hconsumed
  distinct := by
    intro i j hi hj hid
    have hkept : ∀ k, (s'.slots k).challenge = true → s'.slots k = sys.state.slots k := by
      intro k hk
      rcases slots k with herased | ⟨hsame, -⟩
      · rw [herased] at hk
        cases hk
      · exact hsame
    have hsi := hkept i hi
    have hsj := hkept j hj
    rw [hsi] at hi hid
    rw [hsj] at hj hid
    exact h.distinct i j hi hj hid
  used := by
    intro id hid
    rcases List.mem_append.mp hid with hold | hnew
    · exact (h.used id hold).trans_le later.next
    · exact used id hnew
  history := history

/-- A step that logs nothing and at most erases slots. -/
theorem Sound.quiet (h : Sound sys) (later : Later sys.state s' [])
    (slots : ∀ i, s'.slots i = .erased ∨ s'.slots i = sys.state.slots i) :
    Sound ⟨s', sys.history⟩ := by
  have hnext : Sound ⟨s', sys.history ++ []⟩ := by
    refine h.later later ?_ (by simp) (by simpa using h.history)
    exact fun i => (slots i).imp id fun hkept => ⟨hkept, by simp, by simp⟩
  simpa using hnext

/-- One slot is written and the others stay. -/
theorem Sound.place (h : Sound sys) (later : Later sys.state s' events)
    (slots : s'.slots = update sys.state.slots i slot)
    (placed : SlotSound s' (sys.history ++ events) slot)
    (fresh : slot.challenge = true → ∀ k, (sys.state.slots k).challenge = true →
      (sys.state.slots k).id ≠ slot.id) (exited : ∀ pid, .exited pid ∉ events)
    (consumed : ∀ id, .consumed id ∉ events)
    (history : Justified Admissible (sys.history ++ events)) :
    Sound ⟨s', sys.history ++ events⟩ := by
  have hself : s'.slots i = slot := by rw [slots, update_self]
  have hother : ∀ k ≠ i, s'.slots k = sys.state.slots k := by
    intro k hk
    rw [slots, update_of_ne hk]
  constructor
  · intro k
    by_cases hk : k = i
    · rw [hk]
      exact hself.symm ▸ placed
    · have hold := (h.slots k).later later (exited _) fun _ => consumed _
      exact (hother k hk).symm ▸ hold
  · intro k j hk hj hsame
    by_cases hki : k = i <;> by_cases hji : j = i
    · rw [hki, hji]
    · rw [hki, hself] at hk hsame
      rw [hother j hji] at hj hsame
      exact absurd hsame.symm (fresh hk j hj)
    · rw [hji, hself] at hj hsame
      rw [hother k hki] at hk hsame
      exact absurd hsame (fresh hj k hk)
    · rw [hother k hki] at hk hsame
      rw [hother j hji] at hj hsame
      exact h.distinct k j hk hj hsame
  · intro id hused
    rcases List.mem_append.mp hused with hold | hnew
    · exact (h.used id hold).trans_le later.next
    · exact absurd hnew (consumed id)
  · exact history

theorem firstSlot_some (h : s.firstSlot want = some i) : want (s.slots i) = true := by
  have hfound := List.find?_some h
  exact hfound

theorem lastSlot_some (h : s.lastSlot want = some i) : want (s.slots i) = true := by
  have hfound := List.find?_some h
  exact hfound

theorem eraseWhere_slots (s : State) (erase : SessionSlot → Bool) (i : Fin 32) :
    (s.eraseWhere erase).slots i = .erased ∨ (s.eraseWhere erase).slots i = s.slots i := by
  simp only [State.eraseWhere]
  split
  · exact .inl rfl
  · exact .inr rfl

theorem savedGrant_authorized {pid : Nat} {grant : Token}
    (h : (s.savedGrant pid session grant).authorized = true) :
    ∃ i, s.savedGrant pid session grant = s.slots i ∧ (s.slots i).pid = pid ∧
      (s.slots i).session = session := by
  rw [State.savedGrant] at h ⊢
  split at h
  next i hfound =>
    have hwant := lastSlot_some hfound
    simp only [Bool.and_eq_true, beq_iff_eq] at hwant
    exact ⟨i, rfl, hwant.1.1.1, hwant.1.2⟩
  next => cases h

/-- Whoever acts on an account acts on the one that is logged in. -/
theorem callerSession_some {caller : Caller} {user : String}
    (h : s.callerSession caller = some (user, session)) :
    session = s.session.generation ∧
      (user ≠ "" → s.session.currentUser.map UserInfo.name = some user) := by
  rw [State.callerSession] at h
  split at h
  next =>
    cases h
    exact ⟨rfl, fun hempty => absurd rfl hempty⟩
  next info huser =>
    split at h
    next =>
      cases h
      refine ⟨rfl, fun _ => ?_⟩
      split at huser
      · rw [huser, Option.map_some]
      · cases huser
    next => cases h

/-- A begin is refused, or writes one slot with a new identity. -/
theorem begin_cases (s : State) (caller : Caller) (request : XAuthBegin) (env : Environment) :
    (∃ error s', s.begin caller request env = (s', .error error) ∧ (s' = s ∨ s' = s.expire)) ∨
    ∃ i slot, s.begin caller request env =
        ({ s.expire.setSlot i slot with
            now := s.now + env.elapsed, nextChallenge := s.nextChallenge + 1 }, .ok slot) ∧
      slot.id = s.nextChallenge ∧ slot.challenge = true ∧ slot.authorized = false ∧
      slot.session = s.session.generation ∧
      (slot.operation.self = true → s.session.currentUser.map UserInfo.name = some slot.username) ∧
      (slot.operation = .changePassword → ∃ j, (s.expire.slots j).authorized = true ∧
        (s.expire.slots j).pid = slot.pid ∧ (s.expire.slots j).session = slot.session ∧
        (s.expire.slots j).revision = slot.revision) := by
  rw [State.begin]
  split
  case h_2 => exact .inl ⟨_, _, rfl, .inl rfl⟩
  case h_1 operation username _ _ =>
  split
  next => exact .inl ⟨_, _, rfl, .inl rfl⟩
  next =>
  split
  next => exact .inl ⟨_, _, rfl, .inl rfl⟩
  next user session hcaller =>
  obtain ⟨hsession, huser⟩ := callerSession_some hcaller
  dsimp only
  generalize hname : (if operation.self = true then user else username) = name
  split
  next => exact .inl ⟨_, _, rfl, .inl rfl⟩
  next hself =>
  split
  next => exact .inl ⟨_, _, rfl, .inl rfl⟩
  next =>
  split
  next => exact .inl ⟨_, _, rfl, .inl rfl⟩
  next =>
  split
  next => exact .inl ⟨_, _, rfl, .inl rfl⟩
  next =>
  split
  next => exact .inl ⟨_, _, rfl, .inr rfl⟩
  next hgrant =>
  split
  next => exact .inl ⟨_, _, rfl, .inr rfl⟩
  next => exact .inl ⟨_, _, rfl, .inr rfl⟩
  next => exact .inl ⟨_, _, rfl, .inr rfl⟩
  next i _ _ _ =>
    refine .inr ⟨i, _, rfl, rfl, rfl, rfl, hsession, ?_, ?_⟩
    · intro hop
      rw [if_pos hop] at hname
      subst hname
      exact huser fun hempty => hself ⟨hop, hempty⟩
    · intro hop
      have hauthorized : (s.expire.savedGrant caller.pid session request.grant).authorized = true := by
        by_contra hnot
        exact hgrant ⟨hop, by simpa using hnot⟩
      obtain ⟨j, hj, hpid, hsess⟩ := savedGrant_authorized hauthorized
      exact ⟨j, hj ▸ hauthorized, hpid, hsess, by rw [hj]⟩

theorem later_expire (s : State) : Later s s.expire [] :=
  ⟨le_rfl, le_rfl, fun _ => rfl, .refl (by simp)⟩

theorem Sound.expire (h : Sound sys) : Sound ⟨sys.state.expire, sys.history⟩ :=
  h.quiet (later_expire _) (eraseWhere_slots _ _)

theorem Sound.begin (h : Sound sys) (caller : Caller) (request : XAuthBegin) (env : Environment) :
    Sound (sys.step (.begin caller request env)) := by
  rw [step]
  rcases begin_cases sys.state caller request env with
    ⟨error, -, heq, rfl | rfl⟩ | ⟨i, slot, heq, hid, -, hauthorized, hsession, hself, hgrant⟩
  · rw [heq]
    exact h
  · rw [heq]
    exact h.expire
  rw [heq]
  have hexp := h.expire
  have hlater : Later sys.state.expire
      { sys.state.expire.setSlot i slot with
        now := sys.state.now + env.elapsed, nextChallenge := sys.state.nextChallenge + 1 }
      [.begun slot.id slot.pid slot.session slot.operation slot.expires] :=
    ⟨Nat.le_succ _, le_rfl, fun _ => rfl, .refl (by simp [Revises])⟩
  have hnew : SlotSound
      { sys.state.expire.setSlot i slot with
        now := sys.state.now + env.elapsed, nextChallenge := sys.state.nextChallenge + 1 }
      (sys.history ++ [.begun slot.id slot.pid slot.session slot.operation slot.expires])
      slot := by
    have hpersonal : slot.Personal → slot.operation.self = true := by
      rintro (hauth | hself)
      · rw [hauthorized] at hauth
        cases hauth
      · exact hself.2
    constructor
    · intro _
      simp
    · intro _
      rw [hid]
      exact Nat.lt_succ_self _
    · intro _ hused
      have hold : Event.consumed slot.id ∈ sys.history := by simpa using hused
      exact absurd (h.used _ hold) (by rw [hid]; exact lt_irrefl _)
    · intro _
      exact hsession.le
    · exact fun hp _ => hself (hpersonal hp)
    · rintro (hauth | ⟨-, hchange⟩)
      · rw [hauthorized] at hauth
        cases hauth
      · obtain ⟨j, hauth, hpid, hsess, hrevision⟩ := hgrant hchange
        have hj := (hexp.slots j).later hlater (by simp) (by simp)
        have hbacked := hj.backed (.inl hauth)
        -- Both slots name the account of the current session.
        have hname : (sys.state.expire.slots j).username = slot.username := by
          have howner := (hexp.slots j).owner (.inl hauth) (hsess.trans hsession)
          rw [show sys.state.expire.session = sys.state.session from rfl,
            hself (by rw [hchange]; rfl)] at howner
          exact (Option.some.inj howner).symm
        unfold Backed at hbacked ⊢
        rwa [hpid, hsess, hrevision, hname] at hbacked
  refine hexp.place hlater rfl hnew ?_ (by simp) (by simp) (h.history.push trivial)
  intro _ k hk hsame
  have hlt := (hexp.slots k).fresh hk
  rw [hsame, hid] at hlt
  exact lt_irrefl _ hlt

/-- The challenge of a slot is used up. -/
theorem Sound.consume (h : Sound sys) (hchallenge : (sys.state.slots i).challenge = true) :
    Sound ⟨sys.state.setSlot i .erased, sys.history ++ [.consumed (sys.state.slots i).id]⟩ := by
  have hlater : Later sys.state (sys.state.setSlot i .erased) [.consumed (sys.state.slots i).id] :=
    ⟨le_rfl, le_rfl, fun _ => rfl, .refl (by simp [Revises])⟩
  refine h.later hlater ?_ ?_ (h.history.push ((h.slots i).unused hchallenge))
  · intro k
    by_cases hk : k = i
    · exact .inl (by simp [State.setSlot, hk])
    have hkept : (sys.state.setSlot i .erased).slots k = sys.state.slots k := by
      simp [State.setSlot, hk]
    refine .inr ⟨hkept, by simp, ?_⟩
    rw [hkept]
    intro hother hmem
    have hid : (sys.state.slots k).id = (sys.state.slots i).id := by simpa using hmem
    exact hk (h.distinct k i hother hchallenge hid)
  · intro id hid
    have hid : id = (sys.state.slots i).id := by simpa using hid
    rw [hid]
    exact (h.slots i).fresh hchallenge

/-- An event that says nothing about the slots. -/
theorem Sound.log (h : Sound sys) {event : Event} (hadmissible : Admissible sys.history event)
    (hrevises : ∀ name, ¬ event.Revises name) (hexited : ∀ pid, event ≠ .exited pid)
    (hconsumed : ∀ id, event ≠ .consumed id) :
    Sound ⟨sys.state, sys.history ++ [event]⟩ := by
  refine h.later ⟨le_rfl, le_rfl, fun _ => rfl, .refl (by simpa using hrevises)⟩ ?_ ?_
    (h.history.push hadmissible)
  · intro k
    exact .inr ⟨rfl, by simpa using (hexited _).symm, fun _ => by simpa using (hconsumed _).symm⟩
  · intro id hid
    exact absurd (by simpa using hid) (hconsumed id).symm

/-- Two states that differ in the password counters and in the store only. -/
structure SameSlots (s s' : State) : Prop where
  slots : s'.slots = s.slots
  next : s'.nextChallenge = s.nextChallenge
  session : s'.session = s.session

theorem SameSlots.later (h : SameSlots s s') (database : s.database.Grows s'.database events) :
    Later s s' events :=
  ⟨h.next.ge, by rw [h.session], fun _ => by rw [h.session], database⟩

theorem Sound.store (h : Sound sys) (same : SameSlots sys.state s')
    (database : sys.state.database.Grows s'.database []) : Sound ⟨s', sys.history⟩ :=
  h.quiet (same.later database) fun i => .inr (by rw [same.slots])

theorem checkPassword_same (s : State) (account : Option Account) (password : String)
    (env : Environment) :
    SameSlots s (s.checkPassword account password env).1 ∧
      (s.checkPassword account password env).1.database = s.database := by
  rw [State.checkPassword]
  split
  · exact ⟨⟨rfl, rfl, rfl⟩, rfl⟩
  · split
    · exact ⟨⟨rfl, rfl, rfl⟩, rfl⟩
    · split <;> exact ⟨⟨rfl, rfl, rfl⟩, rfl⟩

theorem grows_of_eq (h : db' = db) : db.Grows db' [] := h ▸ .refl (by simp)

theorem login_same (s : State) (username : String) (password : Option String) (env : Environment) :
    SameSlots s (s.login username password env).1 ∧
      s.database.Grows (s.login username password env).1.database [] := by
  have hstay : SameSlots s s ∧ s.database.Grows s.database [] := ⟨⟨rfl, rfl, rfl⟩, grows_of_eq rfl⟩
  unfold State.login
  split
  case h_2 => exact hstay
  case h_1 text _ =>
  split
  next => exact hstay
  next =>
  have hcheck := checkPassword_same s (s.database.findAccount username) text env
  dsimp only
  split
  next heq _ =>
    rw [heq] at hcheck
    exact ⟨hcheck.1, grows_of_eq hcheck.2⟩
  next heq _ =>
    rw [heq] at hcheck
    exact ⟨hcheck.1, grows_of_eq hcheck.2⟩
  next heq =>
    rw [heq] at hcheck
    exact ⟨hcheck.1, grows_of_eq hcheck.2⟩

theorem createFirst_same (s : State) (username : String) (password : Option String)
    (env : Environment) :
    SameSlots s (s.createFirst username password env).1 ∧
      s.database.Grows (s.createFirst username password env).1.database [] := by
  have hstay : SameSlots s s ∧ s.database.Grows s.database [] := ⟨⟨rfl, rfl, rfl⟩, grows_of_eq rfl⟩
  unfold State.createFirst
  split
  case h_2 => exact hstay
  case h_1 text _ =>
  split
  next => exact hstay
  next first rest _ _ =>
    split
    next =>
      have hcheck := checkPassword_same s (some first) text env
      split
      next heq =>
        rw [heq] at hcheck
        exact ⟨hcheck.1, grows_of_eq hcheck.2⟩
      next heq =>
        rw [heq] at hcheck
        exact ⟨hcheck.1, grows_of_eq hcheck.2⟩
    next => exact hstay
  next hempty =>
    -- Nobody is in an empty store, so the first account replaces nothing.
    have hgrows : ∀ db, s.database.Grows db [] := by
      intro db name revision hrevision
      simp [Database.revisionOf, Database.findAccount, hempty] at hrevision
    split
    next => exact hstay
    next => exact hstay
    next =>
      split
      · exact ⟨⟨rfl, rfl, rfl⟩, hgrows _⟩
      · exact hstay
    next => exact ⟨⟨rfl, rfl, rfl⟩, hgrows _⟩

/-- What an operation does once its challenge is accepted. -/
inductive Performed (s : State) (saved : SessionSlot) :
    State → Bool → Option Errno → Prop
  /-- Nothing that a slot or a credential rests on. -/
  | quiet {s' : State} {error : Option Errno} (same : SameSlots s s')
      (database : s.database.Grows s'.database [])
      (result : saved.operation.self = true → error ≠ none) : Performed s saved s' false error
  | verified {s' : State} {account : Account} (operation : saved.operation = .verifyPassword)
      (found : s.database.findAccount saved.username = some account)
      (next : s'.nextChallenge = s.nextChallenge) (session : s'.session = s.session)
      (database : s'.database = s.database)
      (slots : s'.slots = s.slots ∨ ∃ i expires grant, s'.slots = update s.slots i
          { saved with
            challenge := false, authorized := true, revision := account.revision
            expires := expires, grant := grant }) : Performed s saved s' false none
  | revised {s' : State} {account : Account} {error : Errno} {password : String}
      (operation : saved.operation = .changePassword)
      (found : s.database.findAccount saved.username = some account)
      (same : SameSlots s s')
      (database : s'.database = s.database.setAccount
        { account with revision := account.revision + 1, password := password }) :
      Performed s saved s' true (some error)
  | changed {s' : State} {account : Account} {password : String}
      (operation : saved.operation = .changePassword)
      (found : s.database.findAccount saved.username = some account)
      (current : account.revision = saved.revision)
      (next : s'.nextChallenge = s.nextChallenge) (session : s'.session = s.session)
      (slots : ∀ i, s'.slots i = .erased ∨ s'.slots i = s.slots i)
      (database : s'.database = s.database.setAccount
        { account with revision := account.revision + 1, password := password }) :
      Performed s saved s' true none

theorem performed_finishVerify (password : String) (env : Environment)
    (operation : saved.operation = .verifyPassword)
    (found : s.database.findAccount saved.username = some account) :
    Performed s saved (s.finishVerify saved account password env).1 false
      (s.finishVerify saved account password env).2 := by
  have hcheck := checkPassword_same s (some account) password env
  unfold State.finishVerify
  split
  next heq =>
    rw [heq] at hcheck
    exact .quiet hcheck.1 (grows_of_eq hcheck.2) (by simp)
  next s' heq =>
    rw [heq] at hcheck
    split
    next => exact .quiet hcheck.1 (grows_of_eq hcheck.2) (by simp)
    next =>
    split
    next =>
      exact .verified operation found hcheck.1.next hcheck.1.session hcheck.2 (.inl hcheck.1.slots)
    next i _ =>
      refine .verified operation found hcheck.1.next hcheck.1.session hcheck.2
        (.inr ⟨i, s'.now + env.elapsed + challengeLifetime, env.token, ?_⟩)
      rw [← hcheck.1.slots]
      rfl

/-- A change of the password raises the revision of the account. -/
theorem performed_finishChange (password : String) (env : Environment)
    (operation : saved.operation = .changePassword)
    (found : s.database.findAccount saved.username = some account) :
    Performed s saved (s.finishChange saved account password env).1
      (s.finishChange saved account password env).2.1
      (s.finishChange saved account password env).2.2 := by
  have hquiet : ∀ error, Performed s saved s false (some error) :=
    fun error => .quiet ⟨rfl, rfl, rfl⟩ (grows_of_eq rfl) (by simp)
  unfold State.finishChange
  split
  next => exact hquiet _
  next hcurrent =>
  split
  next => exact hquiet _
  next => exact hquiet _
  next =>
    cases env.stored with
    | true => exact .revised operation found ⟨rfl, rfl, rfl⟩ rfl
    | false => exact hquiet _
  next =>
    refine .changed operation found ?_ rfl rfl ?_ rfl
    · by_contra hne
      exact hcurrent (.inl hne)
    · intro i
      simp only [State.eraseWhere]
      split
      · exact .inl rfl
      · exact .inr rfl

theorem performed_finishOperation (s : State) (saved : SessionSlot) (password : String)
    (env : Environment) :
    Performed s saved (s.finishOperation saved password env).1
      (s.finishOperation saved password env).2.1 (s.finishOperation saved password env).2.2 := by
  have hquiet : ∀ error, Performed s saved s false (some error) :=
    fun error => .quiet ⟨rfl, rfl, rfl⟩ (grows_of_eq rfl) (by simp)
  unfold State.finishOperation
  dsimp only
  split
  next hop =>
    have hsame := login_same s saved.username (some password) env
    split
    next heq =>
      rw [heq] at hsame
      exact .quiet hsame.1 hsame.2 (by simp)
    next heq =>
      rw [heq] at hsame
      exact .quiet hsame.1 hsame.2 (by simp [hop, Operation.self])
  next hop =>
    have hsame := createFirst_same s saved.username (some password) env
    split
    next heq =>
      rw [heq] at hsame
      exact .quiet hsame.1 hsame.2 (by simp)
    next heq =>
      rw [heq] at hsame
      exact .quiet hsame.1 hsame.2 (by simp [hop, Operation.self])
  next hop =>
    split
    next => exact hquiet _
    next => exact hquiet _
    next hfound => exact performed_finishVerify password env hop hfound
  next hop =>
    split
    next => exact hquiet _
    next => exact hquiet _
    next hfound => exact performed_finishChange password env hop hfound

/-- The operation that follows an accepted challenge, with what it logs. -/
theorem Sound.perform (h : Sound sys) {revised : Bool} {error : Option Errno}
    (performed : Performed sys.state saved s' revised error)
    (hsession : saved.session = sys.state.session.generation)
    (howner : saved.operation.self = true →
      sys.state.session.currentUser.map UserInfo.name = some saved.username)
    (hbacked : saved.operation = .changePassword → Backed sys.state.database sys.history saved) :
    Sound ⟨s', sys.history ++
      operationEvents saved.operation saved.pid saved.session saved.username revised error⟩ := by
  cases performed with
  | quiet same database result =>
    have hnone : operationEvents saved.operation saved.pid saved.session saved.username false
        error = [] := by
      unfold operationEvents
      split
      next hop => exact absurd rfl (result (by rw [hop]; rfl))
      next hop => exact absurd rfl (result (by rw [hop]; rfl))
      next => rfl
    rw [hnone, List.append_nil]
    exact h.store same database
  | @verified account operation found next session database slots =>
    rw [operation]
    show Sound ⟨s', sys.history ++ [.verified saved.pid saved.session saved.username]⟩
    have hlater : Later sys.state s' [.verified saved.pid saved.session saved.username] :=
      ⟨next.ge, by rw [session], fun _ => by rw [session], database ▸ .refl (by simp [Revises])⟩
    rcases slots with hsame | ⟨i, expires, grant, hplaced⟩
    · refine h.later hlater ?_ (by simp) (h.history.push trivial)
      exact fun k => .inr ⟨by rw [hsame], by simp, by simp⟩
    refine h.place hlater hplaced ?_ (by simp) (by simp) (by simp) (h.history.push trivial)
    have hself := howner (by rw [operation]; rfl)
    constructor
    · simp
    · simp
    · simp
    · intro _
      rw [session]
      exact hsession.le
    · intro _ _
      rw [session]
      exact hself
    · intro _
      refine ⟨sys.history.length, account.revision, by simp, ?_, ?_, le_rfl, fun _ => ?_⟩
      · exact since_of_length_le (by simp)
      · rw [database, Database.revisionOf, found, Option.map_some]
      · exact since_of_length_le (by simp)
  | @revised account error password operation found same database =>
    rw [operation]
    show Sound ⟨s', sys.history ++ [.revised saved.username]⟩
    have hgrows : sys.state.database.Grows s'.database [.revised saved.username] := by
      rw [database]
      exact grows_setAccount found rfl rfl (by simp [Revises, eq_comm])
    refine h.later (same.later hgrows) ?_ (by simp) (h.history.push trivial)
    exact fun k => .inr ⟨by rw [same.slots], by simp, by simp⟩
  | @changed account password operation found current next session slots database =>
    rw [operation]
    show Sound ⟨s', sys.history ++ [.changed saved.pid saved.session saved.username]⟩
    have hgrows : sys.state.database.Grows s'.database
        [.changed saved.pid saved.session saved.username] := by
      rw [database]
      exact grows_setAccount found rfl rfl (by simp [Revises, eq_comm])
    have hlater : Later sys.state s' [.changed saved.pid saved.session saved.username] :=
      ⟨next.ge, by rw [session], fun _ => by rw [session], hgrows⟩
    refine h.later hlater ?_ (by simp) (h.history.push ?_)
    · intro k
      exact (slots k).imp id fun hsame => ⟨hsame, by simp, by simp⟩
    -- The revision in the challenge is the stored one: nothing was replaced since.
    obtain ⟨position, revision, hverified, hexit, hrevision, -, hsince⟩ := hbacked operation
    rw [Database.revisionOf, found, Option.map_some, Option.some.injEq] at hrevision
    have hkept := hsince (hrevision ▸ current)
    exact ⟨position, hverified, fun later event hlater hevent =>
      ⟨hkept later event hlater hevent, hexit later event hlater hevent⟩⟩

/-- A finish is refused, or uses up the challenge it names. -/
theorem finish_cases (s : State) (caller : Caller) (request : XAuthRequest) (env : Environment) :
    (∃ session error, s.finish caller request env = (s, ⟨none, session, false, false, error⟩)) ∨
    ∃ i, (s.slots i).challenge = true ∧ (s.slots i).pid = caller.pid ∧ (s.slots i).id = request.id ∧
      ((∃ error, s.finish caller request env = (s.setSlot i .erased,
            ⟨some (s.slots i), s.session.generation, false, false, some error⟩)) ∨
        ∃ plain, request.plaintext = some plain ∧ plain.operation = some (s.slots i).operation ∧
          (s.slots i).session = s.session.generation ∧ s.now < (s.slots i).expires ∧
          s.finish caller request env =
            (((s.setSlot i .erased).finishOperation (s.slots i) (plain.password.getD "") env).1,
              ⟨some (s.slots i), s.session.generation, true,
                ((s.setSlot i .erased).finishOperation (s.slots i)
                  (plain.password.getD "") env).2.1,
                ((s.setSlot i .erased).finishOperation (s.slots i)
                  (plain.password.getD "") env).2.2⟩)) := by
  unfold State.finish
  split
  next => exact .inl ⟨_, _, rfl⟩
  next =>
  split
  next => exact .inl ⟨_, _, rfl⟩
  next user session hcaller =>
  obtain ⟨rfl, -⟩ := callerSession_some hcaller
  split
  next => exact .inl ⟨_, _, rfl⟩
  next i hfound =>
  have hwant := firstSlot_some hfound
  simp only [Bool.and_eq_true, beq_iff_eq] at hwant
  refine .inr ⟨i, hwant.2, hwant.1.1, hwant.1.2, ?_⟩
  dsimp only
  split
  next => exact .inl ⟨_, rfl⟩
  next hcurrent =>
  obtain ⟨hsession, hexpires⟩ := not_or.mp hcurrent
  split
  next => exact .inl ⟨_, rfl⟩
  next plain hplain =>
  split
  next hanswers =>
    simp only [State.answers, Bool.and_eq_true, beq_iff_eq] at hanswers
    exact .inr ⟨plain, hplain, hanswers.1.1.1.1.1.2, not_not.mp hsession, not_le.mp hexpires, rfl⟩
  next => exact .inl ⟨_, rfl⟩

theorem Sound.finish (h : Sound sys) (caller : Caller) (request : XAuthRequest)
    (env : Environment) : Sound (sys.step (.finish caller request env)) := by
  rw [step]
  rcases finish_cases sys.state caller request env with
    ⟨session, error, heq⟩ | ⟨i, hchallenge, hpid, hid, ⟨error, heq⟩ |
      ⟨plain, hplain, hop, hsession, hexpires, heq⟩⟩
  · rw [heq]
    simpa [finishEvents] using h
  · rw [heq]
    have hconsumed := h.consume hchallenge
    simpa [finishEvents, hid] using hconsumed
  · rw [heq]
    have hslot := h.slots i
    have hbegun := hslot.begun hchallenge
    rw [hid, hpid, hsession] at hbegun
    have haccepted : Sound ⟨sys.state.setSlot i .erased,
        (sys.history ++ [.consumed (sys.state.slots i).id]) ++
          [.accepted request.id caller.pid sys.state.session.generation
            (sys.state.slots i).operation sys.state.now]⟩ :=
      (h.consume hchallenge).log ⟨_, List.mem_append_left _ hbegun, hexpires⟩
        (by simp [Revises]) (by simp) (by simp)
    have hbacked : (sys.state.slots i).operation = .changePassword → Backed sys.state.database
          ((sys.history ++ [.consumed (sys.state.slots i).id]) ++
            [.accepted request.id caller.pid sys.state.session.generation
              (sys.state.slots i).operation sys.state.now]) (sys.state.slots i) := by
      intro hchange
      rw [List.append_assoc]
      exact (hslot.backed (.inr ⟨hchallenge, hchange⟩)).later (.refl (by simp [Revises])) (by simp)
    have hdone := haccepted.perform
      (performed_finishOperation (sys.state.setSlot i .erased) (sys.state.slots i)
        (plain.password.getD "") env) hsession
      (fun hself => hslot.owner (.inr ⟨hchallenge, hself⟩) hsession) hbacked
    simpa [finishEvents, hplain, hop, hid, hpid, hsession] using hdone

/-- No call leaves a slot that the history does not account for. -/
theorem sound_step (action : Action) (h : Sound sys) : Sound (sys.step action) := by
  cases action with
  | tick elapsed => exact h.store ⟨rfl, rfl, rfl⟩ (grows_of_eq rfl)
  | publish info =>
    exact h.quiet ⟨le_rfl, Nat.le_succ _, by simp, .refl (by simp)⟩ fun _ => .inr rfl
  | setReady ready =>
    exact h.quiet ⟨le_rfl, le_rfl, fun _ => rfl, .refl (by simp)⟩ fun _ => .inr rfl
  | login username password env =>
    have hsame := login_same sys.state username password env
    exact h.store hsame.1 hsame.2
  | createFirst username password env =>
    have hsame := createFirst_same sys.state username password env
    exact h.store hsame.1 hsame.2
  | begin caller request env => exact h.begin caller request env
  | finish caller request env => exact h.finish caller request env
  | processExit pid =>
    refine h.later ⟨le_rfl, le_rfl, fun _ => rfl, .refl (by simp [Revises])⟩ ?_ (by simp)
      (h.history.push trivial)
    intro k
    simp only [State.processExit, State.eraseWhere]
    split
    next => exact .inl rfl
    next hother => exact .inr ⟨rfl, fun hmem => hother (by simpa using hmem), by simp⟩
  | recovered => exact h.quiet ⟨le_rfl, le_rfl, fun _ => rfl, .refl (by simp)⟩ fun _ => .inl rfl

/-- The verification at one position of a history is what a password change at another
rests on: the same process, session and account, no exit of the process and no new
credential in between. -/
def Enables (history : List Event) (verification change : Nat) : Prop :=
  ∃ pid session account, history[change]? = some (.changed pid session account) ∧
    verification < change ∧ history[verification]? = some (.verified pid session account) ∧
    ∀ between event, verification < between → between < change →
      history[between]? = some event → ¬ event.Revises account ∧ event ≠ .exited pid

/-- A challenge is good for one finish, by its own process and in time, and a password is changed on
the strength of a verification that no other change has used. -/
theorem authentication_protocol (now : Nat) (session : Session) (database : Database)
    (schedule : List Action) :
    let history := (run step (.initial now session database) schedule).history
    -- A challenge is used up by one finish.
    (∀ i j id : Nat, history[i]? = some (.consumed id) → history[j]? = some (.consumed id) → i = j) ∧
    -- It is accepted from its process, in its session, for its operation and in time.
    (∀ (i : Nat) id pid session operation now,
      history[i]? = some (.accepted id pid session operation now) →
      ∃ j expires : Nat, j < i ∧ history[j]? = some (.begun id pid session operation expires) ∧
        now < expires) ∧
    -- A password change rests on a verification, and no two on the same one.
    (∀ (i : Nat) pid session account, history[i]? = some (.changed pid session account) →
      ∃ j, Enables history j i) ∧
    ∀ i j k, Enables history i j → Enables history i k → j = k := by
  intro history
  have hjustified : Justified Admissible history :=
    (invariant_run_of_step step Sound (fun _ => sound_step)
      (sound_initial now session database) schedule).history
  refine ⟨?_, ?_, ?_, ?_⟩
  · have hordered : ∀ i j id : Nat, i < j → history[i]? = some (.consumed id) →
        history[j]? ≠ some (.consumed id) := by
      intro i j id hij hi hj
      exact hjustified j _ hj (List.mem_of_getElem? (logged_take.mpr ⟨hij, hi⟩))
    intro i j id hi hj
    rcases lt_trichotomy i j with hlt | heq | hgt
    · exact absurd hj (hordered i j id hlt hi)
    · exact heq
    · exact absurd hi (hordered j i id hgt hj)
  · intro i id pid session operation now hi
    obtain ⟨expires, hmem, hlt⟩ := hjustified i _ hi
    obtain ⟨j, hj⟩ := List.mem_iff_getElem?.mp hmem
    obtain ⟨hji, hbegun⟩ := logged_take.mp hj
    exact ⟨j, expires, hji, hbegun, hlt⟩
  · intro i pid session account hi
    obtain ⟨j, hj, hsince⟩ := hjustified i _ hi
    obtain ⟨hji, hverified⟩ := logged_take.mp hj
    refine ⟨j, pid, session, account, hi, hji, hverified, ?_⟩
    intro between event hafter hbefore hevent
    exact hsince between event hafter (logged_take.mpr ⟨hbefore, hevent⟩)
  · -- The earlier of two changes would lie between the verification and the later one.
    have hordered : ∀ i j k, Enables history i j → Enables history i k → ¬ j < k := by
      rintro i j k ⟨pid, session, account, hj, hij, hverified, -⟩
        ⟨pid', session', account', hk, -, hverified', hbetween⟩ hjk
      rw [hverified] at hverified'
      cases hverified'
      exact (hbetween j _ hij hjk hj).1 rfl
    intro i j k hj hk
    exact le_antisymm (not_lt.mp (hordered i k j hk hj)) (not_lt.mp (hordered i j k hj hk))

end OpenXJ380.User.Auth
