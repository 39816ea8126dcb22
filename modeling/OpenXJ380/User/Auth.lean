/-
# The authentication service

`src/kernel/user/user_auth.cpp` checks passwords for processes. A process begins an
operation and gets a challenge, encrypts its answer under the service's key and finishes
the operation with it. Challenges and the grants of verified passwords live in a table
of 32 slots. The service mutex is held through a whole call, so each call is one step;
session changes do not take the mutex and are steps of their own, also those that a
login makes before it returns.

Decryption and password hashing are ideal here: a request carries the plaintext that its
ciphertext decrypts to, and an account carries its password. What the machine decides
(random tokens, failures of the crypto code and of the store, time spent) comes in with
each call. If the thread that holds the mutex is killed, the next caller resets the
slots; that is the step `recovered`.
-/

import OpenXJ380.Kernel.Errno
import OpenXJ380.User.Rights

namespace OpenXJ380.User.Auth

inductive Operation
  | login | createFirst | verifyPassword | changePassword
  deriving DecidableEq

/-- The operations on the caller's own account. -/
def Operation.self : Operation → Bool
  | login | createFirst => false
  | verifyPassword | changePassword => true

/-- Thirty-two random bytes; zero is an erased one. -/
abbrev Token := BitVec 256

structure SessionSlot where
  pid : Nat
  session : Nat
  id : Nat
  expires : Nat
  revision : Nat
  operation : Operation
  challenge : Bool
  authorized : Bool
  username : String
  nonce : Token
  grant : Token
  deriving DecidableEq

def SessionSlot.erased : SessionSlot where
  pid := 0
  session := 0
  id := 0
  expires := 0
  revision := 0
  operation := .login
  challenge := false
  authorized := false
  username := ""
  nonce := 0
  grant := 0

structure Account where
  name : String
  role : UserType
  permissions : UInt8
  revision : Nat
  password : String
  deriving DecidableEq

structure Database where
  accounts : List Account
  generation : Nat
  deriving DecidableEq

structure Session where
  currentUser : Option UserInfo
  ready : Bool
  generation : Nat

structure State where
  now : Nat
  session : Session
  database : Database
  slots : Fin 32 → SessionSlot
  nextChallenge : Nat
  retryAfter : Nat
  failedAttempts : Nat

/-- The thread that calls: its process and the account the process runs for. -/
structure Caller where
  pid : Nat
  permissionUser : String

/-- What the machine decides about one call. -/
structure Environment where
  elapsed : Nat
  token : Token
  publicKey : Option Errno
  random : Option Errno
  hash : Option Errno
  load : Option Errno
  save : Option Errno
  /-- A save that fails may still have replaced the stored database. -/
  stored : Bool
  activate : Option Errno

/-- A text field is missing when its array holds no terminator. -/
structure XAuthBegin where
  size : Nat
  version : Nat
  operation : Option Operation
  reserved : Nat
  username : Option String
  grant : Token

structure XAuthPlaintext where
  version : Nat
  operation : Option Operation
  id : Nat
  nonce : Token
  username : Option String
  password : Option String
  grant : Token

structure XAuthRequest where
  size : Nat
  version : Nat
  id : Nat
  plaintext : Option XAuthPlaintext

/-- A second, in the nanoseconds the clock counts. -/
def second : Nat := 1000000000

def challengeLifetime : Nat := 60 * second
/-- How long a failed attempt blocks the next one. -/
def retryDelay (failed : Nat) : Nat := second * 2 ^ failed

def xauthVersion : Nat := 1
def counterMax : Nat := 2 ^ 64 - 1

def nameChar (c : Char) : Bool :=
  ('a' ≤ c && c ≤ 'z') || ('A' ≤ c && c ≤ 'Z') || ('0' ≤ c && c ≤ '9') ||
    c == '_' || c == '-' || c == ' '

def validName (name : String) : Bool :=
  name != "" && decide (name.length < 64) && name.toList.all nameChar

def passwordValid (password : Option String) (allowEmpty : Bool) : Bool :=
  match password with
  | none => false
  | some text => (allowEmpty || text != "") && decide (text.length < 128)

def Database.findAccount (db : Database) (name : String) : Option Account :=
  db.accounts.find? fun account => account.name == name

/-- Names are unique in a database that loads. -/
def Database.setAccount (db : Database) (account : Account) : Database where
  accounts := db.accounts.map fun other => if other.name == account.name then account else other
  generation := db.generation + 1

def publicUser (account : Account) : UserInfo where
  name := account.name
  userType := account.role
  userPrms := userPermissionsFromMask account.permissions

namespace State

section

variable (s : State)

def setSlot (i : Fin 32) (slot : SessionSlot) : State :=
  { s with slots := Function.update s.slots i slot }

def eraseWhere (erase : SessionSlot → Bool) : State :=
  { s with slots := fun i => if erase (s.slots i) then .erased else s.slots i }

section

variable (want : SessionSlot → Bool)

def firstSlot : Option (Fin 32) := (List.finRange 32).find? fun i => want (s.slots i)

def lastSlot : Option (Fin 32) := (List.finRange 32).reverse.find? fun i => want (s.slots i)

end

/-- The account the caller acts on, empty before a login, and its session. A process of
an old login cannot act on the account that is logged in now. -/
def callerSession (caller : Caller) : Option (String × Nat) :=
  match (if s.session.ready then s.session.currentUser else none) with
  | none => some ("", s.session.generation)
  | some user =>
    if caller.permissionUser = user.name then some (user.name, s.session.generation) else none

def checkPassword (account : Option Account) (password : String) (env : Environment) :
    State × Option Errno :=
  if s.now < s.retryAfter then (s, some .eagain)
  else match env.hash with
    | some error => (s, some error)
    | none =>
      if account.any fun account => account.password == password then
        ({ s with failedAttempts := 0, retryAfter := 0 }, none)
      else
        let failed := if s.failedAttempts < 5 then s.failedAttempts + 1 else s.failedAttempts
        ({ s with failedAttempts := failed, retryAfter := s.now + retryDelay failed }, some .eacces)

def login (username : String) (password : Option String) (env : Environment) :
    State × Except Errno UserInfo :=
  match validName username && passwordValid password true, password with
  | true, some text =>
    match env.load with
    | some error => (s, .error error)
    | none =>
      let account := s.database.findAccount username
      match s.checkPassword account text env, account with
      | (s, none), some account => (s, .ok (publicUser account))
      | (s, none), none => (s, .error .eacces)
      | (s, some error), _ => (s, .error error)
  | _, _ => (s, .error .einval)

def createFirst (username : String) (password : Option String) (env : Environment) :
    State × Except Errno UserInfo :=
  match validName username && passwordValid password false, password with
  | true, some text =>
    match env.load, s.database.accounts with
    | some error, _ => (s, .error error)
    -- An interrupted first setup may be repeated; it never replaces the first account.
    | none, first :: _ =>
      if first.name = username then
        match s.checkPassword (some first) text env with
        | (s, none) => (s, .ok (publicUser first))
        | (s, some error) => (s, .error error)
      else (s, .error .eexist)
    | none, [] =>
      let account : Account :=
        { name := username, role := .admin, permissions := userTypePermissionMask .admin
          revision := 1, password := text }
      let created := { s with database :=
        { accounts := [account], generation := s.database.generation + 1 } }
      match env.random, env.hash, env.save with
      | some error, _, _ => (s, .error error)
      | none, some error, _ => (s, .error error)
      | none, none, some error => (if env.stored then created else s, .error error)
      | none, none, none => (created, .ok (publicUser account))
  | _, _ => (s, .error .einval)

/-- Forget what has expired, before a slot is looked for. -/
def expire : State := s.eraseWhere fun slot => decide (slot.expires ≤ s.now)

/-- The grant the caller refers to. -/
def savedGrant (pid session : Nat) (grant : Token) : SessionSlot :=
  match s.lastSlot fun slot =>
    slot.pid == pid && slot.authorized && slot.session == session && slot.grant == grant with
  | some i => s.slots i
  | none => .erased

def ownSlot (pid : Nat) : Option (Fin 32) :=
  match s.lastSlot fun slot => slot.pid == pid with
  | some i => some i
  | none => s.firstSlot fun slot => slot.pid == 0

def begin (caller : Caller) (request : XAuthBegin) (env : Environment) :
    State × Except Errno SessionSlot :=
  match request.operation, request.username with
  | some operation, some username =>
    if request.size ≠ 112 ∨ request.version ≠ xauthVersion ∨ request.reserved ≠ 0 then
      (s, .error .einval)
    else match s.callerSession caller with
      | none => (s, .error .eacces)
      | some (user, session) =>
        let name := if operation.self then user else username
        if operation.self = true ∧ user = "" then (s, .error .eacces)
        else if validName name = false then (s, .error .einval)
        else if operation.self = false ∧ user ≠ "" ∧ name ≠ user then (s, .error .eacces)
        else if operation ≠ .changePassword ∧ s.now < s.retryAfter then (s, .error .eagain)
        else
          let s := s.expire
          let saved := s.savedGrant caller.pid session request.grant
          if operation = .changePassword ∧ saved.authorized = false then (s, .error .eacces)
          else match s.ownSlot caller.pid, env.publicKey, env.random with
            | none, _, _ => (s, .error .eagain)
            | some _, some error, _ => (s, .error error)
            | some _, none, some error => (s, .error error)
            | some i, none, none =>
              let slot : SessionSlot :=
                { pid := caller.pid, session := session, id := s.nextChallenge
                  expires := s.now + env.elapsed + challengeLifetime
                  revision := saved.revision, operation := operation, challenge := true
                  authorized := false, username := name, nonce := env.token
                  grant := if saved.authorized then saved.grant else 0 }
              ({ s.setSlot i slot with
                  now := s.now + env.elapsed, nextChallenge := s.nextChallenge + 1 },
                .ok slot)
  | _, _ => (s, .error .einval)

end

/-- How a finish ended, with what it did on the way. -/
structure Finish where
  consumed : Option SessionSlot
  /-- The session of the caller at the call. -/
  session : Nat
  accepted : Bool
  /-- The stored credential of the account was replaced. -/
  revised : Bool
  result : Option Errno

/-- The answer fits the challenge. -/
def answers (plain : XAuthPlaintext) (saved : SessionSlot) : Bool :=
  plain.version == xauthVersion && plain.operation == some saved.operation &&
    plain.id == saved.id && plain.nonce == saved.nonce && plain.username == some saved.username &&
    plain.grant == saved.grant &&
    passwordValid plain.password (saved.operation == .login || saved.operation == .verifyPassword)

variable (s : State)

section

variable (saved : SessionSlot)

def finishVerify (account : Account) (password : String)
    (env : Environment) : State × Option Errno :=
  match s.checkPassword (some account) password env with
  | (s, some error) => (s, some error)
  | (s, none) =>
    match env.random with
    | some error => (s, some error)
    | none =>
      match s.firstSlot fun slot => slot.pid == 0 with
      | none => (s, none)
      | some i =>
        let granted : SessionSlot :=
          { saved with
            challenge := false
            authorized := true
            revision := account.revision
            expires := s.now + env.elapsed + challengeLifetime
            grant := env.token }
        ({ s.setSlot i granted with now := s.now + env.elapsed }, none)

/-- The result also says whether the stored credential was replaced. -/
def finishChange (account : Account) (password : String)
    (env : Environment) : State × Bool × Option Errno :=
  if account.revision ≠ saved.revision ∨ s.database.generation = counterMax ∨
      account.revision = counterMax then
    (s, false, some .estale)
  else
    let account := { account with revision := account.revision + 1, password := password }
    let changed := { s with database := s.database.setAccount account }
    match env.random, env.hash, env.save with
    | some error, _, _ => (s, false, some error)
    | none, some error, _ => (s, false, some error)
    | none, none, some error => (if env.stored then changed else s, env.stored, some error)
    | none, none, none =>
      (changed.eraseWhere fun slot => slot.username == saved.username, true, none)

/-- What follows once the challenge and the answer fit. -/
def finishOperation (password : String) (env : Environment) : State × Bool × Option Errno :=
  let activated := fun (out : State × Except Errno UserInfo) =>
    match out with
    | (s, .error error) => (s, false, some error)
    | (s, .ok _) => (s, false, env.activate)
  match saved.operation with
  | .login => activated (s.login saved.username (some password) env)
  | .createFirst => activated (s.createFirst saved.username (some password) env)
  | .verifyPassword =>
    match env.load, s.database.findAccount saved.username with
    | some error, _ => (s, false, some error)
    | none, none => (s, false, some .eacces)
    | none, some account =>
      let (s, error) := s.finishVerify saved account password env
      (s, false, error)
  | .changePassword =>
    match env.load, s.database.findAccount saved.username with
    | some error, _ => (s, false, some error)
    | none, none => (s, false, some .eacces)
    | none, some account => s.finishChange saved account password env

end

def finish (caller : Caller) (request : XAuthRequest) (env : Environment) : State × Finish :=
  if request.size ≠ 400 ∨ request.version ≠ xauthVersion then
    (s, ⟨none, 0, false, false, some .einval⟩)
  else match s.callerSession caller with
    | none => (s, ⟨none, 0, false, false, some .eacces⟩)
    | some (_, session) =>
      match s.firstSlot fun slot =>
        slot.pid == caller.pid && slot.id == request.id && slot.challenge with
      | none => (s, ⟨none, session, false, false, some .eacces⟩)
      | some i =>
        let saved := s.slots i
        -- A challenge is used up even by an answer that does not decrypt.
        let s := s.setSlot i .erased
        if saved.session ≠ session ∨ saved.expires ≤ s.now then
          (s, ⟨some saved, session, false, false, some .eacces⟩)
        else match request.plaintext with
          | none => (s, ⟨some saved, session, false, false, some .eacces⟩)
          | some plain =>
            if answers plain saved then
              let (s, revised, error) := s.finishOperation saved (plain.password.getD "") env
              (s, ⟨some saved, session, true, revised, error⟩)
            else (s, ⟨some saved, session, false, false, some .eacces⟩)

def processExit (pid : Nat) : State := s.eraseWhere fun slot => slot.pid == pid

/-- The mutex was taken over from a thread that was killed in a call. -/
def resetAbandonedService : State := s.eraseWhere fun _ => true

end State

inductive Action
  | tick (elapsed : Nat)
  | publish (info : UserInfo)
  | setReady (ready : Bool)
  | login (username : String) (password : Option String) (env : Environment)
  | createFirst (username : String) (password : Option String) (env : Environment)
  | begin (caller : Caller) (request : XAuthBegin) (env : Environment)
  | finish (caller : Caller) (request : XAuthRequest) (env : Environment)
  | processExit (pid : Nat)
  | recovered

/-- What happened in a run; no function of the source reads it. -/
inductive Event
  | begun (id pid session : Nat) (operation : Operation) (expires : Nat)
  | consumed (id : Nat)
  /-- A finish took a challenge for valid, called at this time by this process in this
  session for this operation. -/
  | accepted (id pid session : Nat) (operation : Operation) (now : Nat)
  /-- A finish that verifies a password returned zero. -/
  | verified (pid session : Nat) (account : String)
  /-- A finish that changes a password returned zero. -/
  | changed (pid session : Nat) (account : String)
  /-- The credential was replaced in the store although the call failed. -/
  | revised (account : String)
  | exited (pid : Nat)
  deriving DecidableEq

/-- The credential revision of an account changed. -/
def Event.Revises (account : String) : Event → Prop
  | .changed _ _ name => name = account
  | .revised name => name = account
  | _ => False

structure System where
  state : State
  /-- The oldest event first. -/
  history : List Event

/-- The service at boot, with whatever is stored. -/
def System.initial (now : Nat) (session : Session) (database : Database) : System where
  state :=
    { now := now, session := session, database := database, slots := fun _ => .erased
      nextChallenge := 1, retryAfter := 0, failedAttempts := 0 }
  history := []

/-- What an accepted operation adds to the history. -/
def operationEvents (operation : Operation) (pid session : Nat) (account : String)
    (revised : Bool) (result : Option Errno) : List Event :=
  match operation, result with
  | .verifyPassword, none => [.verified pid session account]
  | .changePassword, none => [.changed pid session account]
  | _, _ => if revised then [.revised account] else []

/-- What a finish adds to the history. -/
def finishEvents (caller : Caller) (now : Nat) (request : XAuthRequest) (out : State.Finish) :
    List Event :=
  match out.consumed with
  | none => []
  | some saved =>
    [.consumed request.id] ++ (if out.accepted then
        match request.plaintext.bind XAuthPlaintext.operation with
        | none => []
        | some operation =>
          [.accepted request.id caller.pid out.session operation now] ++
            operationEvents operation caller.pid out.session saved.username out.revised out.result
      else [])

def System.step (sys : System) : Action → System
  | .tick elapsed => { sys with state := { sys.state with now := sys.state.now + elapsed } }
  | .publish info =>
    { sys with state := { sys.state with session :=
      { sys.state.session with
        currentUser := some info, generation := sys.state.session.generation + 1 } } }
  | .setReady ready =>
    { sys with state := { sys.state with session := { sys.state.session with ready := ready } } }
  | .login username password env =>
    { sys with state := (sys.state.login username password env).1 }
  | .createFirst username password env =>
    { sys with state := (sys.state.createFirst username password env).1 }
  | .begin caller request env =>
    match sys.state.begin caller request env with
    | (s, .error _) => { sys with state := s }
    | (s, .ok slot) =>
      ⟨s, sys.history ++ [.begun slot.id slot.pid slot.session slot.operation slot.expires]⟩
  | .finish caller request env =>
    let (s, out) := sys.state.finish caller request env
    ⟨s, sys.history ++ finishEvents caller sys.state.now request out⟩
  | .processExit pid => ⟨sys.state.processExit pid, sys.history ++ [.exited pid]⟩
  | .recovered => { sys with state := sys.state.resetAbandonedService }

end OpenXJ380.User.Auth
