/-
# Permission prompts

`src/kernel/user/permissions.cpp` holds the logged-in session, what every process may do
and a first-in first-out queue of requests for more. A trusted display picks up the
prompt of the head of the queue and answers it by its token. One lock protects all of
this, so every section under the lock is one step here.

A thread enters a request in one section and polls it in later ones. The revision of
the process that a request carries was read before the lock was taken, so it is an
argument. Requests for special permissions use the same queue; what is saved for them
lives elsewhere and comes in as an argument too.

`System` adds what happened so far to the state. No function of the source reads it.
-/

import OpenXJ380.Kernel.Errno
import OpenXJ380.User.Rights

namespace OpenXJ380.User

/-- What the queue wants to know of a process or thread: whether it has ended. -/
inductive Status
  | alive | zombie | out | death
  deriving DecidableEq

structure Process where
  permissionUser : UserInfo
  permissionRevision : Nat
  status : Status

structure PermissionPrompt where
  token : Nat
  pid : Nat
  user : String
  currentType : UserType
  targetType : UserType
  current : UInt8
  requested : UInt8
  asking : UInt8
  individual : Bool
  specialId : Nat
  deriving DecidableEq

structure PermissionRequest where
  id : Nat
  owner : Nat
  process : Nat
  prompt : PermissionPrompt
  session : Nat
  revision : Nat
  remaining : UInt8
  done : Bool
  roleConfirmation : Bool
  roleApproved : Bool
  specialReady : Bool
  specialAnswered : Bool
  specialResult : Option Errno
  specialPath : String

inductive ProcessCredentialSource
  | session | visitor | inherit
  deriving DecidableEq

structure State where
  currentUser : Option UserInfo
  ready : Bool
  sessionGeneration : Nat
  rootUser : UserInfo
  kernelGroup : Nat
  nextToken : Nat
  nextRequest : Nat
  backendAvailable : Bool
  processes : Nat → Process
  threads : Nat → Status
  requests : List PermissionRequest

namespace State

section

variable (s : State)

def publish (info : UserInfo) : State :=
  { s with currentUser := some info, sessionGeneration := s.sessionGeneration + 1 }

/-- The account that is logged in, once its session is ready. -/
def sessionUser : Option UserInfo := if s.ready then s.currentUser else none

def sessionType : UserType :=
  match s.sessionUser with
  | some user => user.userType
  | none => .admin

def sessionMask : UInt8 :=
  match s.sessionUser with
  | some user => maskOf user
  | none => userTypePermissionMask .admin

variable (p : Nat)

def setProcess (process : Process) : State :=
  { s with processes := Function.update s.processes p process }

def launchUser (parent : Option Nat) (source : ProcessCredentialSource) : UserInfo :=
  let inherited := parent.filter fun group => source = .inherit && group != s.kernelGroup
  match inherited with
  | some group => (s.processes group).permissionUser
  | none =>
    let user := s.sessionUser.getD s.rootUser
    let userType :=
      if source = .visitor then .visitor
      else if s.ready = false then .admin
      else user.userType
    let user := { user with userType := userType }
    if userType = .custom then user
    else { user with userPrms := userPermissionsFromMask (maskOf user) }

def processInit (parent : Option Nat) (source : ProcessCredentialSource) : State :=
  s.setProcess p ⟨s.launchUser parent source, 1, .alive⟩

def processExec : State :=
  s.setProcess p { s.processes p with permissionRevision := (s.processes p).permissionRevision + 1 }

end

def valid (s : State) (r : PermissionRequest) : Bool := r.session == s.sessionGeneration &&
    r.revision == (s.processes r.process).permissionRevision &&
    (s.processes r.process).status == .alive &&
    s.threads r.owner != .death && s.threads r.owner != .out

/-- Of a request for single permissions one bit is asked at a time, the highest first. -/
def askingOf (individual : Bool) (remaining : UInt8) : UInt8 :=
  if individual then
    ([xpermR, xpermW, xpermCS, xpermNV, xpermSV, xpermSR, xpermSW].find? fun bit =>
      remaining &&& bit != 0).getD remaining
  else remaining

/-- The first request that can be shown, with the requests before it retired where they
lost their ground. It gets a token if it has none. -/
def scanRequests (s : State) (token : Nat) :
    List PermissionRequest → List PermissionRequest × Nat × Option PermissionRequest
  | [] => ([], token, none)
  | r :: rest =>
    let pass := fun r : PermissionRequest =>
      let (rest, token, found) := scanRequests s token rest
      (r :: rest, token, found)
    if r.done then pass r
    else if s.backendAvailable = false ∨ s.valid r = false then pass { r with done := true }
    else if r.prompt.specialId ≠ 0 then
      if s.sessionUser.map UserInfo.name ≠ some r.prompt.user then pass { r with done := true }
      -- The head stays reserved while an earlier answer is being saved.
      else if r.specialReady = false ∨ r.specialAnswered = true then (r :: rest, token, none)
      else if r.prompt.token = 0 then
        let r := { r with prompt := { r.prompt with token := token } }
        (r :: rest, token + 1, some r)
      else (r :: rest, token, some r)
    else
      let user := (s.processes r.process).permissionUser
      let r := { r with remaining := r.remaining &&& ~~~(maskOf user) &&& s.sessionMask }
      if r.remaining = 0 ∧ r.roleConfirmation = false then pass { r with done := true }
      else if r.prompt.token = 0 then
        let r := { r with
          prompt := { r.prompt with
            token := token
            current := maskOf user
            currentType := user.userType
            asking := askingOf r.prompt.individual r.remaining } }
        (r :: rest, token + 1, some r)
      else (r :: rest, token, some r)

def first (s : State) : State × Option PermissionRequest :=
  let (requests, token, found) := s.scanRequests s.nextToken s.requests
  ({ s with requests := requests, nextToken := token }, found)

def prompt (s : State) : State × Option PermissionPrompt :=
  (s.first.1, s.first.2.map PermissionRequest.prompt)

section

variable (s : State)

def setRequest (r : PermissionRequest) : State :=
  { s with requests := s.requests.map fun other => if other.id = r.id then r else other }

/-- What an approved prompt makes of the user of its process. -/
def grant (r : PermissionRequest) (user : UserInfo) : UserInfo :=
  let granted := r.prompt.asking &&& s.sessionMask
  let prms := userPermissionsFromMask (maskOf user ||| granted)
  -- A named elevation may keep extra rights from earlier grants.
  let userType :=
    if r.prompt.individual = false ∧
        userPermissionMask prms = userTypePermissionMask r.prompt.targetType then
      r.prompt.targetType
    else .custom
  { user with userPrms := prms, userType := userType }

def answer (token : Nat) (approved : Bool) : State :=
  match s.first with
  | (s, none) => s
  | (s, some r) =>
    if r.prompt.token ≠ token then s
    else if r.prompt.specialId ≠ 0 then
      s.setRequest { r with
        specialAnswered := true
        roleApproved := approved
        prompt := { r.prompt with token := 0 } }
    else
      let process := s.processes r.process
      let granted :=
        if approved then
          s.setProcess r.process { process with permissionUser := s.grant r process.permissionUser }
        else s
      let remaining := r.remaining &&& ~~~r.prompt.asking
      granted.setRequest { r with
        roleApproved := r.roleApproved || approved
        roleConfirmation := false
        remaining := remaining
        prompt := { r.prompt with token := 0 }
        done := r.done || remaining == 0 }

def setBackend (available : Bool) : State :=
  { s with
    backendAvailable := available
    requests :=
      if available then s.requests else s.requests.map fun r => { r with done := true } }

def unlink (id : Nat) : State :=
  { s with requests := s.requests.filter fun r => r.id != id }

def threadExit (task : Nat) : State :=
  { s with requests := s.requests.filter fun r => r.owner != task }

end

/-- How a call leaves a section: with its result, or waiting in the queue. -/
inductive Outcome
  | refused (error : Errno)
  /-- The call returns the permissions that are still missing; zero is success. -/
  | missing (mask : UInt8)
  | queued

section

variable (s : State)

/-- Give a process another type and permissions at once; older requests of it lapse. -/
def replaceUser (p : Nat) (userType : UserType) (prms : UserPermission) : State :=
  let process := s.processes p
  s.setProcess p { process with
    permissionUser := { process.permissionUser with userType := userType, userPrms := prms }
    permissionRevision := process.permissionRevision + 1 }

def enqueue (r : PermissionRequest) : State :=
  { s with nextRequest := s.nextRequest + 1, requests := s.requests ++ [r] }

section

variable (task p : Nat)

/-- A thread asks for a type (`individual` is false) or for single permissions. -/
def requestPermissions (target : UInt8) (userType : UserType)
    (individual : Bool) (revision : Nat) : State × Outcome :=
  let process := s.processes p
  let user := process.permissionUser
  let current := maskOf user
  let missing := target &&& ~~~current
  let remaining := missing &&& s.sessionMask
  let roleConfirmation := !individual && user.userType != .custom &&
    decide (userType.rank < user.userType.rank) && missing == 0
  if revision ≠ process.permissionRevision then (s, .refused .eagain)
  else if individual = false ∧ userType = .custom then
    (s.replaceUser p .custom (userPermissionsFromMask current), .missing 0)
  -- Only a lift to a lower or equal type replaces; single requests never clamp.
  else if individual = false ∧ userType ≠ .custom ∧
      ((user.userType ≠ .custom ∧ user.userType.rank ≤ userType.rank) ∨
        (user.userType = .custom ∧ missing = 0)) then
    (s.replaceUser p userType (userPermissionsFromMask target), .missing 0)
  else if individual = false ∧ user.userType ≠ .custom ∧ s.sessionType ≠ .custom ∧
      userType.rank < s.sessionType.rank then
    (s, if missing ≠ 0 then .missing missing else .refused .eacces)
  -- Equal permissions do not bypass the ceiling of the named grade.
  else if roleConfirmation = true ∧ s.sessionType ≠ .custom ∧
      userType.rank < s.sessionType.rank then
    (s, .refused .eacces)
  else if (remaining = 0 ∧ roleConfirmation = false) ∨ s.backendAvailable = false then
    (s, if roleConfirmation then .refused .eacces else .missing missing)
  else
    let prompt : PermissionPrompt :=
      { token := 0, pid := p, user := user.name, currentType := .root, targetType := userType
        current := 0, requested := target, asking := 0, individual := individual, specialId := 0 }
    let r : PermissionRequest :=
      { id := s.nextRequest, owner := task, process := p, prompt := prompt
        session := s.sessionGeneration, revision := revision, remaining := remaining
        done := false, roleConfirmation := roleConfirmation, roleApproved := false
        specialReady := false, specialAnswered := false, specialResult := none
        specialPath := "" }
    (s.enqueue r, .queued)

def lift (userType : UserType) (revision : Nat) : State × Outcome :=
  s.requestPermissions task p (userTypePermissionMask userType) userType false revision

def request (requested : UInt8) (revision : Nat) : State × Outcome :=
  if requested &&& ~~~xpermAll ≠ 0 then (s, .refused .einval)
  else s.requestPermissions task p requested .custom true revision

end

/-- What a call returns when its request is done. -/
def result (r : PermissionRequest) : Outcome :=
  if r.prompt.specialId ≠ 0 then
    match r.specialResult with
    | none => .missing 0
    | some error => .refused error
  else
    let user := (s.processes r.process).permissionUser
    let failed := r.prompt.requested &&& ~~~(maskOf user)
    if r.prompt.individual = false ∧ failed = 0 ∧ r.roleApproved = false ∧
        user.userType ≠ r.prompt.targetType then
      .refused .eacces
    else .missing failed

/-- A later section of a waiting call: it returns once its request is done. -/
def poll (id : Nat) : State × Outcome :=
  let s := s.first.1
  match s.requests.find? fun r => r.id == id && r.done with
  | some r => (s.unlink id, s.result r)
  | none => (s, .queued)

end

/-- What a call read of its process before it publishes its request. -/
structure SpecialCall where
  task : Nat
  process : Nat
  specialId : Nat
  user : String
  currentType : UserType
  path : String
  session : Nat
  revision : Nat

def requestSpecial (s : State) (call : SpecialCall) : State × Outcome :=
  let prompt : PermissionPrompt :=
    { token := 0, pid := call.process, user := call.user, currentType := call.currentType
      targetType := call.currentType, current := 0, requested := 0, asking := 0
      individual := false, specialId := call.specialId }
  let r : PermissionRequest :=
    { id := s.nextRequest, owner := call.task, process := call.process, prompt := prompt
      session := call.session, revision := call.revision, remaining := 0, done := false
      roleConfirmation := false, roleApproved := false, specialReady := false
      specialAnswered := false, specialResult := some .estale, specialPath := call.path }
  if call.specialId < 1 ∨ 3 < call.specialId then (s, .refused .einval)
  else if s.backendAvailable = false ∨ s.valid r = false ∨
      s.sessionUser.map UserInfo.name ≠ some call.user then (s, .refused .eacces)
  else (s.enqueue r, .queued)

/-- A decision that was saved meanwhile ends the request; else it may be shown. -/
def specialReady (s : State) (id : Nat) (saved : Option (Option Errno)) : State :=
  { s with requests := s.requests.map fun r =>
      if r.id ≠ id then r
      else match saved with
        | some result => { r with done := true, specialResult := result, specialReady := true }
        | none => { r with specialReady := true } }

/-- After an answer was saved, every request for the same decision gets its result. -/
def specialSaved (s : State) (id : Nat) (result : Option Errno) : State :=
  match s.requests.find? fun r => r.id == id with
  | none => s
  | some r =>
    { s with requests := s.requests.map fun waiter =>
        if r.prompt.specialId ≠ 0 ∧ waiter.prompt.specialId = r.prompt.specialId ∧
            waiter.session = r.session ∧ waiter.prompt.user = r.prompt.user ∧
            waiter.specialPath = r.specialPath then
          { waiter with
            specialResult := if s.valid waiter then result else some .estale
            done := true
            prompt := { waiter.prompt with token := 0 } }
        else waiter }

end State

inductive Action
  | publish (info : UserInfo)
  | setReady (ready : Bool)
  | processInit (p : Nat) (parent : Option Nat) (source : ProcessCredentialSource)
  | processExec (p : Nat)
  | lift (task p : Nat) (userType : UserType) (revision : Nat)
  | request (task p : Nat) (requested : UInt8) (revision : Nat)
  | poll (id : Nat)
  | prompt
  | answer (token : Nat) (approved : Bool)
  | setBackend (available : Bool)
  | threadExit (task : Nat)
  | requestSpecial (call : State.SpecialCall)
  | specialReady (id : Nat) (saved : Option (Option Errno))
  | specialSaved (id : Nat) (result : Option Errno)
  | processStatus (p : Nat) (status : Status)
  | threadStatus (task : Nat) (status : Status)

/-- What happened in a run, as far as a later grant depends on it. -/
inductive Event
  | published
  | initialised (p : Nat)
  | executed (p : Nat)
  | entered (id p : Nat)
  | shown (prompt : PermissionPrompt)
  deriving DecidableEq

structure System where
  state : State
  /-- The newest event first. -/
  history : List Event

namespace System

variable (sys : System)

/-- Record a request that a section has put into the queue. -/
def enter (p : Nat) : State × State.Outcome → System
  | (s, .queued) => ⟨s, .entered sys.state.nextRequest p :: sys.history⟩
  | (s, _) => ⟨s, sys.history⟩

def step : Action → System
  | .publish info => ⟨sys.state.publish info, .published :: sys.history⟩
  | .setReady ready => { sys with state := { sys.state with ready := ready } }
  | .processInit p parent source =>
    -- The record is new: no request names it before it is set up.
    if sys.state.requests.any fun r => r.process == p then sys
    else ⟨sys.state.processInit p parent source, .initialised p :: sys.history⟩
  | .processExec p => ⟨sys.state.processExec p, .executed p :: sys.history⟩
  | .lift task p userType revision => sys.enter p (sys.state.lift task p userType revision)
  | .request task p requested revision => sys.enter p (sys.state.request task p requested revision)
  | .poll id => { sys with state := (sys.state.poll id).1 }
  | .prompt =>
    match sys.state.prompt with
    | (s, some prompt) => ⟨s, .shown prompt :: sys.history⟩
    | (s, none) => ⟨s, sys.history⟩
  | .answer token approved => { sys with state := sys.state.answer token approved }
  | .setBackend available => { sys with state := sys.state.setBackend available }
  | .threadExit task => { sys with state := sys.state.threadExit task }
  | .requestSpecial call => sys.enter call.process (sys.state.requestSpecial call)
  | .specialReady id saved => { sys with state := sys.state.specialReady id saved }
  | .specialSaved id result => { sys with state := sys.state.specialSaved id result }
  | .processStatus p status =>
    { sys with state := sys.state.setProcess p { sys.state.processes p with status := status } }
  | .threadStatus task status =>
    { sys with state := { sys.state with
      threads := Function.update sys.state.threads task status } }

end System

end OpenXJ380.User
