/-
# The queue of permission requests

Every section that takes the permission lock scans the queue and may rewrite it: requests
lose their ground, get a token, are answered or dropped. This module says what such a
section can do to the queue, and carries one invariant through all of them: a token
stands for one prompt, and every request was entered by its process, with nothing
replaced since as long as the counters it carries are current.

The invariant is about runs in which the display answers only prompts that it was handed,
and in which a lift does not come round the comparison with the session's type.
-/

import OpenXJ380.User.Prompt

namespace OpenXJ380.User

open List

/-- The part of a request that no section changes. -/
structure Kept (r r' : PermissionRequest) : Prop where
  id : r'.id = r.id
  owner : r'.owner = r.owner
  process : r'.process = r.process
  session : r'.session = r.session
  revision : r'.revision = r.revision
  pid : r'.prompt.pid = r.prompt.pid
  specialId : r'.prompt.specialId = r.prompt.specialId
  individual : r'.prompt.individual = r.prompt.individual
  targetType : r'.prompt.targetType = r.prompt.targetType
  done : r'.done = false → r.done = false

theorem Kept.refl (r : PermissionRequest) : Kept r r := by constructor <;> simp

variable {r r' : PermissionRequest} {s s' : State} {made : Option PermissionPrompt} {p : Nat}
  {sys : System}

theorem Kept.trans {r'' : PermissionRequest} (first : Kept r r') (second : Kept r' r'') :
    Kept r r'' := by
  constructor
  · exact second.id.trans first.id
  · exact second.owner.trans first.owner
  · exact second.process.trans first.process
  · exact second.session.trans first.session
  · exact second.revision.trans first.revision
  · exact second.pid.trans first.pid
  · exact second.specialId.trans first.specialId
  · exact second.individual.trans first.individual
  · exact second.targetType.trans first.targetType
  · exact fun hlive => first.done (second.done hlive)

theorem Kept.valid (kept : Kept r r') (s : State) : s.valid r' = s.valid r := by
  simp only [State.valid, kept.session, kept.revision, kept.process, kept.owner]

/-- The ways a scan can go: the old queue, the new one, the next token and the request
it stops at. -/
inductive Scanned (s : State) (token : Nat) :
    List PermissionRequest → List PermissionRequest → Nat → Option PermissionRequest → Prop
  | nil : Scanned s token [] [] token none
  | pass {r r' : PermissionRequest} {rest rest' : List PermissionRequest} {next : Nat}
      {found : Option PermissionRequest} (kept : Kept r r') (prompt : r'.prompt = r.prompt)
      (later : Scanned s token rest rest' next found) :
      Scanned s token (r :: rest) (r' :: rest') next found
  | wait {r : PermissionRequest} {rest : List PermissionRequest} :
      Scanned s token (r :: rest) (r :: rest) token none
  | again {r r' : PermissionRequest} {rest : List PermissionRequest} (kept : Kept r r')
      (prompt : r'.prompt = r.prompt) (live : r'.done = false) (valid : s.valid r = true)
      (issued : r.prompt.token ≠ 0) :
      Scanned s token (r :: rest) (r' :: rest) token (some r')
  | fresh {r r' : PermissionRequest} {rest : List PermissionRequest} (kept : Kept r r')
      (live : r'.done = false) (valid : s.valid r = true) (issued : r'.prompt.token = token) :
      Scanned s token (r :: rest) (r' :: rest) (token + 1) (some r')

theorem scanned_scanRequests (s : State) (token : Nat) (requests : List PermissionRequest) :
    Scanned s token requests (s.scanRequests token requests).1
      (s.scanRequests token requests).2.1 (s.scanRequests token requests).2.2 := by
  induction requests with
  | nil => exact .nil
  | cons r rest ih =>
    rw [State.scanRequests]
    dsimp only
    split
    next => exact .pass (.refl r) rfl ih
    next hdone =>
    rw [Bool.not_eq_true] at hdone
    split
    next => exact .pass (by constructor <;> simp) rfl ih
    next hlive =>
    have hvalid : s.valid r = true := by simpa using (not_or.mp hlive).2
    split
    next =>
      split
      next => exact .pass (by constructor <;> simp) rfl ih
      next =>
      split
      next => exact .wait
      next =>
      split
      next => exact .fresh (by constructor <;> simp) hdone hvalid rfl
      next htoken => exact .again (.refl r) rfl hdone hvalid htoken
    next =>
      split
      next => exact .pass (by constructor <;> simp) rfl ih
      next =>
      split
      next => exact .fresh (by constructor <;> simp) hdone hvalid rfl
      next htoken => exact .again (by constructor <;> simp) rfl hdone hvalid htoken

variable {token next : Nat} {old new requests : List PermissionRequest}
  {history events : List Event}

theorem Scanned.found (h : Scanned s token old new next (some r)) (hpos : 0 < token) :
    r ∈ new ∧ r.prompt.token ≠ 0 ∧ s.valid r = true ∧ r.done = false := by
  generalize hfound : some r = found at h
  induction h with
  | nil => cases hfound
  | wait => cases hfound
  | pass kept prompt later ih =>
    obtain ⟨hmem, hrest⟩ := ih hfound
    exact ⟨mem_cons_of_mem _ hmem, hrest⟩
  | again kept prompt live valid issued =>
    cases hfound
    exact ⟨mem_cons_self, prompt ▸ issued, (kept.valid s).trans valid, live⟩
  | fresh kept live valid issued =>
    cases hfound
    exact ⟨mem_cons_self, by omega, (kept.valid s).trans valid, live⟩

/-- A section replaced the queue: every request comes from one that was there, with its
prompt, with the token taken back, or with the one prompt that was made new. -/
structure Requeued (s s' : State) (made : Option PermissionPrompt) : Prop where
  token : s.nextToken ≤ s'.nextToken
  issued : ∀ prompt ∈ made, prompt.token = s.nextToken ∧ s.nextToken < s'.nextToken
  kept : ∀ r' ∈ s'.requests, ∃ r ∈ s.requests, Kept r r' ∧
    (r'.prompt = r.prompt ∨ r'.prompt.token = 0 ∨ r'.prompt ∈ made)

theorem Scanned.requeued {found : Option PermissionRequest}
    (h : Scanned s token old new next found) :
    ∃ made : Option PermissionPrompt, token ≤ next ∧
      (∀ prompt ∈ made, prompt.token = token ∧ token < next) ∧
      ∀ r' ∈ new, ∃ r ∈ old, Kept r r' ∧ (r'.prompt = r.prompt ∨ r'.prompt ∈ made) := by
  induction h with
  | nil => exact ⟨none, le_rfl, by simp, by simp⟩
  | wait => exact ⟨none, le_rfl, by simp, fun r' hr' => ⟨r', hr', .refl r', .inl rfl⟩⟩
  | pass kept prompt later ih =>
    obtain ⟨made, hle, hmade, hkept⟩ := ih
    refine ⟨made, hle, hmade, ?_⟩
    intro r' hr'
    rcases mem_cons.mp hr' with rfl | hr'
    · exact ⟨_, mem_cons_self, kept, .inl prompt⟩
    · obtain ⟨r, hr, hrest⟩ := hkept r' hr'
      exact ⟨r, mem_cons_of_mem _ hr, hrest⟩
  | again kept prompt live valid issued =>
    refine ⟨none, le_rfl, by simp, ?_⟩
    intro r' hr'
    rcases mem_cons.mp hr' with rfl | hr'
    · exact ⟨_, mem_cons_self, kept, .inl prompt⟩
    · exact ⟨r', mem_cons_of_mem _ hr', .refl r', .inl rfl⟩
  | @fresh _ stopped _ kept live valid issued =>
    refine ⟨some stopped.prompt, Nat.le_succ _, ?_, ?_⟩
    · intro prompt hprompt
      cases hprompt
      exact ⟨issued, Nat.lt_succ_self _⟩
    · intro r' hr'
      rcases mem_cons.mp hr' with rfl | hr'
      · exact ⟨_, mem_cons_self, kept, .inr rfl⟩
      · exact ⟨r', mem_cons_of_mem _ hr', .refl r', .inl rfl⟩

theorem first_requeued (s : State) : ∃ made, Requeued s s.first.1 made := by
  obtain ⟨made, hle, hmade, hkept⟩ := (scanned_scanRequests s s.nextToken s.requests).requeued
  refine ⟨made, hle, hmade, ?_⟩
  intro r' hr'
  obtain ⟨r, hr, hsame, hprompt⟩ := hkept r' hr'
  exact ⟨r, hr, hsame, hprompt.imp id .inr⟩

theorem first_found (hpos : 0 < s.nextToken) (hfound : s.first.2 = some r) :
    r ∈ s.first.1.requests ∧ r.prompt.token ≠ 0 ∧ s.valid r = true ∧ r.done = false := by
  have hscan := scanned_scanRequests s s.nextToken s.requests
  rw [show (s.scanRequests s.nextToken s.requests).2.2 = some r from hfound] at hscan
  exact hscan.found hpos

/-- What a section may still do to the requests after its scan. -/
theorem Requeued.then {s'' : State} (h : Requeued s s' made) (token : s''.nextToken = s'.nextToken)
    (kept : ∀ r'' ∈ s''.requests, ∃ r' ∈ s'.requests, Kept r' r'' ∧
      (r''.prompt = r'.prompt ∨ r''.prompt.token = 0)) : Requeued s s'' made := by
  refine ⟨token ▸ h.token, token ▸ h.issued, ?_⟩
  intro r'' hr''
  obtain ⟨r', hr', hsame', hprompt'⟩ := kept r'' hr''
  obtain ⟨r, hr, hsame, hprompt⟩ := h.kept r' hr'
  refine ⟨r, hr, hsame.trans hsame', ?_⟩
  rcases hprompt' with heq | hzero
  · rwa [heq]
  · exact .inr (.inl hzero)

theorem Requeued.refl (s : State) : Requeued s s none :=
  ⟨le_rfl, by simp, fun r hr => ⟨r, hr, .refl r, .inl rfl⟩⟩

/-- A request for a type that waits for its answer. -/
def PermissionRequest.Lifts (r : PermissionRequest) : Prop :=
  r.done = false ∧ r.prompt.specialId = 0 ∧ r.prompt.individual = false

/-- A request was entered by its process, and as long as the counters it carries are
current, the session and the image are those it was entered under, and the type it asks for
is not above the session's. -/
def Asked (s : State) (history : List Event) (r : PermissionRequest) : Prop :=
  ∃ later earlier, history = later ++ .entered r.id r.process :: earlier ∧
    (r.session ≤ s.sessionGeneration ∧ (r.session = s.sessionGeneration → .published ∉ later ∧
        (r.Lifts → s.sessionType.rank ≤ r.prompt.targetType.rank))) ∧
    (r.revision ≤ (s.processes r.process).permissionRevision ∧
      (r.revision = (s.processes r.process).permissionRevision → .executed r.process ∉ later)) ∧
    .initialised r.process ∉ later

theorem Asked.kept (h : Asked s history r) (kept : Kept r r') : Asked s history r' := by
  have hlifts : r'.Lifts → r.Lifts := by
    rintro ⟨hlive, hspecial, hindividual⟩
    exact ⟨kept.done hlive, kept.specialId ▸ hspecial, kept.individual ▸ hindividual⟩
  unfold Asked at h ⊢
  rw [kept.id, kept.process, kept.session, kept.revision, kept.targetType]
  obtain ⟨later, earlier, heq, ⟨hsession, hcurrent⟩, hrest⟩ := h
  exact ⟨later, earlier, heq,
    ⟨hsession, fun hsame => (hcurrent hsame).imp_right fun hrank hlift => hrank (hlifts hlift)⟩, hrest⟩

/-- What a step must not do behind the back of a request. -/
structure Advances (s s' : State) (events : List Event) (r : PermissionRequest) : Prop where
  generation : s.sessionGeneration ≤ s'.sessionGeneration
  published : .published ∈ events → s.sessionGeneration < s'.sessionGeneration
  ceiling : s'.sessionGeneration = s.sessionGeneration → r.session = s.sessionGeneration → r.Lifts →
    s.sessionType.rank ≤ r.prompt.targetType.rank → s'.sessionType.rank ≤ r.prompt.targetType.rank
  revision : (s.processes r.process).permissionRevision ≤ (s'.processes r.process).permissionRevision
  executed : .executed r.process ∈ events →
    (s.processes r.process).permissionRevision < (s'.processes r.process).permissionRevision
  initialised : .initialised r.process ∉ events

/-- Two states with the same session. -/
structure SameSession (s s' : State) : Prop where
  generation : s'.sessionGeneration = s.sessionGeneration
  ready : s'.ready = s.ready
  currentUser : s'.currentUser = s.currentUser

theorem SameSession.sessionType (h : SameSession s s') : s'.sessionType = s.sessionType := by
  simp only [State.sessionType, State.sessionUser, h.ready, h.currentUser]

/-- A step that touches neither the session nor the image. -/
theorem SameSession.advances (h : SameSession s s')
    (revision : (s.processes r.process).permissionRevision ≤ (s'.processes r.process).permissionRevision)
    (published : .published ∉ events) (executed : .executed r.process ∉ events)
    (initialised : .initialised r.process ∉ events) : Advances s s' events r where
  generation := h.generation.ge
  published := fun hmem => absurd hmem published
  ceiling := fun _ _ _ hrank => h.sessionType.symm ▸ hrank
  revision := revision
  executed := fun hmem => absurd hmem executed
  initialised := initialised

theorem Asked.advance (h : Asked s history r) (adv : Advances s s' events r) :
    Asked s' (events ++ history) r := by
  obtain ⟨later, earlier, rfl, ⟨hsession, hcurrent⟩, ⟨hrevision, himage⟩, hinit⟩ := h
  refine ⟨events ++ later, earlier, by rw [append_assoc],
    ⟨hsession.trans adv.generation, ?_⟩, ⟨hrevision.trans adv.revision, ?_⟩, ?_⟩
  · intro heq
    have hgeneration : s'.sessionGeneration = s.sessionGeneration :=
      le_antisymm (heq ▸ hsession) adv.generation
    obtain ⟨hpublished, hrank⟩ := hcurrent (heq.trans hgeneration)
    simp only [mem_append, not_or]
    refine ⟨⟨fun hmem => ?_, hpublished⟩, fun hlift => ?_⟩
    · exact (adv.published hmem).ne hgeneration.symm
    · exact adv.ceiling hgeneration (heq.trans hgeneration) hlift (hrank hlift)
  · intro heq
    have hsame : (s'.processes r.process).permissionRevision =
        (s.processes r.process).permissionRevision :=
      le_antisymm (heq ▸ hrevision) adv.revision
    simp only [mem_append, not_or]
    exact ⟨fun hmem => (adv.executed hmem).ne hsame.symm, himage (heq.trans hsame)⟩
  · simp only [mem_append, not_or]
    exact ⟨adv.initialised, hinit⟩

/-- A prompt that some request carries or that was handed out. -/
def System.Around (sys : System) (prompt : PermissionPrompt) : Prop :=
  (∃ r ∈ sys.state.requests, r.prompt = prompt) ∨ .shown prompt ∈ sys.history

structure Consistent (sys : System) : Prop where
  asked : ∀ r ∈ sys.state.requests, Asked sys.state sys.history r
  pid : ∀ r ∈ sys.state.requests, r.prompt.pid = r.process
  coherent : ∀ first second, sys.Around first → sys.Around second → first.token ≠ 0 →
    first.token = second.token → first = second
  bounded : ∀ prompt, sys.Around prompt → prompt.token < sys.state.nextToken
  positive : 0 < sys.state.nextToken

/-- A step that leaves the queue alone. -/
theorem Consistent.advance (events : List Event) (h : Consistent sys)
    (requests : s'.requests = sys.state.requests) (token : s'.nextToken = sys.state.nextToken)
    (shown : ∀ prompt, .shown prompt ∉ events)
    (adv : ∀ r ∈ sys.state.requests, Advances sys.state s' events r) :
    Consistent ⟨s', events ++ sys.history⟩ := by
  have haround : ∀ prompt, System.Around ⟨s', events ++ sys.history⟩ prompt → sys.Around prompt := by
    intro prompt hprompt
    rcases hprompt with hqueue | hshown
    · exact .inl (requests ▸ hqueue)
    · exact .inr ((mem_append.mp hshown).resolve_left (shown prompt))
  constructor
  · intro r hr
    exact (h.asked r (requests ▸ hr)).advance (adv r (requests ▸ hr))
  · exact requests ▸ h.pid
  · intro first second hfirst hsecond
    exact h.coherent first second (haround first hfirst) (haround second hsecond)
  · intro prompt hprompt
    exact token ▸ h.bounded prompt (haround prompt hprompt)
  · exact token ▸ h.positive

section

variable (h : Consistent sys)
include h

/-- A step that rewrites the queue without entering a request. -/
theorem Consistent.requeue (queue : Requeued sys.state s' made)
    (adv : ∀ r ∈ sys.state.requests, Advances sys.state s' [] r) :
    Consistent ⟨s', sys.history⟩ := by
  have horigin : ∀ prompt, System.Around ⟨s', sys.history⟩ prompt →
      sys.Around prompt ∨ prompt.token = 0 ∨ prompt ∈ made := by
    rintro prompt (⟨r', hr', rfl⟩ | hshown)
    · obtain ⟨r, hr, -, hsame | hother⟩ := queue.kept r' hr'
      · exact .inl (.inl ⟨r, hr, hsame.symm⟩)
      · exact .inr hother
    · exact .inl (.inr hshown)
  have hnew : ∀ old prompt, sys.Around old → prompt ∈ made → old.token ≠ prompt.token := by
    intro old prompt hold hprompt
    have hlt := h.bounded old hold
    have heq := (queue.issued prompt hprompt).1
    omega
  constructor
  · intro r' hr'
    obtain ⟨r, hr, hkept, -⟩ := queue.kept r' hr'
    exact ((h.asked r hr).advance (adv r hr)).kept hkept
  · intro r' hr'
    obtain ⟨r, hr, hkept, -⟩ := queue.kept r' hr'
    rw [hkept.pid, hkept.process, h.pid r hr]
  · intro first second hfirst hsecond hzero htoken
    rcases horigin first hfirst with hold | hfree | hmade
    · rcases horigin second hsecond with hold' | hfree' | hmade'
      · exact h.coherent first second hold hold' hzero htoken
      · exact absurd (htoken.trans hfree') hzero
      · exact absurd htoken (hnew first second hold hmade')
    · exact absurd hfree hzero
    · rcases horigin second hsecond with hold' | hfree' | hmade'
      · exact absurd htoken.symm (hnew second first hold' hmade)
      · exact absurd (htoken.trans hfree') hzero
      · exact Option.mem_unique hmade hmade'
  · intro prompt hprompt
    have hle := queue.token
    have hpos := h.positive
    show prompt.token < s'.nextToken
    rcases horigin prompt hprompt with hold | hfree | hmade
    · exact (h.bounded prompt hold).trans_le hle
    · omega
    · have hissued := queue.issued prompt hmade
      omega
  · exact h.positive.trans_le queue.token

theorem Consistent.enqueue (token : r.prompt.token = 0)
    (pid : r.prompt.pid = r.process) (id : r.id = sys.state.nextRequest)
    (session : r.session = sys.state.sessionGeneration)
    (revision : r.revision = (sys.state.processes r.process).permissionRevision)
    (ceiling : r.Lifts → sys.state.sessionType.rank ≤ r.prompt.targetType.rank) :
    Consistent (sys.enter r.process (sys.state.enqueue r, .queued)) := by
  have horigin : ∀ prompt, (sys.enter r.process (sys.state.enqueue r, .queued)).Around prompt →
      sys.Around prompt ∨ prompt.token = 0 := by
    rintro prompt (⟨r', hr', rfl⟩ | hshown)
    · rcases mem_append.mp hr' with hold | hnew
      · exact .inl (.inl ⟨r', hold, rfl⟩)
      · rw [mem_singleton.mp hnew]
        exact .inr token
    · exact .inl (.inr ((mem_cons.mp hshown).resolve_left (by simp)))
  constructor
  · intro r' hr'
    rcases mem_append.mp hr' with hold | hnew
    · have adv : Advances sys.state (sys.state.enqueue r)
          [.entered sys.state.nextRequest r.process] r' :=
        SameSession.advances ⟨rfl, rfl, rfl⟩ le_rfl (by simp) (by simp) (by simp)
      exact (h.asked r' hold).advance adv
    · rw [mem_singleton.mp hnew]
      refine ⟨[], sys.history, by rw [id]; rfl, ?_, ?_, by simp⟩
      · exact ⟨session.le, fun _ => ⟨by simp, ceiling⟩⟩
      · exact ⟨revision.le, fun _ => by simp⟩
  · intro r' hr'
    rcases mem_append.mp hr' with hold | hnew
    · exact h.pid r' hold
    · rw [mem_singleton.mp hnew, pid]
  · intro first second hfirst hsecond hzero htoken
    have hfirst := (horigin first hfirst).resolve_right hzero
    have hsecond := (horigin second hsecond).resolve_right (htoken ▸ hzero)
    exact h.coherent first second hfirst hsecond hzero htoken
  · intro prompt hprompt
    rcases horigin prompt hprompt with hold | hfree
    · exact h.bounded prompt hold
    · exact hfree ▸ h.positive
  · exact h.positive

/-- The display picks up the prompt of a request. -/
theorem Consistent.show (hr : r ∈ sys.state.requests) :
    Consistent ⟨sys.state, .shown r.prompt :: sys.history⟩ := by
  have haround : ∀ prompt, System.Around ⟨sys.state, .shown r.prompt :: sys.history⟩ prompt →
      sys.Around prompt := by
    rintro prompt (hqueue | hshown)
    · exact .inl hqueue
    · rcases mem_cons.mp hshown with heq | hold
      · cases heq
        exact .inl ⟨r, hr, rfl⟩
      · exact .inr hold
  constructor
  · intro r' hr'
    have adv : Advances sys.state sys.state [.shown r.prompt] r' :=
      SameSession.advances ⟨rfl, rfl, rfl⟩ le_rfl (by simp) (by simp) (by simp)
    exact (h.asked r' hr').advance adv
  · exact h.pid
  · intro first second hfirst hsecond
    exact h.coherent first second (haround first hfirst) (haround second hsecond)
  · exact fun prompt hprompt => h.bounded prompt (haround prompt hprompt)
  · exact h.positive

end

theorem requestPermissions_cases (s : State) (task p : Nat) (target : UInt8) (userType : UserType)
    (individual : Bool) (revision : Nat) :
    (∃ outcome ≠ .queued,
      s.requestPermissions task p target userType individual revision = (s, outcome)) ∨
    (individual = false ∧ userType = .custom ∧
      s.requestPermissions task p target userType individual revision = (s.replaceUser p .custom
          (userPermissionsFromMask (maskOf (s.processes p).permissionUser)), .missing 0)) ∨
    (individual = false ∧ userType ≠ .custom ∧
      (((s.processes p).permissionUser.userType ≠ .custom ∧
          (s.processes p).permissionUser.userType.rank ≤ userType.rank) ∨
        ((s.processes p).permissionUser.userType = .custom ∧
          Within target (maskOf (s.processes p).permissionUser))) ∧
      s.requestPermissions task p target userType individual revision =
        (s.replaceUser p userType (userPermissionsFromMask target), .missing 0)) ∨
    ∃ r, s.requestPermissions task p target userType individual revision = (s.enqueue r, .queued) ∧
      r.id = s.nextRequest ∧ r.process = p ∧ r.session = s.sessionGeneration ∧
      r.revision = (s.processes p).permissionRevision ∧ r.prompt.token = 0 ∧ r.prompt.pid = p ∧
      r.prompt.targetType = userType ∧ r.prompt.individual = individual ∧
      (individual = false → userType.rank < (s.processes p).permissionUser.userType.rank ∧
        ((s.processes p).permissionUser.userType ≠ .custom →
          s.sessionType = .custom ∨ s.sessionType.rank ≤ userType.rank)) := by
  rw [State.requestPermissions]
  split
  next => exact .inl ⟨_, by simp, rfl⟩
  next hrevision =>
  split
  next hcustom => exact .inr (.inl ⟨hcustom.1, hcustom.2, rfl⟩)
  next hnotCustom =>
  split
  next hlower => exact .inr (.inr (.inl ⟨hlower.1, hlower.2.1, hlower.2.2, rfl⟩))
  next hraised =>
  split
  next => exact .inl ⟨_, by split <;> simp, rfl⟩
  next hceiling =>
  split
  next => exact .inl ⟨_, by simp, rfl⟩
  next =>
  split
  next => exact .inl ⟨_, by split <;> simp, rfl⟩
  next =>
    refine .inr (.inr (.inr ⟨_, rfl, rfl, rfl, rfl, ?_, rfl, rfl, rfl, rfl, ?_⟩))
    · simpa using hrevision
    · refine fun hlift => ⟨?_, fun hnamed => ?_⟩
      · have htype : userType ≠ .custom := fun hcustom => hnotCustom ⟨hlift, hcustom⟩
        by_cases hcustom : (s.processes p).permissionUser.userType = .custom
        · rw [hcustom]
          exact rank_lt_custom htype
        · exact not_le.mp fun hle => hraised ⟨hlift, htype, .inl ⟨hcustom, hle⟩⟩
      by_cases hsession : s.sessionType = .custom
      · exact .inl hsession
      · exact .inr (not_lt.mp fun hlt => hceiling ⟨hlift, hnamed, hsession, hlt⟩)

theorem setRequest_kept (hr : r ∈ s.requests) (kept : Kept r r') (token : r'.prompt.token = 0) :
    ∀ x' ∈ (s.setRequest r').requests, ∃ x ∈ s.requests, Kept x x' ∧
      (x'.prompt = x.prompt ∨ x'.prompt.token = 0) := by
  intro x' hx'
  obtain ⟨x, hx, rfl⟩ := mem_map.mp hx'
  split
  · exact ⟨r, hr, kept, .inr token⟩
  · exact ⟨x, hx, .refl x, .inl rfl⟩

/-- What an answer can do: nothing beyond the scan, a mark on a special request, or a
decision about the request at the head. -/
theorem answer_cases (s : State) (token : Nat) (approved : Bool) :
    s.answer token approved = s.first.1 ∨
      ∃ r r', s.first.2 = some r ∧ r.prompt.token = token ∧ Kept r r' ∧ r'.prompt.token = 0 ∧
        (s.answer token approved = s.first.1.setRequest r' ∨
          (r.prompt.specialId = 0 ∧ approved = true ∧ s.answer token approved =
              (s.first.1.setProcess r.process
                { s.processes r.process with
                  permissionUser :=
                    s.grant r (s.processes r.process).permissionUser }).setRequest r')) := by
  rcases hfirst : s.first with ⟨scanned, found⟩
  have hscanned : scanned = s.first.1 := by rw [hfirst]
  cases found with
  | none => exact .inl (by rw [State.answer, hfirst])
  | some r =>
    rw [State.answer, hfirst]
    dsimp only
    split
    next => exact .inl rfl
    next htoken =>
    have htoken : r.prompt.token = token := by simpa using htoken
    split
    next =>
      refine .inr ⟨r, _, rfl, htoken, ?_, ?_, .inl rfl⟩
      · constructor <;> simp
      · rfl
    next hordinary =>
      have hordinary : r.prompt.specialId = 0 := by simpa using hordinary
      cases approved with
      | false =>
        refine .inr ⟨r, _, rfl, htoken, ?_, ?_, .inl rfl⟩
        · constructor <;> simp +contextual
        · rfl
      | true =>
        subst hscanned
        refine .inr ⟨r, _, rfl, htoken, ?_, ?_, .inr ⟨hordinary, rfl, rfl⟩⟩
        · constructor <;> simp +contextual
        · rfl

theorem answer_requeued (hpos : 0 < s.nextToken) (token : Nat) (approved : Bool) :
    ∃ made, Requeued s (s.answer token approved) made := by
  obtain ⟨made, hqueue⟩ := first_requeued s
  refine ⟨made, ?_⟩
  rcases answer_cases s token approved with heq | ⟨r, r', hfound, -, hkept, hzero, heq | ⟨-, -, heq⟩⟩
  · rwa [heq]
  all_goals
    rw [heq]
    exact hqueue.then rfl (setRequest_kept (first_found hpos hfound).1 hkept hzero)

theorem answer_sameSession (s : State) (token : Nat) (approved : Bool) :
    SameSession s (s.answer token approved) := by
  rcases answer_cases s token approved with heq | ⟨r, r', -, -, -, -, heq | ⟨-, -, heq⟩⟩ <;>
    rw [heq] <;> exact ⟨rfl, rfl, rfl⟩

theorem answer_revision (s : State) (token : Nat) (approved : Bool) (p : Nat) :
    ((s.answer token approved).processes p).permissionRevision =
      (s.processes p).permissionRevision := by
  rcases answer_cases s token approved with heq | ⟨r, r', -, -, -, -, heq | ⟨-, -, heq⟩⟩
  · rw [heq]; rfl
  · rw [heq]; rfl
  · rw [heq]
    by_cases hp : p = r.process
    · subst hp
      simp [State.setRequest, State.setProcess]
    · simp [State.setRequest, State.setProcess, hp, State.first]

/-- The rule for sections that only rewrite requests in place or drop some. -/
theorem requeued_of_kept (token : s'.nextToken = s.nextToken)
    (kept : ∀ r' ∈ s'.requests, ∃ r ∈ s.requests, Kept r r' ∧
      (r'.prompt = r.prompt ∨ r'.prompt.token = 0)) : Requeued s s' none :=
  (Requeued.refl s).then token kept

theorem kept_of_mem_filter {keep : PermissionRequest → Bool} :
    ∀ r' ∈ requests.filter keep, ∃ r ∈ requests, Kept r r' ∧
      (r'.prompt = r.prompt ∨ r'.prompt.token = 0) :=
  fun r' hr' => ⟨r', (mem_filter.mp hr').1, .refl r', .inl rfl⟩

theorem kept_of_mem_map {change : PermissionRequest → PermissionRequest}
    (hchange : ∀ r, Kept r (change r) ∧
      ((change r).prompt = r.prompt ∨ (change r).prompt.token = 0)) :
    ∀ r' ∈ requests.map change, ∃ r ∈ requests, Kept r r' ∧
      (r'.prompt = r.prompt ∨ r'.prompt.token = 0) := by
  intro r' hr'
  obtain ⟨r, hr, rfl⟩ := mem_map.mp hr'
  exact ⟨r, hr, hchange r⟩

section

variable (s : State) (id : Nat)

theorem poll_requeued : ∃ made, Requeued s (s.poll id).1 made := by
  obtain ⟨made, hqueue⟩ := first_requeued s
  refine ⟨made, ?_⟩
  rw [State.poll]
  split
  · exact hqueue.then rfl kept_of_mem_filter
  · exact hqueue

theorem poll_frame : SameSession s (s.poll id).1 ∧ (s.poll id).1.processes = s.processes := by
  rw [State.poll]
  split <;> exact ⟨⟨rfl, rfl, rfl⟩, rfl⟩

theorem setBackend_requeued (available : Bool) : Requeued s (s.setBackend available) none := by
  refine requeued_of_kept rfl ?_
  cases available with
  | true => exact fun r hr => ⟨r, hr, .refl r, .inl rfl⟩
  | false => exact kept_of_mem_map fun r => ⟨by constructor <;> simp, .inl rfl⟩

theorem specialReady_requeued (saved : Option (Option Errno)) :
    Requeued s (s.specialReady id saved) none := by
  refine requeued_of_kept rfl (kept_of_mem_map fun r => ?_)
  split
  · exact ⟨.refl r, .inl rfl⟩
  · cases saved <;> exact ⟨by constructor <;> simp, .inl rfl⟩

theorem specialSaved_requeued (result : Option Errno) :
    Requeued s (s.specialSaved id result) none ∧ SameSession s (s.specialSaved id result) ∧
      (s.specialSaved id result).processes = s.processes := by
  rw [State.specialSaved]
  split
  · exact ⟨.refl s, ⟨rfl, rfl, rfl⟩, rfl⟩
  · refine ⟨requeued_of_kept rfl (kept_of_mem_map fun waiter => ?_), ⟨rfl, rfl, rfl⟩, rfl⟩
    split
    · exact ⟨by constructor <;> simp, .inr rfl⟩
    · exact ⟨.refl waiter, .inl rfl⟩

end

/-- The rule for a section that rewrites the queue and keeps session and revisions. -/
theorem Consistent.rewrite (h : Consistent sys) (queue : Requeued sys.state s' made)
    (session : SameSession sys.state s')
    (revision : ∀ p, (sys.state.processes p).permissionRevision =
      (s'.processes p).permissionRevision) : Consistent ⟨s', sys.history⟩ :=
  h.requeue queue fun r _ => session.advances (revision r.process).le (by simp) (by simp) (by simp)

/-- The display answers only prompts it was handed. A lift to a more privileged type is not made
by a process of type `custom` that holds the permissions already; and where the comparison with the
session's type is left out, because the process or the session is `custom`, or is out of date,
because the session becomes ready or stops being so, the type is not above the session's. -/
def Disciplined (sys : System) : Action → Prop
  | .lift _ p userType _ =>
    let user := (sys.state.processes p).permissionUser
    user.userType.rank ≤ userType.rank ∨
      ¬(user.userType = .custom ∧ Within (userTypePermissionMask userType) (maskOf user)) ∧
      (user.userType = .custom ∨ sys.state.sessionType = .custom →
        sys.state.sessionType.rank ≤ userType.rank)
  | .setReady ready => ∀ r ∈ sys.state.requests, r.session = sys.state.sessionGeneration → r.Lifts →
      { sys.state with ready := ready }.sessionType.rank ≤ r.prompt.targetType.rank
  | .answer token true => ∃ prompt, .shown prompt ∈ sys.history ∧ prompt.token = token
  | _ => True

section

variable (h : Consistent sys)
include h

theorem Consistent.replaceUser (p : Nat) (userType : UserType)
    (prms : UserPermission) : Consistent ⟨sys.state.replaceUser p userType prms, sys.history⟩ := by
  refine h.advance [] rfl rfl (by simp) ?_
  intro r _
  refine SameSession.advances ⟨rfl, rfl, rfl⟩ ?_ (by simp) (by simp) (by simp)
  by_cases hp : r.process = p
  all_goals simp [State.replaceUser, State.setProcess, hp]

/-- A call that asks for permissions, given what it may ask for. -/
theorem Consistent.request (task p : Nat) (target : UInt8)
    (userType : UserType) (individual : Bool) (revision : Nat)
    (hguard : individual = false → Disciplined sys (.lift task p userType revision)) :
    Consistent (sys.enter p
      (sys.state.requestPermissions task p target userType individual revision)) := by
  rcases requestPermissions_cases sys.state task p target userType individual revision with
    ⟨outcome, hout, heq⟩ | ⟨-, -, heq⟩ | ⟨-, -, -, heq⟩ |
      ⟨r, heq, hid, hprocess, hsession, hrevision, htoken, hpid, htype, hindividual, hceiling⟩
  · rw [heq]
    cases outcome with
    | queued => exact absurd rfl hout
    | refused error => exact h
    | missing mask => exact h
  · rw [heq]
    exact h.replaceUser p _ _
  · rw [heq]
    exact h.replaceUser p _ _
  · rw [heq]
    subst hprocess
    refine h.enqueue htoken hpid hid hsession hrevision ?_
    rintro ⟨-, -, hlift⟩
    obtain ⟨hraised, hrank⟩ := hceiling (hindividual ▸ hlift)
    rw [htype]
    obtain ⟨-, hskipped⟩ := (hguard (hindividual ▸ hlift)).resolve_left (not_le.mpr hraised)
    by_cases hcustom : (sys.state.processes r.process).permissionUser.userType = .custom
    · exact hskipped (.inl hcustom)
    · exact (hrank hcustom).elim (fun hsession => hskipped (.inr hsession)) id

/-- A step on one process that is no exec and no initialisation. -/
theorem Consistent.setProcess {process : Process}
    (revision : process.permissionRevision = (sys.state.processes p).permissionRevision) :
    Consistent ⟨sys.state.setProcess p process, sys.history⟩ := by
  have hqueue : Requeued sys.state (sys.state.setProcess p process) none :=
    requeued_of_kept rfl fun r hr => ⟨r, hr, .refl r, .inl rfl⟩
  refine h.rewrite hqueue ⟨rfl, rfl, rfl⟩ ?_
  intro q
  by_cases hq : q = p
  · simp [State.setProcess, hq, revision]
  · simp [State.setProcess, hq]

theorem Consistent.processInit {parent : Option Nat}
    {source : ProcessCredentialSource}
    (hfree : ¬ (sys.state.requests.any fun r => r.process == p) = true) :
    Consistent ⟨sys.state.processInit p parent source, .initialised p :: sys.history⟩ := by
  refine h.advance [.initialised p] rfl rfl (by simp) ?_
  intro r hr
  have hother : r.process ≠ p := by
    intro heq
    exact hfree (any_eq_true.mpr ⟨r, hr, by simpa using heq⟩)
  refine SameSession.advances ⟨rfl, rfl, rfl⟩ ?_ (by simp) (by simp) ?_
  · simp [State.processInit, State.setProcess, hother]
  · simpa using hother

theorem Consistent.processExec (p : Nat) :
    Consistent ⟨sys.state.processExec p, .executed p :: sys.history⟩ := by
  refine h.advance [.executed p] rfl rfl (by simp) ?_
  intro r _
  by_cases hp : r.process = p
  · refine ⟨le_rfl, by simp, fun _ _ _ => id, ?_, fun _ => ?_, by simp⟩
    all_goals simp [State.processExec, State.setProcess, hp]
  · refine SameSession.advances ⟨rfl, rfl, rfl⟩ ?_ (by simp) (by simpa using hp) (by simp)
    simp [State.processExec, State.setProcess, hp]

end

theorem consistent_step {action : Action} (hguard : Disciplined sys action) (h : Consistent sys) :
    Consistent (sys.step action) := by
  cases action with
  | publish info =>
    refine h.advance [.published] rfl rfl (by simp) fun r _ => ?_
    constructor <;> simp [State.publish]
  | setReady ready =>
    exact h.advance [] rfl rfl (by simp) fun r hr =>
      ⟨le_rfl, by simp, fun _ hsession hlift _ => hguard r hr hsession hlift, le_rfl, by simp, by simp⟩
  | processInit p parent source =>
    rw [System.step]
    split
    · exact h
    · exact h.processInit (by assumption)
  | processExec p => exact h.processExec p
  | lift task p userType revision =>
    exact h.request task p _ userType false revision fun _ => hguard
  | request task p requested revision =>
    rw [System.step, State.request]
    split
    · exact h
    · exact h.request task p requested .custom true revision (by simp)
  | poll id =>
    obtain ⟨made, hqueue⟩ := poll_requeued sys.state id
    obtain ⟨hsession, hprocesses⟩ := poll_frame sys.state id
    exact h.rewrite hqueue hsession fun p => by rw [hprocesses]
  | prompt =>
    obtain ⟨made, hqueue⟩ := first_requeued sys.state
    have hfirst : Consistent ⟨sys.state.first.1, sys.history⟩ :=
      h.rewrite hqueue ⟨rfl, rfl, rfl⟩ fun _ => rfl
    rw [System.step, State.prompt]
    cases hfound : sys.state.first.2 with
    | none => exact hfirst
    | some r => exact hfirst.show (first_found h.positive hfound).1
  | answer token approved =>
    obtain ⟨made, hqueue⟩ := answer_requeued h.positive token approved
    exact h.rewrite hqueue (answer_sameSession _ _ _) fun p => (answer_revision _ _ _ p).symm
  | setBackend available => exact h.rewrite (setBackend_requeued _ _) ⟨rfl, rfl, rfl⟩ fun _ => rfl
  | threadExit task =>
    exact h.rewrite (requeued_of_kept rfl kept_of_mem_filter) ⟨rfl, rfl, rfl⟩ fun _ => rfl
  | requestSpecial call =>
    rw [System.step, State.requestSpecial]
    split
    next => exact h
    next =>
    split
    next => exact h
    next hrange hchecks =>
      have hvalid := (not_or.mp (not_or.mp hchecks).2).1
      simp only [State.valid, Bool.and_eq_true, beq_iff_eq, Bool.not_eq_false] at hvalid
      refine h.enqueue rfl rfl rfl hvalid.1.1.1.1 hvalid.1.1.1.2 ?_
      intro hlift
      exact absurd hlift.2.1 (by dsimp only; omega)
  | specialReady id saved =>
    exact h.rewrite (specialReady_requeued _ _ _) ⟨rfl, rfl, rfl⟩ fun _ => rfl
  | specialSaved id result =>
    obtain ⟨hqueue, hsession, hprocesses⟩ := specialSaved_requeued sys.state id result
    exact h.rewrite hqueue hsession fun p => by rw [hprocesses]
  | processStatus p status => exact h.setProcess rfl
  | threadStatus task status =>
    exact h.advance [] rfl rfl (by simp) fun r _ =>
      SameSession.advances ⟨rfl, rfl, rfl⟩ le_rfl (by simp) (by simp) (by simp)

end OpenXJ380.User
