/-
# Rights grow by consent only

A process gets a right it did not have only when the display approves a prompt that it
was handed for that process, while the session and the image that asked are still there.
The invariant of the queue says so for every request; what is left is to see that no
other section gives rights.

A process of type `custom` may lift itself to a named type whose permissions it holds. That
takes no prompt and is not compared with the session. A session of type `custom` is not compared
with at all, so that a process of one with all permissions is root after one call; the main
result excludes these lifts.
-/

import OpenXJ380.Protocol.Run
import OpenXJ380.User.Queue

namespace OpenXJ380.User

open Protocol
open OpenXJ380.User.System (step)
open State (grant replaceUser setProcess)

variable (s : State)

variable {r : PermissionRequest} {p : Nat}

/-- What a process may do. -/
def State.rights (s : State) (p : Nat) : UserInfo := (s.processes p).permissionUser

/-- The permissions that a process has gained between two states. -/
def State.added (s s' : State) (p : Nat) : UInt8 := maskOf (s'.rights p) &&& ~~~maskOf (s.rights p)

/-- Neither more permissions nor a more privileged type. -/
def NotRaised (user user' : UserInfo) : Prop :=
  Within (maskOf user') (maskOf user) ∧ user.userType.rank ≤ user'.userType.rank

theorem NotRaised.refl (user : UserInfo) : NotRaised user user := by
  refine ⟨within_iff.mpr fun _ _ h => h, le_rfl⟩

variable {sys : System}

/-- Before the first session: nothing is queued and nothing was handed out. -/
structure System.Initial (sys : System) : Prop where
  requests : sys.state.requests = []
  history : sys.history = []
  token : sys.state.nextToken = 1

theorem consistent_initial (h : sys.Initial) : Consistent sys := by
  have hnone : ∀ prompt, ¬ sys.Around prompt := by
    rintro prompt (⟨r, hr, -⟩ | hshown)
    · simp [h.requests] at hr
    · simp [h.history] at hshown
  constructor
  · simp [h.requests]
  · simp [h.requests]
  · exact fun first second hfirst => absurd hfirst (hnone first)
  · exact fun prompt hprompt => absurd hprompt (hnone prompt)
  · simp [h.token]

end OpenXJ380.User
