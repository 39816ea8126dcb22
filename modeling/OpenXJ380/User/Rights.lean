/-
# User types and permission masks

Every account and every process has a user type. A named type stands for a fixed set
of permissions; `custom` carries its own. Both are compared in two ways: by the bits of
the packed mask, and by the number of the type, where a smaller number is the more
privileged grade. The two orders do not agree: root and system have the same bits.
-/

import Mathlib

namespace OpenXJ380.User

inductive UserType
  | root | system | admin | visitor | custom
  deriving DecidableEq, Repr

/-- The number of a type in the source; smaller is more privileged. -/
def UserType.rank : UserType → Nat
  | root => 0
  | system => 1
  | admin => 2
  | visitor => 3
  | custom => 4

theorem rank_lt_custom {userType : UserType} (h : userType ≠ .custom) :
    userType.rank < UserType.custom.rank := by
  cases userType with
  | custom => exact absurd rfl h
  | _ => decide

structure UserPermission where
  readFile : Bool
  writeFile : Bool
  changeSettings : Bool
  visitAnotherDir : Bool
  visitSysDir : Bool
  readSysFile : Bool
  writeSysFile : Bool
  deriving DecidableEq

def xpermR : UInt8 := 0x40
def xpermW : UInt8 := 0x20
def xpermCS : UInt8 := 0x10
def xpermNV : UInt8 := 0x08
def xpermSV : UInt8 := 0x04
def xpermSR : UInt8 := 0x02
def xpermSW : UInt8 := 0x01
def xpermAll : UInt8 := 0x7f

def userPermissionMask (p : UserPermission) : UInt8 :=
  (if p.readFile then xpermR else 0) ||| (if p.writeFile then xpermW else 0) |||
    (if p.changeSettings then xpermCS else 0) ||| (if p.visitAnotherDir then xpermNV else 0) |||
    (if p.visitSysDir then xpermSV else 0) ||| (if p.readSysFile then xpermSR else 0) |||
    (if p.writeSysFile then xpermSW else 0)

def userPermissionsFromMask (m : UInt8) : UserPermission where
  readFile := m &&& xpermR ≠ 0
  writeFile := m &&& xpermW ≠ 0
  changeSettings := m &&& xpermCS ≠ 0
  visitAnotherDir := m &&& xpermNV ≠ 0
  visitSysDir := m &&& xpermSV ≠ 0
  readSysFile := m &&& xpermSR ≠ 0
  writeSysFile := m &&& xpermSW ≠ 0

def userTypePermissionMask : UserType → UInt8
  | .root | .system => xpermAll
  | .admin => xpermR ||| xpermW ||| xpermCS ||| xpermNV ||| xpermSV
  | .visitor => xpermR ||| xpermW
  | .custom => 0

/-- An account, or what a process holds of one. -/
structure UserInfo where
  name : String
  userType : UserType
  userPrms : UserPermission
  deriving DecidableEq

def maskOf (user : UserInfo) : UInt8 :=
  if user.userType = .custom then userPermissionMask user.userPrms
  else userTypePermissionMask user.userType

/-- Every bit of the first mask is a bit of the second. -/
def Within (a b : UInt8) : Prop := a &&& ~~~b = 0

instance (a b : UInt8) : Decidable (Within a b) := inferInstanceAs (Decidable (_ = _))

theorem within_iff {a b : UInt8} :
    Within a b ↔ ∀ i < 8, a.toBitVec.getLsbD i = true → b.toBitVec.getLsbD i = true := by
  rw [Within, ← UInt8.toBitVec_inj]
  constructor
  · intro h i hi ha
    have hbit := congrArg (fun v => v.getLsbD i) h
    simpa [hi, ha] using hbit
  · intro h
    apply BitVec.eq_of_getLsbD_eq
    intro i hi
    have hbit := h i hi
    simpa [hi] using hbit

theorem Within.trans {a b c : UInt8} (hab : Within a b) (hbc : Within b c) : Within a c :=
  within_iff.mpr fun i hi ha => within_iff.mp hbc i hi (within_iff.mp hab i hi ha)

variable (a b : UInt8)

end OpenXJ380.User
