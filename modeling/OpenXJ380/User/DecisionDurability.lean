/-
# Decisions survive

A copy that is being written shows no commit mark from the moment its content begins to
change until all of it is there, so a save that is cut off leaves each copy as it was, as
it was with another length, unreadable, or as it was to be. While the backup is written
the primary copy holds the decisions, and then the backup does.

This needs a primary copy to begin with. Once it was torn, the next save clears the mark
of the backup, which is by then the only copy there is, and if that save is cut off as well
nothing is left.
-/

import OpenXJ380.User.DecisionStore

namespace OpenXJ380.User.Decisions

open List Function Data Storage Protocol
open History (Orderly step)

section Marks

variable {user content data : List UInt8} {snapshot : Snapshot}

/-- A byte of the commit mark is missing. -/
def Unmarked (content : List UInt8) : Prop := ∃ k < 4, byteAt content (commitOffset + k) = 0

/-- All of the commit mark is missing. -/
def Cleared (content : List UInt8) : Prop := ∀ k < 4, byteAt content (commitOffset + k) = 0

theorem Cleared.unmarked (h : Cleared content) : Unmarked content := ⟨0, by decide, h 0 (by decide)⟩

theorem unmarked_nil : Unmarked [] := ⟨0, by decide, rfl⟩

variable {k : Nat}

theorem byteAt_commitMark_ne_zero (hk : k < 4) : byteAt commitMark k ≠ 0 := by
  revert k
  decide

theorem length_commitMark : commitMark.length = 4 := length_encodeLE _ _

theorem byteAt_encode_mark (hk : k < 4) :
    byteAt snapshot.encode (commitOffset + k) = byteAt commitMark k := by
  have hfront : snapshot.front.length = 24 := length_front
  have hhere : commitOffset + k - 24 - 4 = k := by
    simp only [commitOffset]
    omega
  rw [Snapshot.encode, Snapshot.bytesWith, byteAt_append, hfront,
    if_neg (by simp only [commitOffset]; omega), byteAt_append, length_encodeLE,
    if_neg (by simp only [commitOffset]; omega), byteAt_append, length_encodeLE, hhere, if_pos hk]
  rfl

variable (h : Unmarked content)
include h

theorem readSnapshot_unmarked : readSnapshot user content = none := by
  obtain ⟨k, hk, hzero⟩ := h
  cases hread : readSnapshot user content with
  | none => rfl
  | some snapshot =>
    obtain ⟨-, rfl⟩ := readSnapshot_eq_some_iff.mp hread
    rw [byteAt_encode_mark hk] at hzero
    exact absurd hzero (byteAt_commitMark_ne_zero hk)

theorem Unmarked.resize {size : Nat} : Unmarked (resized content size) := by
  obtain ⟨k, hk, hzero⟩ := h
  refine ⟨k, hk, ?_⟩
  rw [byteAt_resized, hzero, ite_self]

end Marks

/-- What a write of `data` that is cut off may leave in a file. -/
def Cut (old : Option (List UInt8)) (data : List UInt8) (left : Option (List UInt8)) : Prop :=
  left = old ∨ ∃ content, left = some content ∧
      (content = resized (old.getD []) data.length ∨ Unmarked content ∨ content = data)

section Copies

variable {user data : List UInt8} {snapshot : Snapshot} {path : Copy} {volume : Volume Copy}
  {post : Unit → Volume Copy → Prop} {fail : Errno → Volume Copy → Prop}

theorem byteAt_invalidMark (k : Nat) : byteAt invalidMark k = 0 := by
  have hzeros : invalidMark = List.replicate 4 0 := by decide
  rw [hzeros, byteAt_replicate_zero]

theorem length_invalidMark : invalidMark.length = 4 := length_encodeLE _ _

theorem cleared_overwritten (content : List UInt8) : Cleared (overwritten content commitOffset invalidMark) := by
  intro k hk
  rw [byteAt_overwritten, length_invalidMark, if_pos (by omega), byteAt_invalidMark]

theorem length_pendingHeader (h : headerSize ≤ data.length) :
    (pendingHeader data).length = headerSize := by
  have h' : 96 ≤ data.length := h
  simp only [pendingHeader, length_overwritten, length_take, length_invalidMark, commitOffset,
    headerSize]
  omega

theorem byteAt_pendingHeader {i : Nat} (hi : i < headerSize) :
    byteAt (pendingHeader data) i = byteAt (overwritten data commitOffset invalidMark) i := by
  simp only [pendingHeader, byteAt_overwritten, byteAt_take, if_pos hi]

variable {content : List UInt8} {bytes : List UInt8}

/-- A write that keeps the mark cleared, however much of it is performed. -/
theorem Cleared.write {offset : Nat} (h : Cleared content)
    (hbytes : ∀ k < 4, offset ≤ commitOffset + k → byteAt bytes (commitOffset + k - offset) = 0) :
    Cleared (overwritten content offset bytes) := by
  intro k hk
  rw [byteAt_overwritten]
  split
  next hin => exact hbytes k hk hin.1
  next => exact h k hk

theorem Cleared.header (h : Cleared content) (data : List UInt8) (count : Nat) :
    Cleared (overwritten content 0 ((pendingHeader data).take count)) := by
  refine h.write fun k hk _ => ?_
  rw [Nat.sub_zero, byteAt_take, pendingHeader, cleared_overwritten _ k hk, ite_self]

theorem Cleared.body (h : Cleared content) : Cleared (overwritten content headerSize bytes) := by
  refine h.write fun k hk hle => ?_
  simp only [headerSize, commitOffset] at hle
  omega

/-- When everything but the mark is written, the file is the snapshot without its mark. -/
theorem written_without_mark (hlength : content.length = data.length)
    (hsize : headerSize ≤ data.length) :
    overwritten (overwritten content 0 (pendingHeader data)) headerSize (data.drop headerSize) =
      overwritten data commitOffset invalidMark := by
  have hsize' : 96 ≤ data.length := hsize
  have hheader := length_pendingHeader hsize
  apply ext_byteAt
  · simp only [length_overwritten, length_drop, length_invalidMark, commitOffset]
    omega
  · intro i hi
    simp only [length_overwritten, length_drop] at hi
    rw [byteAt_overwritten, byteAt_overwritten, byteAt_drop, length_drop, hheader, Nat.zero_add]
    by_cases hlow : i < headerSize
    · rw [if_neg (by omega), if_pos ⟨Nat.zero_le i, hlow⟩, Nat.sub_zero, byteAt_pendingHeader hlow]
    · have hhigh : 96 ≤ i := Nat.le_of_not_lt hlow
      rw [if_pos (by omega), Nat.add_sub_cancel' (Nat.le_of_not_lt hlow),
        byteAt_overwritten, if_neg]
      simp only [length_invalidMark, commitOffset]
      omega

theorem written_with_mark (hmark : ∀ k < 4, byteAt data (commitOffset + k) = byteAt commitMark k)
    (hsize : headerSize ≤ data.length) :
    overwritten (overwritten data commitOffset invalidMark) commitOffset commitMark = data := by
  have hsize' : 96 ≤ data.length := hsize
  apply ext_byteAt
  · simp only [length_overwritten, length_invalidMark, length_commitMark, commitOffset]
    omega
  intro i _
  simp only [byteAt_overwritten, length_invalidMark, length_commitMark]
  split
  next hin =>
    have hk := hmark (i - commitOffset) (by omega)
    rw [← hk, Nat.add_sub_cancel' hin.1]
  next => rfl

/-- A mark of which only the beginning was written lacks its last byte. -/
theorem unmarked_of_partial_mark (h : Cleared content) {count : Nat} (hcount : count < 4) :
    Unmarked (overwritten content commitOffset (commitMark.take count)) := by
  refine ⟨3, by decide, ?_⟩
  rw [byteAt_overwritten, length_take, length_commitMark, if_neg (by omega)]
  exact h 3 (by decide)

/-- While the mark is being cleared the file is unchanged or lacks its first byte. -/
theorem cut_clearing (content : List UInt8) (count : Nat) (h : commitOffset ≤ content.length) :
    overwritten content commitOffset (invalidMark.take count) = content ∨
      Unmarked (overwritten content commitOffset (invalidMark.take count)) := by
  cases count with
  | zero => exact .inl (overwritten_nil h)
  | succ count =>
    refine .inr ⟨0, by decide, ?_⟩
    rw [byteAt_overwritten, byteAt_take, byteAt_invalidMark, ite_self, if_pos]
    simp only [length_take, length_invalidMark]
    omega

theorem Cut.of_unmarked {old : Option (List UInt8)} (h : Unmarked content) :
    Cut old data (some content) := .inr ⟨content, rfl, .inr (.inl h)⟩

theorem ends_ensureFile (hdone : ∀ budget, (volume.budget = none → budget = none) →
      post () ⟨update volume.files path (some ((volume.files path).getD [])), budget⟩)
    (hcut : volume.budget ≠ none → fail .eio volume) : Ends (ensureFile path) post fail volume := by
  unfold ensureFile
  rw [ends_bind, ends_content, ends_ite]
  constructor
  · intro hmissing
    refine ends_mkfile (fun budget hbudget => ?_) hcut
    have hpost := hdone budget hbudget
    rwa [hmissing, Option.getD_none] at hpost
  · intro hexists
    obtain ⟨content, hcontent⟩ := Option.ne_none_iff_exists'.mp hexists
    have hpost := hdone volume.budget id
    rwa [hcontent, Option.getD_some, ← hcontent, update_eq_self] at hpost

/-- The records are written behind a header without a mark. -/
theorem ends_writeBody {files : Copy → Option (List UInt8)} {budget : Option Nat}
    (hcleared : Cleared content) (hlength : content.length = data.length)
    (hsize : headerSize ≤ data.length)
    (hdone : ∀ budget', (budget = none → budget' = none) → post () ⟨update files path
      (some (overwritten data commitOffset invalidMark)), budget'⟩)
    (hcut : ∀ content' budget', budget ≠ none → Unmarked content' →
      fail .eio ⟨update files path (some content'), budget'⟩) :
    Ends (writeBody path data) post fail
      ⟨update files path (some (overwritten content 0 (pendingHeader data))), budget⟩ := by
  have hwhole := written_without_mark hlength hsize
  have hheader : Cleared (overwritten content 0 (pendingHeader data)) := by
    have h := hcleared.header data (pendingHeader data).length
    rwa [take_length] at h
  unfold writeBody
  rw [ends_ite]
  constructor
  · intro _
    refine ends_write_file (fun budget' hbudget => ?_) fun count budget' _ hbudget => ?_
    · rw [hwhole]
      exact hdone budget' hbudget
    · exact hcut _ _ hbudget hheader.body.unmarked
  · intro hnone
    have hnil : data.drop headerSize = [] := drop_eq_nil_of_le (Nat.le_of_not_lt hnone)
    have hhere : headerSize ≤ (overwritten content 0 (pendingHeader data)).length := by
      rw [length_overwritten, hlength]
      omega
    rw [hnil, overwritten_nil hhere] at hwhole
    rw [hwhole]
    exact hdone budget id

theorem ends_writeSnapshot (hread : readSnapshot user data = some snapshot)
    (hdone : ∀ budget, (volume.budget = none → budget = none) →
      post () ⟨update volume.files path (some data), budget⟩)
    (hcut : ∀ left budget, volume.budget ≠ none → Cut (volume.files path) data left →
      fail .eio ⟨update volume.files path left, budget⟩) :
    Ends (writeSnapshot path user data) post fail volume := by
  obtain ⟨hwell, hdata⟩ := readSnapshot_eq_some_iff.mp hread
  have hsize : headerSize ≤ data.length := by
    rw [hdata, length_encode hwell]
    omega
  have hsize' : 96 ≤ data.length := hsize
  have hmark : ∀ k < 4, byteAt data (commitOffset + k) = byteAt commitMark k := by
    intro k hk
    rw [hdata, byteAt_encode_mark hk]
  have hunmarked : ∀ content budget, volume.budget ≠ none → Unmarked content →
      fail .eio ⟨update volume.files path (some content), budget⟩ :=
    fun content budget hbudget h => hcut _ _ hbudget (.of_unmarked h)
  unfold writeSnapshot
  rw [ends_bind]
  refine ends_ensureFile (fun budget₀ h₀ => ?_) fun hnone => ?_
  swap
  · have hfail := hcut (volume.files path) volume.budget hnone (.inl rfl)
    rwa [update_eq_self] at hfail
  -- the length
  rw [ends_bind]
  refine ends_resize_file (fun budget₁ h₁ => ?_) fun hnone => ?_
  swap
  · cases hfile : volume.files path with
    | none => exact hunmarked _ _ (mt h₀ hnone) unmarked_nil
    | some content => exact hcut _ _ (mt h₀ hnone) (.inl hfile.symm)
  have h₁₀ := fun h => h₁ (h₀ h)
  -- the mark is cleared
  rw [ends_bind]
  refine ends_write_file (fun budget₂ h₂ => ?_) fun count budget₂ _ hnone => ?_
  swap
  · rcases cut_clearing (resized ((volume.files path).getD []) data.length) count
      (by simp only [length_resized, commitOffset]; omega) with hsame | hcleared
    · rw [hsame]
      exact hcut _ _ (mt h₁₀ hnone) (.inr ⟨_, rfl, .inl rfl⟩)
    · exact hunmarked _ _ (mt h₁₀ hnone) hcleared
  have h₂₀ := fun h => h₂ (h₁₀ h)
  have hcleared := cleared_overwritten (resized ((volume.files path).getD []) data.length)
  -- the header and the records
  rw [ends_bind]
  refine ends_write_file (fun budget₃ h₃ => ?_) fun count budget₃ _ hnone => ?_
  swap
  · exact hunmarked _ _ (mt h₂₀ hnone) (hcleared.header data count).unmarked
  have h₃₀ := fun h => h₃ (h₂₀ h)
  rw [ends_bind]
  refine ends_writeBody hcleared ?_ hsize (fun budget₄ h₄ => ?_)
    fun content budget₄ hnone => hunmarked _ _ (mt h₃₀ hnone)
  · simp only [length_overwritten, length_resized, length_invalidMark, commitOffset]
    omega
  have h₄₀ := fun h => h₄ (h₃₀ h)
  -- the mark
  rw [ends_bind]
  refine ends_write_file (fun budget₅ h₅ => ?_) fun count budget₅ hcount hnone => ?_
  swap
  · exact hunmarked _ _ (mt h₄₀ hnone)
      (unmarked_of_partial_mark (cleared_overwritten data) (by rwa [length_commitMark] at hcount))
  have h₅₀ := fun h => h₅ (h₄₀ h)
  rw [written_with_mark hmark hsize, ends_bind]
  refine ends_sync (fun budget₆ h₆ => ?_) fun hnone => ?_
  swap
  · exact hcut _ _ (mt h₅₀ hnone) (.inr ⟨data, rfl, .inr (.inr rfl)⟩)
  -- what is read back is what was written
  unfold checkCopy
  simp only [ends_bind, ends_content, update_self, Option.bind_some, hread, ne_eq]
  exact hdone budget₆ fun h => h₆ (h₅₀ h)

end Copies

/-- A backup that is not read, or is not newer. -/
def Stale (generation : Nat) (content : List UInt8) : Prop :=
  Unmarked content ∨ headerSize ≤ content.length ∧ fieldLE content 16 8 ≤ generation

/-- The files hold a snapshot. -/
inductive Stored (user : List UInt8) (files : Copy → Option (List UInt8)) (snapshot : Snapshot) : Prop
  | fresh (hprimary : files .primary = none) (hbackup : files .backup = none)
      (hsnapshot : snapshot = .initial user)
  | whole (hprimary : files .primary = some snapshot.encode)
      (hbackup : ∀ content, files .backup = some content → Stale snapshot.generation content)
  | kept (content : List UInt8) (hprimary : files .primary = some content)
      (htorn : readSnapshot user content = none) (hbackup : files .backup = some snapshot.encode)

section Files

variable {user : List UInt8} {snapshot next : Snapshot} {files : Copy → Option (List UInt8)}

section

variable (h : snapshot.WellFormed user)
include h

theorem readSnapshot_encode :
    readSnapshot user snapshot.encode = some snapshot := readSnapshot_eq_some_iff.mpr ⟨h, rfl⟩

theorem headerSize_le_length_encode : headerSize ≤ snapshot.encode.length := by
  rw [length_encode h]
  omega

theorem fieldLE_encode : fieldLE snapshot.encode 12 4 = snapshot.body.length ∧
      fieldLE snapshot.encode 16 8 = snapshot.generation := by
  obtain ⟨-, -, -, hbytes, hgeneration, -⟩ :=
    (bytesWith_iff (headerSize_le_length_encode h) h.name h.count h.size h.bound
      (checksum_lt _)).mp rfl
  exact ⟨hbytes, hgeneration⟩

end

variable {content : List UInt8} {size generation : Nat} {left : Option (List UInt8)}

theorem fieldLE_resized {offset n : Nat} (hlength : offset + n ≤ content.length)
    (hsize : offset + n ≤ size) :
    fieldLE (resized content size) offset n = fieldLE content offset n := by
  have hfront : (resized content size).take (offset + n) = content.take (offset + n) := by
    rw [resized, take_append_of_le_length (by rw [length_take]; omega), take_take,
      Nat.min_eq_left hsize]
  rw [← fieldLE_take le_rfl, hfront, fieldLE_take le_rfl]

theorem Stale.resize (h : Stale generation content) (hsize : headerSize ≤ size) :
    Stale generation (resized content size) := by
  have hsize' : 96 ≤ size := hsize
  rcases h with h | ⟨hlength, hgeneration⟩
  · exact .inl h.resize
  · have hlength' : 96 ≤ content.length := hlength
    refine .inr ⟨by rwa [length_resized], ?_⟩
    rwa [fieldLE_resized (by omega) (by omega)]

section

variable (h : snapshot.WellFormed user)
include h

theorem Stale.encode (hle : snapshot.generation ≤ generation) : Stale generation snapshot.encode :=
  .inr ⟨headerSize_le_length_encode h, (fieldLE_encode h).2.trans_le hle⟩

theorem stale_of_cut {old : Option (List UInt8)}
    (hold : ∀ content, old = some content → Stale snapshot.generation content)
    (hcut : Cut old snapshot.encode left) (content : List UInt8) (hcontent : left = some content) :
    Stale snapshot.generation content := by
  rcases hcut with rfl | ⟨content', rfl, hcases⟩
  · exact hold content hcontent
  cases hcontent
  rcases hcases with rfl | hunmarked | rfl
  · have hbefore : Stale snapshot.generation (old.getD []) := by
      cases old with
      | none => exact .inl unmarked_nil
      | some bytes => exact hold bytes rfl
    exact hbefore.resize (headerSize_le_length_encode h)
  · exact .inl hunmarked
  · exact .encode h le_rfl

/-- With another length a snapshot is not readable: its header says how long it is. -/
theorem resized_encode (hsize : headerSize ≤ size) :
    resized snapshot.encode size = snapshot.encode ∨
      readSnapshot user (resized snapshot.encode size) = none := by
  have hsize' : 96 ≤ size := hsize
  have hlength' : 96 ≤ snapshot.encode.length := headerSize_le_length_encode h
  cases hread : readSnapshot user (resized snapshot.encode size) with
  | none => exact .inr rfl
  | some other =>
    obtain ⟨hother, heq⟩ := readSnapshot_eq_some_iff.mp hread
    have hbody : other.body.length = snapshot.body.length := by
      rw [← (fieldLE_encode hother).1, ← (fieldLE_encode h).1, ← heq,
        fieldLE_resized (by omega) (by omega)]
    have hlength := congrArg List.length heq
    rw [length_resized, length_encode hother, hbody, ← length_encode h] at hlength
    exact .inl (by rw [hlength, resized_length])

theorem primary_of_cut (hnext : next.WellFormed user)
    (hcut : Cut (some snapshot.encode) next.encode left) :
    left = some snapshot.encode ∨ left = some next.encode ∨
      ∃ content, left = some content ∧ readSnapshot user content = none := by
  rcases hcut with rfl | ⟨content, rfl, rfl | hunmarked | rfl⟩
  · exact .inl rfl
  · rcases resized_encode h (headerSize_le_length_encode hnext) with hsame | htorn
    · exact .inl (congrArg some hsame)
    · exact .inr (.inr ⟨_, rfl, htorn⟩)
  · exact .inr (.inr ⟨content, rfl, readSnapshot_unmarked hunmarked⟩)
  · exact .inr (.inl rfl)

end

theorem readSnapshot_stale {other : Snapshot} (h : Stale generation content)
    (hread : readSnapshot user content = some other) :
    other.generation ≤ generation := by
  rcases h with hunmarked | ⟨-, hgeneration⟩
  · rw [readSnapshot_unmarked hunmarked] at hread
    cases hread
  · obtain ⟨hother, rfl⟩ := readSnapshot_eq_some_iff.mp hread
    rwa [(fieldLE_encode hother).2] at hgeneration

/-- What the files hold is what is loaded. -/
theorem loadFiles_of_stored (h : Stored user files snapshot) (hwell : snapshot.WellFormed user) :
    loadFiles user files = .ok snapshot := by
  unfold loadFiles
  cases h with
  | fresh hprimary hbackup hsnapshot =>
    rw [hprimary, hbackup, hsnapshot]
    rfl
  | whole hprimary hbackup =>
    have hread : readCopy user (files .primary) = .ok snapshot := by
      simp only [hprimary, readCopy, readSnapshot_encode hwell]
    rw [hread]
    cases hcopy : readCopy user (files .backup) with
    | error error => rfl
    | ok other =>
      unfold readCopy at hcopy
      split at hcopy
      next => simp at hcopy
      next content hcontent =>
        split at hcopy
        next => simp at hcopy
        next found hfound =>
          cases hcopy
          have hle := readSnapshot_stale (hbackup content hcontent) hfound
          simp only [selectCopy, if_neg (Nat.not_lt.mpr hle)]
  | kept content hprimary htorn hbackup =>
    simp only [hprimary, hbackup, readCopy, htorn, readSnapshot_encode hwell, selectCopy]

theorem stored_update_backup (hprimary : files .primary = some snapshot.encode)
    (hleft : ∀ content, left = some content → Stale snapshot.generation content) :
    Stored user (update files .backup left) snapshot := by
  refine .whole ?_ fun content hcontent => hleft content ?_
  · rw [update_of_ne (by decide), hprimary]
  · rwa [update_self] at hcontent

theorem stored_update_whole (h : snapshot.WellFormed user) (hle : snapshot.generation ≤ next.generation) :
    Stored user (update (update files .backup (some snapshot.encode)) .primary
      (some next.encode)) next := by
  refine .whole (update_self _ _ _) fun content hcontent => ?_
  cases hcontent
  exact .encode h hle

theorem stored_update_torn (htorn : readSnapshot user content = none) :
    Stored user (update (update files .backup (some snapshot.encode)) .primary
      (some content)) snapshot := by
  refine .kept content (update_self _ _ _) htorn ?_
  rw [update_of_ne (by decide), update_self]

end Files

def Snapshot.Holds (snapshot : Snapshot) (decision : Decision) : Prop :=
  snapshot.decision decision.path decision.spid = verdictOf decision.approved

/-- The snapshot holds what was acknowledged, and nothing that no caller asked for. -/
structure Faithful (user : List UInt8) (acknowledged interrupted : List Decision)
    (snapshot : Snapshot) : Prop where
  wellFormed : snapshot.WellFormed user
  complete : ∀ decision ∈ acknowledged, snapshot.Holds decision
  sound : ∀ path spid, snapshot.decision path spid ≠ .undecided →
    ∃ decision ∈ acknowledged ++ interrupted, decision.path = path ∧ decision.spid = spid ∧
      snapshot.Holds decision

section Told

variable {user path : List UInt8} {acknowledged interrupted : List Decision} {snapshot : Snapshot}
  {spid : Nat} {approved : Bool}

theorem verdictOf_ne_undecided : verdictOf approved ≠ .undecided := by
  cases approved <;> simp [verdictOf]

theorem wellFormed_initial (huser : component user = true) : (Snapshot.initial user).WellFormed user := by
  simp only [component, Bool.and_eq_true, decide_eq_true_eq, all_eq_true] at huser
  obtain ⟨⟨⟨⟨-, hshort⟩, -⟩, -⟩, hbytes⟩ := huser
  have htext : 0 ∉ user := by
    intro hzero
    have := (hbytes 0 hzero).1.1
    simp at this
  refine ⟨by simp [Snapshot.initial], by simp [Snapshot.initial], ?_, ?_, ?_,
    by simp [Snapshot.initial], by simp [Snapshot.initial, Snapshot.body, headerSize, xspStoreLimit],
    by simp [Snapshot.initial], by simp [Snapshot.initial]⟩
  · simp only [Snapshot.initial, length_append, length_replicate]
    omega
  · refine mem_append_right _ (mem_replicate.mpr ⟨by omega, rfl⟩)
  obtain ⟨count, -⟩ : ∃ count, 64 - user.length = count + 1 := ⟨63 - user.length, by omega⟩
  simp only [Snapshot.initial, cString]
  rw [takeWhile_append_of_pos]
  · simp
  · intro byte hbyte
    simp only [decide_eq_true_eq]
    rintro rfl
    exact htext hbyte

theorem decision_initial (path : List UInt8) (spid : Nat) :
    (Snapshot.initial user).decision path spid = .undecided := rfl

theorem faithful_initial (huser : component user = true) : Faithful user [] [] (.initial user) :=
  ⟨wellFormed_initial huser, by simp, fun path spid h => absurd (decision_initial path spid) h⟩

section

variable (h : Faithful user acknowledged interrupted snapshot)
include h

/-- More saves that were cut off. -/
theorem Faithful.interrupt (decision : Decision) :
    Faithful user acknowledged (decision :: interrupted) snapshot := by
  refine ⟨h.wellFormed, h.complete, fun path spid hdecided => ?_⟩
  obtain ⟨found, hfound, hrest⟩ := h.sound path spid hdecided
  refine ⟨found, ?_, hrest⟩
  rcases mem_append.mp hfound with hmem | hmem
  · exact mem_append_left _ hmem
  · exact mem_append_right _ (mem_cons_of_mem _ hmem)

/-- A decision that is already there is acknowledged once more. -/
theorem Faithful.acknowledge {decision : Decision} (hholds : snapshot.Holds decision) :
    Faithful user (decision :: acknowledged) interrupted snapshot := by
  refine ⟨h.wellFormed, ?_, fun path spid hdecided => ?_⟩
  · intro other hother
    rcases mem_cons.mp hother with rfl | hother
    · exact hholds
    · exact h.complete other hother
  · obtain ⟨found, hfound, hrest⟩ := h.sound path spid hdecided
    exact ⟨found, mem_cons_of_mem _ hfound, hrest⟩

end

section Settled

variable (h : Faithful user acknowledged interrupted snapshot)
  (hopen : snapshot.decision path spid = .undecided)
  (hnext : (snapshot.settle path spid approved).WellFormed user)

include h hopen

theorem holds_settle_self : (snapshot.settle path spid approved).Holds ⟨path, spid, approved⟩ := by
  rw [Snapshot.Holds, decision_settle h.wellFormed hopen, if_pos ⟨rfl, rfl⟩]

theorem holds_settle {decision : Decision} (hdecision : snapshot.Holds decision) :
    (snapshot.settle path spid approved).Holds decision := by
  rw [Snapshot.Holds, decision_settle h.wellFormed hopen, if_neg]
  · exact hdecision
  · rintro ⟨hpath, hspid⟩
    rw [Snapshot.Holds, hpath, hspid, hopen] at hdecision
    exact verdictOf_ne_undecided hdecision.symm

include hnext in
/-- The next snapshot, whether or not the caller is told. -/
theorem Faithful.settle : Faithful user acknowledged (⟨path, spid, approved⟩ :: interrupted)
      (snapshot.settle path spid approved) := by
  refine ⟨hnext, fun decision hmem => holds_settle h hopen (h.complete decision hmem), ?_⟩
  intro path' spid' hdecided
  by_cases hsame : path' = path ∧ spid' = spid
  · obtain ⟨rfl, rfl⟩ := hsame
    exact ⟨_, mem_append_right _ mem_cons_self, rfl, rfl, holds_settle_self h hopen⟩
  · rw [decision_settle h.wellFormed hopen, if_neg hsame] at hdecided
    obtain ⟨found, hfound, hpath, hspid, hholds⟩ :=
      (h.interrupt ⟨path, spid, approved⟩).sound path' spid' hdecided
    exact ⟨found, hfound, hpath, hspid, holds_settle h hopen hholds⟩

include hnext in
theorem Faithful.settle_acknowledge :
    Faithful user (⟨path, spid, approved⟩ :: acknowledged) interrupted
      (snapshot.settle path spid approved) := by
  refine ⟨hnext, ?_, ?_⟩
  · intro decision hmem
    rcases mem_cons.mp hmem with rfl | hmem
    · exact holds_settle_self h hopen
    · exact holds_settle h hopen (h.complete decision hmem)
  · intro path' spid' hdecided
    obtain ⟨found, hfound, hrest⟩ := (h.settle hopen hnext).sound path' spid' hdecided
    refine ⟨found, ?_, hrest⟩
    rcases mem_append.mp hfound with hmem | hmem
    · exact mem_append_left _ (mem_cons_of_mem _ hmem)
    · rcases mem_cons.mp hmem with rfl | hmem
      · exact mem_append_left _ mem_cons_self
      · exact mem_append_right _ hmem

end Settled

end Told

/-- The files hold a snapshot that does justice to every caller, and so does the memory. -/
def Sound (user : List UInt8) (history : History) : Prop :=
  ∃ snapshot, Stored user history.files snapshot ∧
    Faithful user history.acknowledged history.interrupted snapshot ∧
    ∀ entry, history.cache = some entry →
      Faithful user history.acknowledged history.interrupted entry ∧
        (∀ decision, entry.Holds decision → snapshot.Holds decision) ∧
        (history.disturbed = false → entry = snapshot)

section Steps

variable {user : List UInt8} {history : History}

theorem sound_empty (huser : component user = true) : Sound user .empty :=
  ⟨.initial user, .fresh rfl rfl rfl, faithful_initial huser, by simp [History.empty]⟩

theorem sound_reboot (h : Sound user history) : Sound user (history.step user .reboot) := by
  obtain ⟨snapshot, hstored, hfaithful, -⟩ := h
  exact ⟨snapshot, hstored, hfaithful, by simp [step]⟩

variable {fail : Errno → Store → Prop} {executable : List UInt8}

/-- Loading succeeds, and what is in memory then does justice to every caller. -/
theorem ends_loadStore (huser : component user = true) (h : Sound user history)
    (budget : Option Nat) {post : Snapshot → Store → Prop}
    (hdone : ∀ entry, Sound user { history with cache := some entry } →
      post entry ⟨⟨history.files, budget⟩, some entry⟩) :
    Ends (loadStore user) post fail ⟨⟨history.files, budget⟩, history.cache⟩ := by
  unfold Ends loadStore
  simp only [huser]
  cases hcache : history.cache with
  | some entry =>
    refine hdone entry ?_
    rw [← hcache]
    exact h
  | none =>
    obtain ⟨snapshot, hstored, hfaithful, -⟩ := h
    simp only [loadFiles_of_stored hstored hfaithful.wellFormed]
    refine hdone snapshot ⟨snapshot, hstored, hfaithful, ?_⟩
    intro entry hentry
    cases hentry
    exact ⟨hfaithful, fun _ => id, fun _ => rfl⟩

theorem sound_load (huser : component user = true) (h : Sound user history) :
    Sound user (history.step user .load) := by
  have hends : Ends (loadStore user) (fun _ store => Sound user (history.keep store))
      (fun _ store => Sound user (history.keep store)) ⟨⟨history.files, none⟩, history.cache⟩ :=
    ends_loadStore huser h none fun _ hentry => hentry
  unfold step
  cases hload : loadStore user ⟨⟨history.files, none⟩, history.cache⟩ with
  | ok entry store => exact hends.of_ok hload
  | error error store => exact hends.of_error hload

theorem ends_onFiles {α : Type} {program : FileM Copy α} {post : α → Store → Prop} {store : Store}
    (h : Ends program (fun value volume => post value { store with volume })
      (fun error volume => fail error { store with volume }) store.volume) :
    Ends (onFiles program) post fail store := by
  unfold Ends onFiles at *
  cases hrun : program store.volume with
  | ok value volume => simpa only [hrun] using h
  | error error volume => simpa only [hrun] using h

variable {path : List UInt8} {spid : Nat} {approved : Bool} {budget : Option Nat} {entry : Snapshot}

theorem testBit_knownMask (hlow : ¬ spid < 1) (hhigh : ¬ spid > 3) :
    xspKnownMask.testBit spid = true := by
  obtain rfl | rfl | rfl : spid = 1 ∨ spid = 2 ∨ spid = 3 := by omega
  all_goals decide

/-- A save that may be cut off begins with a whole primary copy of what is in memory. -/
theorem whole_of_orderly (h : Sound user { history with cache := some entry })
    (horderly : history.Orderly user (.save path spid approved budget)) (hbudget : budget ≠ none) :
    history.files .primary = some entry.encode ∧
      ∀ content, history.files .backup = some content → Stale entry.generation content := by
  obtain ⟨hdisturbed, hreadable⟩ := horderly.resolve_left hbudget
  obtain ⟨snapshot, hstored, -, hcache⟩ := h
  obtain rfl := (hcache entry rfl).2.2 hdisturbed
  cases hstored with
  | fresh hprimary =>
    simp only at hprimary
    simp [hprimary] at hreadable
  | whole hprimary hbackup => exact ⟨hprimary, hbackup⟩
  | kept content hprimary htorn =>
    simp only at hprimary
    simp [hprimary, htorn] at hreadable

/-- A decision that is still open is recorded, or the save is cut off. -/
theorem sound_recordDecision (h : Sound user { history with cache := some entry })
    (horderly : history.Orderly user (.save executable spid approved budget))
    (hopen : entry.decision path spid = .undecided) (hspid : xspKnownMask.testBit spid = true)
    (habsolute : path.head? = some 0x2f) (htext : 0 ∉ path)
    (hshort : path.length < xspAppPathBytes) :
    Ends (recordDecision user entry path spid approved)
      (fun _ store => Sound user ((history.keep store).acknowledge ⟨path, spid, true⟩))
      (fun error store => Sound user (history.failed ⟨path, spid, approved⟩ error store))
      ⟨⟨history.files, budget⟩, some entry⟩ := by
  have hentry : Faithful user history.acknowledged history.interrupted entry := by
    obtain ⟨snapshot, -, -, hcache⟩ := h
    exact (hcache entry rfl).1
  have hwell := hentry.wellFormed
  have hinterrupted := hentry.interrupt ⟨path, spid, approved⟩
  unfold recordDecision
  simp only [ends_bind, ends_ite]
  refine ⟨fun _ => h, fun hroom => ?_⟩
  simp only [not_or, not_and] at hroom
  obtain ⟨hcount, hgeneration, hbytes⟩ := hroom
  have hnext : (entry.settle path spid approved).WellFormed user := by
    refine hwell.settle hspid habsolute htext hshort ?_ ?_ ?_
    · have := hwell.bound
      omega
    · exact fun hnone => Nat.lt_of_le_of_ne hwell.count (hcount hnone)
    · rw [length_body_settle]
      omega
  -- the backup
  refine ends_onFiles (ends_writeSnapshot (readSnapshot_encode hwell) (fun budget₁ h₁ => ?_)
    fun left budget₁ hnone hcut => ?_)
  swap
  · obtain ⟨hprimary, hbackup⟩ := whole_of_orderly h horderly hnone
    refine ⟨entry, stored_update_backup hprimary (stale_of_cut hwell hbackup hcut), hinterrupted, ?_⟩
    intro other hother
    cases hother
    exact ⟨hinterrupted, fun _ => id, fun _ => rfl⟩
  -- the primary copy
  refine ends_onFiles (ends_writeSnapshot (readSnapshot_encode hnext) (fun budget₂ h₂ => ?_)
    fun left budget₂ hnone hcut => ?_)
  swap
  · obtain ⟨hprimary, -⟩ := whole_of_orderly h horderly (mt h₁ hnone)
    have hcut' : Cut (some entry.encode) (entry.settle path spid approved).encode left := by
      simpa [hprimary] using hcut
    have hcache : ∀ snapshot : Snapshot, (∀ decision, entry.Holds decision → snapshot.Holds decision) →
        ∀ other, some entry = some other →
          Faithful user history.acknowledged (⟨path, spid, approved⟩ :: history.interrupted) other ∧
            (∀ decision, other.Holds decision → snapshot.Holds decision) ∧
            (true = false → other = snapshot) := by
      intro snapshot hholds other hother
      cases hother
      exact ⟨hinterrupted, hholds, by simp⟩
    rcases primary_of_cut hwell hnext hcut' with rfl | rfl | ⟨content, rfl, htorn⟩
    · exact ⟨entry, stored_update_whole hwell le_rfl, hinterrupted, hcache entry fun _ => id⟩
    · exact ⟨_, stored_update_whole hwell (Nat.le_succ _), hentry.settle hopen hnext,
        hcache _ fun _ => holds_settle hentry hopen⟩
    · exact ⟨entry, stored_update_torn htorn, hinterrupted, hcache entry fun _ => id⟩
  -- both are written
  have hboth : ∀ budget₃, Sound user (((history.keep ⟨⟨update
      (update history.files .backup (some entry.encode)) .primary
      (some (entry.settle path spid approved).encode), budget₃⟩,
      some (entry.settle path spid approved)⟩)).acknowledge ⟨path, spid, approved⟩) := by
    intro budget₃
    have hsettled := hentry.settle_acknowledge hopen hnext
    refine ⟨_, stored_update_whole hwell (Nat.le_succ _), hsettled, ?_⟩
    intro other hother
    cases hother
    exact ⟨hsettled, fun _ => id, fun _ => rfl⟩
  constructor
  · rintro rfl
    exact hboth budget₂
  · intro hrefused
    obtain rfl := Bool.eq_false_iff.mpr hrefused
    exact hboth budget₂

theorem zero_notMem_cString {bytes : List UInt8} : 0 ∉ cString bytes := by
  intro hzero
  have hall : (cString bytes).all (· ≠ 0) = true := all_takeWhile
  simpa using all_eq_true.mp hall 0 hzero

/-- A decision that memory holds already is acknowledged. -/
theorem sound_acknowledge (h : Sound user { history with cache := some entry })
    (hdecision : entry.decision path spid = verdictOf approved) :
    Sound user ((history.keep ⟨⟨history.files, budget⟩, some entry⟩).acknowledge
      ⟨path, spid, approved⟩) := by
  obtain ⟨snapshot, hstored, hfaithful, hcache⟩ := h
  obtain ⟨hentry, hholds, hsame⟩ := hcache entry rfl
  refine ⟨snapshot, hstored, hfaithful.acknowledge (hholds _ hdecision), ?_⟩
  intro other hother
  cases hother
  exact ⟨hentry.acknowledge hdecision, hholds, hsame⟩

variable (huser : component user = true)
include huser

theorem sound_save (h : Sound user history)
    (horderly : history.Orderly user (.save executable spid approved budget)) :
    Sound user (history.step user (.save executable spid approved budget)) := by
  have hends : Ends (specialPermissionsSave user executable spid approved)
      (fun _ store => Sound user
        ((history.keep store).acknowledge ⟨cString executable, spid, true⟩))
      (fun error store => Sound user
        (history.failed ⟨cString executable, spid, approved⟩ error store))
      ⟨⟨history.files, budget⟩, history.cache⟩ := by
    unfold specialPermissionsSave
    simp only [ends_bind, ends_ite]
    refine ⟨fun _ => h, fun hvalid => ?_⟩
    simp only [not_or, not_not, Nat.not_le] at hvalid
    obtain ⟨habsolute, hshort, hlow, hhigh⟩ := hvalid
    refine ends_loadStore huser h budget fun entry hentry => ?_
    cases hdecision : entry.decision (cString executable) spid with
    | granted =>
      have hverdict : entry.decision (cString executable) spid = verdictOf true := hdecision
      exact sound_acknowledge hentry hverdict
    | refused =>
      have hverdict : entry.decision (cString executable) spid = verdictOf false := hdecision
      exact sound_acknowledge hentry hverdict
    | undecided =>
      exact sound_recordDecision hentry horderly hdecision (testBit_knownMask hlow hhigh) habsolute
        zero_notMem_cString hshort
  unfold step
  dsimp only
  cases hsave : specialPermissionsSave user executable spid approved
      ⟨⟨history.files, budget⟩, history.cache⟩ with
  | ok value store => exact hends.of_ok hsave
  | error error store => exact hends.of_error hsave

theorem sound_step (action : Action)
    (horderly : history.Orderly user action) (h : Sound user history) :
    Sound user (history.step user action) := by
  cases action with
  | save executable spid approved budget => exact sound_save huser h horderly
  | load => exact sound_load huser h
  | reboot => exact sound_reboot h

theorem sound_run {schedule : List Action}
    (horderly : Along (step user) (Orderly user) .empty schedule) :
    Sound user (run (step user) .empty schedule) :=
  invariant_run (step user) (Sound user)
    (fun _ action hadmitted hsound => sound_step huser action hadmitted hsound) horderly
    (sound_empty huser)

end Steps

/-- One of the files is a snapshot that holds every acknowledged decision. -/
def History.Preserved (user : List UInt8) (history : History) : Prop :=
  ∃ copy data snapshot, history.files copy = some data ∧ readSnapshot user data = some snapshot ∧
    ∀ decision ∈ history.acknowledged, snapshot.Holds decision

/-- After a restart loading returns every acknowledged decision, and besides these only
decisions that were being saved when a save was cut off. -/
def History.Recovered (user : List UInt8) (history : History) : Prop := ∃ snapshot store,
    loadStore user ⟨⟨history.files, none⟩, none⟩ = .ok snapshot store ∧
      (∀ decision ∈ history.acknowledged, snapshot.Holds decision) ∧
      ∀ path spid, snapshot.decision path spid ≠ .undecided →
        ∃ decision ∈ history.acknowledged ++ history.interrupted,
          decision.path = path ∧ decision.spid = spid ∧ snapshot.Holds decision

theorem loadStore_restart {user : List UInt8} (huser : component user = true)
    (files : Copy → Option (List UInt8)) :
    loadStore user ⟨⟨files, none⟩, none⟩ =
      match loadFiles user files with
      | .error error => .error error ⟨⟨files, none⟩, none⟩
      | .ok entry => .ok entry ⟨⟨files, none⟩, some entry⟩ := by
  cases loaded : loadFiles user files <;> simp [loadStore, huser, loaded]

/-- As long as every save that may be cut off begins with a whole primary copy and none
follows another in the same session, decisions are durable. -/
theorem decisions_durable (user : List UInt8) (huser : component user = true) (schedule : List Action)
    (horderly : Along (step user) (Orderly user) .empty schedule) :
    ((run (step user) .empty schedule).acknowledged ≠ [] →
        (run (step user) .empty schedule).Preserved user) ∧
      (run (step user) .empty schedule).Recovered user := by
  obtain ⟨snapshot, hstored, hfaithful, -⟩ := sound_run huser horderly
  have hread := readSnapshot_encode hfaithful.wellFormed
  constructor
  · intro hacknowledged
    cases hstored with
    | fresh hprimary hbackup hsnapshot =>
      -- a user for whom nothing is stored was told nothing
      obtain ⟨decision, hdecision⟩ := exists_mem_of_ne_nil _ hacknowledged
      have hholds := hfaithful.complete decision hdecision
      rw [hsnapshot, Snapshot.Holds, decision_initial] at hholds
      exact absurd hholds.symm verdictOf_ne_undecided
    | whole hprimary hbackup => exact ⟨.primary, _, snapshot, hprimary, hread, hfaithful.complete⟩
    | kept content hprimary htorn hbackup =>
      exact ⟨.backup, _, snapshot, hbackup, hread, hfaithful.complete⟩
  · have hload := loadFiles_of_stored hstored hfaithful.wellFormed
    have hstart := loadStore_restart huser (run (step user) .empty schedule).files
    rw [hload] at hstart
    exact ⟨snapshot, _, hstart, hfaithful.complete, hfaithful.sound⟩

/-- Two applications, of which the second is refused and the save is cut off in the primary
copy. -/
def tornSave : List Action :=
  [.save [0x2f, 0x61] 1 true none, .save [0x2f, 0x62] 1 false (some 150), .reboot]

theorem decisions_durable_after_torn_save : ((run (step [0x75]) .empty tornSave).acknowledged ≠ [] →
        (run (step [0x75]) .empty tornSave).Preserved [0x75]) ∧
      (run (step [0x75]) .empty tornSave).Recovered [0x75] :=
  decisions_durable [0x75] (by decide) tornSave
    ⟨.inl rfl, .inr (by decide +kernel), trivial, trivial⟩

/-- The save after that is cut off as it begins to rewrite the backup. -/
def lostSchedule : List Action := tornSave ++ [.save [0x2f, 0x63] 1 true (some 3)]

/-- This destroys what was acknowledged before. -/
theorem second_torn_save_loses_decision : ∃ user schedule, component user = true ∧
      (run (step user) .empty schedule).acknowledged = [⟨[0x2f, 0x61], 1, true⟩] ∧
      (∀ copy, ((run (step user) .empty schedule).files copy).bind (readSnapshot user) = none) ∧
      ∃ store, loadStore user ⟨⟨(run (step user) .empty schedule).files, none⟩, none⟩ =
        .error .eio store := by
  have hlost : (run (step [0x75]) .empty lostSchedule).acknowledged = [⟨[0x2f, 0x61], 1, true⟩] ∧
      ((run (step [0x75]) .empty lostSchedule).files .primary).bind (readSnapshot [0x75]) = none ∧
      ((run (step [0x75]) .empty lostSchedule).files .backup).bind (readSnapshot [0x75]) = none ∧
      loadFiles [0x75] (run (step [0x75]) .empty lostSchedule).files = .error .eio := by
    decide +kernel
  obtain ⟨hacknowledged, hprimary, hbackup, hload⟩ := hlost
  refine ⟨[0x75], lostSchedule, by decide, hacknowledged, ?_, ?_⟩
  · intro copy
    cases copy with
    | primary => exact hprimary
    | backup => exact hbackup
  · have hstart := loadStore_restart (by decide : component [0x75] = true)
      (run (step [0x75]) .empty lostSchedule).files
    rw [hload] at hstart
    exact ⟨_, hstart⟩

end OpenXJ380.User.Decisions
