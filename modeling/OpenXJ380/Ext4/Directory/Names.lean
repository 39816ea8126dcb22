/-
# A directory without an index is a map

Every operation changes the list of names in one place, so what a name stands for changes
for one name only.
-/

import OpenXJ380.Ext4.Directory.Edits

namespace OpenXJ380.Ext4

open List Function Data
open DirectoryEntry (Named binding)

namespace DirectoryFormat

variable {n : Nat} {f : DirectoryFormat}

theorem binding_keptEntries (entry : DirectoryEntry) :
    (keptEntries entry).filterMap binding = [entry].filterMap binding := by
  by_cases hinode : entry.inode = 0
  all_goals simp [keptEntries, hinode, binding]

theorem binding_newEntry {name : CString} {child : UInt32} {type : UInt8} {offset record : Nat}
    (hchild : child ≠ 0) : (f.newEntry offset record name child type).binding =
      some (name.bytes, child.toNat, if f.fileType then type else 0) := by
  have : child.toNat ≠ 0 := fun h => hchild (UInt32.toNat.inj h)
  rw [binding, newEntry, if_neg this]

theorem binding_removeEntry (pre : List DirectoryEntry) (entry : DirectoryEntry)
    (post : List DirectoryEntry) :
    (removeEntry pre entry post).filterMap binding =
      pre.filterMap binding ++ post.filterMap binding := by
  rcases eq_nil_or_concat pre with rfl | ⟨-, last, rfl⟩
  · simp [removeEntry, clearedEntry, binding]
  have hlast : binding { last with record := last.record + entry.record } = last.binding := rfl
  simp only [removeEntry, concat_eq_append, List.getLast?_append, List.getLast?_singleton,
    Option.some_or, filterMap_append, filterMap_cons, hlast]
  cases last.binding <;> simp

/-- Two lists of records that start with the same two names. -/
def KeepsRoot (f : DirectoryFormat) (list edited : List DirectoryEntry) : Prop :=
  ∀ dotdot tail, list = ⟨0, 12, f.inode, [0x2e], if f.fileType then 2 else 0⟩ :: dotdot :: tail →
    dotdot.name = [0x2e, 0x2e] → dotdot.inode ≠ 0 →
    ∃ dotdot' tail', edited = ⟨0, 12, f.inode, [0x2e], if f.fileType then 2 else 0⟩ ::
      dotdot' :: tail' ∧ dotdot'.name = [0x2e, 0x2e] ∧ dotdot'.inode ≠ 0

variable {pre post : List DirectoryEntry} {entry : DirectoryEntry}

/-- A record that is cut keeps the records of `.` and `..` where they are. -/
theorem keepsRoot_insert {new : DirectoryEntry} {needed : Nat} (hneeded : 0 < needed)
    (hroom : usedSize entry + needed ≤ entry.record) :
    f.KeepsRoot (pre ++ entry :: post) (pre ++ ((keptEntries entry ++ [new]) ++ post)) := by
  intro dotdot tail hlist hname hinode
  rcases pre with _ | ⟨first, _ | ⟨second, pre⟩⟩
  · -- there is no room behind the name of the first record
    obtain ⟨rfl, -⟩ := List.cons.inj hlist
    have hpositive := f.positive
    have hused : recordSize 1 = 12 := rfl
    simp only [usedSize, length_singleton] at hroom
    rw [if_pos (by omega)] at hroom
    omega
  · obtain ⟨rfl, hrest⟩ := List.cons.inj hlist
    obtain ⟨rfl, rfl⟩ := List.cons.inj hrest
    exact ⟨{ entry with record := usedSize entry }, new :: post, by simp [keptEntries, hinode],
      hname, hinode⟩
  · obtain ⟨rfl, hrest⟩ := List.cons.inj hlist
    obtain ⟨rfl, rfl⟩ := List.cons.inj hrest
    exact ⟨second, _, rfl, hname, hinode⟩

/-- So does the removal of any other name. -/
theorem keepsRoot_remove (hdot : entry.name ≠ [0x2e]) (hdotdot : entry.name ≠ [0x2e, 0x2e]) :
    f.KeepsRoot (pre ++ entry :: post) (removeEntry pre entry post) := by
  intro dotdot tail hlist hname hinode
  rcases pre with _ | ⟨first, _ | ⟨second, pre⟩⟩
  · obtain ⟨rfl, -⟩ := List.cons.inj hlist
    exact absurd rfl hdot
  · obtain ⟨rfl, hrest⟩ := List.cons.inj hlist
    obtain ⟨rfl, -⟩ := List.cons.inj hrest
    exact absurd hname hdotdot
  · obtain ⟨rfl, hrest⟩ := List.cons.inj hlist
    obtain ⟨rfl, rfl⟩ := List.cons.inj hrest
    rcases eq_nil_or_concat pre with rfl | ⟨front, last, rfl⟩
    · exact ⟨{ second with record := second.record + entry.record }, post, rfl, hname, hinode⟩
    · refine ⟨second, front ++ { last with record := last.record + entry.record } :: post, ?_, hname,
        hinode⟩
      simp [removeEntry, List.getLast?_cons, List.dropLast]

end DirectoryFormat

namespace Directory

open DirectoryFormat

variable {n : Nat} {f : DirectoryFormat} {access : DirectoryAccess n} {index : DirectoryIndex n}
  {d : Directory n} {before after : List (Block n)} {block edited : Block n}

theorem listing_split (hblocks : d.blocks = before ++ block :: after) :
    d.listing f = (before.flatMap f.entries).filterMap binding ++
      ((f.entries block).filterMap binding ++ (after.flatMap f.entries).filterMap binding) := by
  rw [listing, hblocks, flatMap_append, flatMap_cons, filterMap_append, filterMap_append]

theorem Rooted.edit (h : d.Rooted f) (hblocks : d.blocks = before ++ block :: after)
    (hkeeps : f.KeepsRoot (f.entries block) (f.entries edited)) :
    ({ d with blocks := before ++ edited :: after } : Directory n).Rooted f := by
  obtain ⟨first, rest, dotdot, tail, hfirst, hentries, hname, hinode⟩ := h
  rw [hblocks] at hfirst
  rcases before with _ | ⟨head, before⟩
  · obtain ⟨rfl, -⟩ := List.cons.inj hfirst
    obtain ⟨dotdot', tail', hedited, hname', hinode'⟩ := hkeeps dotdot tail hentries hname hinode
    exact ⟨edited, after, dotdot', tail', rfl, hedited, hname', hinode'⟩
  · obtain ⟨rfl, -⟩ := List.cons.inj hfirst
    exact ⟨head, before ++ edited :: after, dotdot, tail, rfl, hentries, hname, hinode⟩

/-- One name is bound or unbound, and the directory stays well formed. -/
structure Updates (f : DirectoryFormat) (d after : Directory n) (name : List UInt8)
    (value : Option (Nat × UInt8)) : Prop where
  lookup : after.lookup f = update (d.lookup f) name value
  checked : after.Checked f
  rooted : after.Rooted f
  linear : after.indexed = false

variable {d' : Directory n} {name : List UInt8} {position : DirectoryPosition}
  {front back : List (List UInt8 × Nat × UInt8)} {value : Nat × UInt8}

/-- A name that was not listed is listed once, and nothing else changes. -/
theorem checked_insert (hchecked : d.Checked f) (hfree : d.lookup f name = none)
    (hlisting : d.listing f = front ++ back)
    (hlisting' : d'.listing f = front ++ (name, value) :: back)
    (hblocks : ∀ block ∈ d'.blocks, f.directoryLeafCheck block = .ok ()) :
    d'.Checked f ∧ d'.lookup f = update (d.lookup f) name (some value) := by
  have hfresh : name ∉ (front ++ back).map Prod.fst := by
    rw [← hlisting]
    exact bindings_eq_none.mp hfree
  have hnodup := hchecked.names
  rw [hlisting] at hnodup
  refine ⟨⟨hblocks, ?_⟩, ?_⟩
  · rw [hlisting', map_append, map_cons, nodup_middle, ← map_append]
    exact nodup_cons.mpr ⟨hfresh, hnodup⟩
  · rw [Directory.lookup, Directory.lookup, hlisting, hlisting', bindings_insert]
    exact fun hmem => hfresh (by simp only [map_append, mem_append]; exact .inl hmem)

/-- A name that was listed is gone, and nothing else changes. -/
theorem checked_remove (hchecked : d.Checked f)
    (hlisting : d.listing f = front ++ (name, value) :: back)
    (hlisting' : d'.listing f = front ++ back)
    (hblocks : ∀ block ∈ d'.blocks, f.directoryLeafCheck block = .ok ()) :
    d'.Checked f ∧ d'.lookup f = update (d.lookup f) name none := by
  have hnodup := hchecked.names
  rw [hlisting, map_append, map_cons, nodup_middle, ← map_append] at hnodup
  obtain ⟨hfresh, hrest⟩ := nodup_cons.mp hnodup
  refine ⟨⟨hblocks, by rwa [hlisting']⟩, ?_⟩
  rw [Directory.lookup, Directory.lookup, hlisting, hlisting', bindings_remove hfresh]

theorem modify_middle {α : Type} (front back : List α) (item : α) (g : α → α) :
    (front ++ item :: back).modify front.length g = front ++ g item :: back := by
  induction front with
  | nil => rfl
  | cons head front ih => simp [ih]

theorem countP_named (list : List DirectoryEntry) (name : List UInt8) : list.countP (·.Named name) =
      ((list.filterMap binding).map Prod.fst).count name := by
  induction list with
  | nil => rfl
  | cons entry rest ih =>
    by_cases hinode : entry.inode = 0
    · simp [binding, Named, hinode] at ih ⊢
      exact ih
    · simp [binding, Named, hinode, countP_cons, count_cons] at ih ⊢
      rw [ih]

/-- The place of a name in the listing. -/
theorem Located.listing_eq (h : f.Located d.blocks 0 name position) :
    ∃ front back, d.listing f = front ++ (name, position.number, position.type) :: back ∧
      front = (h.before.flatMap f.entries).filterMap binding ++ h.pre.filterMap binding ∧
      back = h.post.filterMap binding ++ (h.after.flatMap f.entries).filterMap binding := by
  have hbinding : h.entry.binding = some (name, position.number, position.type) := by
    have hnumber : position.number = h.entry.inode :=
      congrArg DirectoryPosition.number h.position_eq
    have htype : position.type = h.entry.type := congrArg DirectoryPosition.type h.position_eq
    rw [binding, if_neg h.named.1, h.named.2, hnumber, htype]
  refine ⟨_, _, ?_, rfl, rfl⟩
  rw [listing_split h.blocks_eq, h.entries_eq, filterMap_append, filterMap_cons_some hbinding]
  simp

/-- What is found is a record with the name. -/
theorem nsFind_eq_ok (hn : 0 < n) (hlinear : d.indexed = false) {name : CString}
    (h : f.nsFind access index d name = .ok position) :
    Nonempty (f.Located d.blocks 0 name.bytes position) := by
  rw [nsFind] at h
  split at h
  · cases h
  rw [hlinear, if_neg (by simp), bind_eq_ok] at h
  obtain ⟨found, hfound, h⟩ := h
  cases found with
  | none => cases h
  | some other =>
    cases h
    rcases findInBlocks_eq_some hn hfound with hnone | hlocated
    · cases hnone
    · exact hlocated

theorem lookup_of_located (hchecked : d.Checked f) (h : f.Located d.blocks 0 name position) :
    d.lookup f name = some (position.number, position.type) := by
  obtain ⟨front, back, hlisting, -⟩ := Located.listing_eq h
  rw [Directory.lookup, bindings_eq_some hchecked.names, hlisting]
  simp

/-- The search finds the name if the directory has it, and says so if it does not. -/
theorem nsFind_complete (hn : 0 < n) (hlinear : d.indexed = false) (hchecked : d.Checked f)
    (hread : ∀ i, access.read i = none) {name : CString} (hempty : name.bytes ≠ [])
    (hshort : name.bytes.length ≤ 255) :
    (∀ value, d.lookup f name.bytes = some value → ∃ position,
        f.nsFind access index d name = .ok position ∧ (position.number, position.type) = value) ∧
      (d.lookup f name.bytes = none → f.nsFind access index d name = .error .enoent) := by
  have hcount : (d.blocks.flatMap f.entries).countP (·.Named name.bytes) =
      ((d.listing f).map Prod.fst).count name.bytes := countP_named _ _
  have honce := nodup_iff_count_le_one.mp hchecked.names name.bytes
  obtain ⟨result, hresult, hlength⟩ := @findInBlocks_ok n f access hn name.bytes d.blocks 0 none hread
    hchecked.blocks (by rw [hcount]; simpa using honce)
  rw [hcount, Option.toList_none, length_nil, Nat.zero_add] at hlength
  have hfind : f.nsFind access index d name = result.elim (.error .enoent) .ok := by
    rw [nsFind, if_neg (by simp [hempty, hshort]), hlinear, if_neg (by simp), hresult]
    cases result <;> rfl
  constructor
  · intro value hvalue
    have hmem : name.bytes ∈ (d.listing f).map Prod.fst :=
      mem_map_of_mem (f := Prod.fst) (mem_of_bindings hvalue)
    have hpositive := count_pos_iff.mpr hmem
    cases result with
    | none =>
      rw [← hlength] at hpositive
      cases hpositive
    | some position =>
      obtain ⟨hlocated⟩ := nsFind_eq_ok hn hlinear hfind
      have hlookup := lookup_of_located hchecked hlocated
      exact ⟨position, hfind, Option.some.inj (hlookup.symm.trans hvalue)⟩
  · intro hnone
    have hzero := count_eq_zero.mpr (bindings_eq_none.mp hnone)
    cases result with
    | none => exact hfind
    | some position =>
      rw [hzero] at hlength
      cases hlength

theorem indexed_convert (flags : Nat) : (flags ||| 0x1000) &&& 0x1000 ≠ 0 := by
  intro h
  have hbit := congrArg (Nat.testBit · 12) h
  rw [Nat.testBit_and, Nat.testBit_or, show Nat.testBit 0x1000 12 = true from rfl] at hbit
  simp at hbit

section

variable (hn : BlockSize n)
include hn

/-- An insertion into a checked directory fails without a change or binds the name. -/
theorem nsInsert_updates (hlinear : d.indexed = false) (hchecked : d.Checked f)
    (hrooted : d.Rooted f) {name : CString} {child : UInt32} {type : UInt8} (hchild : child ≠ 0)
    (hknown : child.toNat ≤ f.inodeCount) (hkind : type ≤ 7)
    (hfree : d.lookup f name.bytes = none)
    (h : f.nsInsert access index d name child type = .ok d') (hlinear' : d'.indexed = false) :
    Updates f d d' name.bytes (some (child.toNat, if f.fileType then type else 0)) := by
  have hbounds := hn.bounds
  rw [nsInsert, bind_eq_ok] at h
  obtain ⟨_, hname, h⟩ := h
  have hstorable : f.Storable name child type := ⟨hname, hchild, hknown, hkind⟩
  obtain ⟨-, hshort, -, -, -⟩ := nameLength_eq_ok hname
  have hneeded := recordSize_bounds hshort
  rw [hlinear, if_neg (by simp), bind_eq_ok] at h
  obtain ⟨selected, hselected, h⟩ := h
  cases selected with
  | some selected =>
    obtain ⟨logical, slack⟩ := selected
    obtain ⟨_, -, h⟩ := bind_eq_ok.mp h
    cases h
    obtain ⟨before, block, after, pre, entry, post, hblocks, hlogical, hcheck, hentries, rfl, hroom⟩ :=
      selectBlock_eq_some (by omega) hselected
    have htiles := tiles_of_check (by omega) hcheck
    rw [hentries] at htiles
    obtain ⟨edited, hedited, htiles'⟩ := tiles_splitRecord hbounds.2 hstorable htiles hroom
    obtain ⟨hcheck', hentries'⟩ := htiles'.sealed (by omega)
    rw [Nat.zero_add] at hlogical
    obtain rfl := hlogical
    rw [hblocks, modify_middle, hedited] at hlinear' ⊢
    have hlisting : d.listing f = ((before.flatMap f.entries).filterMap binding ++
          (pre.filterMap binding ++ [entry].filterMap binding)) ++
        (post.filterMap binding ++ (after.flatMap f.entries).filterMap binding) := by
      rw [listing_split hblocks, hentries, ← singleton_append]
      simp only [filterMap_append, append_assoc]
    have hlisting' : ({ d with blocks := before ++ f.directoryLeafSeal edited :: after } :
        Directory n).listing f =
        ((before.flatMap f.entries).filterMap binding ++
          (pre.filterMap binding ++ [entry].filterMap binding)) ++
        (name.bytes, child.toNat, if f.fileType then type else 0) ::
        (post.filterMap binding ++ (after.flatMap f.entries).filterMap binding) := by
      rw [listing_split rfl, hentries']
      simp only [filterMap_append, append_assoc, binding_keptEntries,
        filterMap_cons_some (binding_newEntry hchild), cons_append, nil_append]
    have hold := hchecked.blocks
    rw [hblocks, forall_mem_append, forall_mem_cons] at hold
    have hblocks' := forall_mem_append.mpr ⟨hold.1, forall_mem_cons.mpr ⟨hcheck', hold.2.2⟩⟩
    obtain ⟨hchecked', hlookup⟩ := checked_insert hchecked hfree hlisting hlisting' hblocks'
    refine ⟨hlookup, hchecked', hrooted.edit hblocks ?_, hlinear'⟩
    rw [hentries, hentries']
    exact keepsRoot_insert (by omega) hroom
  | none =>
    simp only at h
    split at h
    · obtain ⟨converted, -, h⟩ := bind_eq_ok.mp h
      cases h
      simp [Directory.indexed, indexed_convert] at hlinear'
    split at h
    · cases h
    obtain ⟨fresh, -, h⟩ := bind_eq_ok.mp h
    obtain ⟨_, -, h⟩ := bind_eq_ok.mp h
    cases h
    have hlimit : f.leafLimit n % 4 = 0 ∧ 1012 ≤ f.leafLimit n := by
      rw [leafLimit]
      rcases hn with rfl | rfl | rfl <;> split <;> decide
    have htiles : f.Tiles (f.putEntry fresh 0 (f.leafLimit n) child.toNat name.bytes type) 0
        [f.newEntry 0 (f.leafLimit n) name child type] (f.leafLimit n) := by
      have := @tiles_putEntry n f fresh name child type 0 (f.leafLimit n) hstorable hbounds.2
        (by omega) hlimit.1 (by omega)
      rwa [Nat.zero_add] at this
    obtain ⟨hcheck', hentries'⟩ := htiles.sealed (by omega)
    have hlisting : d.listing f = d.listing f ++ [] := by simp
    have hlisting' : ({ d with blocks := d.blocks ++ [f.directoryLeafSeal (f.putEntry fresh 0
        (f.leafLimit n) child.toNat name.bytes type)] } : Directory n).listing f =
        d.listing f ++ (name.bytes, child.toNat, if f.fileType then type else 0) :: [] := by
      rw [listing, listing, flatMap_append, flatMap_singleton, hentries',
        filterMap_append, filterMap_cons_some (binding_newEntry hchild),
        filterMap_nil]
    have hblocks' := forall_mem_append.mpr ⟨hchecked.blocks, forall_mem_singleton.mpr hcheck'⟩
    obtain ⟨hchecked', hlookup⟩ := checked_insert hchecked hfree hlisting hlisting' hblocks'
    obtain ⟨first, rest, dotdot, tail, hfirst, hroot⟩ := hrooted
    exact ⟨hlookup, hchecked', ⟨first, rest ++ _, dotdot, tail, by simp [hfirst]; rfl, hroot⟩, hlinear'⟩

/-- A removal fails without a change or unbinds the name. -/
theorem nsRemove_updates (hlinear : d.indexed = false) (hchecked : d.Checked f)
    (hrooted : d.Rooted f) (hlocated : f.Located d.blocks 0 name position) (hdot : name ≠ [0x2e])
    (hdotdot : name ≠ [0x2e, 0x2e]) :
    ∃ edited, (f.nsRemove access d position = attempt (access.edit position.block) >>= fun _ =>
        .ok { d with blocks := d.blocks.set position.block edited }) ∧
      Updates f d { d with blocks := d.blocks.set position.block edited } name none := by
  have hbounds := hn.bounds
  obtain ⟨-, -, hlisting, rfl, rfl⟩ := Located.listing_eq hlocated
  obtain ⟨before, block, after, pre, entry, post, hblocks, hcheck, hentries, hnamed, hposition⟩ :=
    hlocated
  have htiles := tiles_of_check (by omega) hcheck
  rw [hentries] at htiles
  obtain ⟨edited, hedited, htiles'⟩ :=
    @clearRecord_of_located n f block pre post entry (0 + before.length) hbounds.2 htiles
  obtain ⟨hcheck', hentries'⟩ := htiles'.sealed (by omega)
  have hblock : position.block = before.length := by
    rw [hposition]
    exact Nat.zero_add _
  have hget : d.blocks[position.block]? = some block := by
    rw [hblocks, hblock]
    simp
  have hset : d.blocks.set position.block (f.directoryLeafSeal edited) =
      before ++ f.directoryLeafSeal edited :: after := by
    rw [hblocks, hblock]
    simp
  refine ⟨f.directoryLeafSeal edited, ?_, ?_⟩
  · rw [nsRemove, hget]
    simp only
    rw [hposition, hedited]
    rfl
  rw [hset]
  have hlisting' : ({ d with blocks := before ++ f.directoryLeafSeal edited :: after } :
      Directory n).listing f =
      ((before.flatMap f.entries).filterMap binding ++ pre.filterMap binding) ++
      (post.filterMap binding ++ (after.flatMap f.entries).filterMap binding) := by
    rw [listing_split rfl, hentries', binding_removeEntry]
    simp
  have hold := hchecked.blocks
  rw [hblocks, forall_mem_append, forall_mem_cons] at hold
  have hblocks' := forall_mem_append.mpr ⟨hold.1, forall_mem_cons.mpr ⟨hcheck', hold.2.2⟩⟩
  obtain ⟨hchecked', hlookup⟩ := checked_remove hchecked hlisting hlisting' hblocks'
  refine ⟨hlookup, hchecked', hrooted.edit hblocks ?_, hlinear⟩
  rw [hentries, hentries']
  exact keepsRoot_remove (hnamed.2 ▸ hdot) (hnamed.2 ▸ hdotdot)

theorem rooted_of_rootRecords {rest : List (Block n)}
    (hblocks : d.blocks = block :: rest) (hcheck : f.directoryLeafCheck block = .ok ())
    (h : f.rootRecords block = true) : d.Rooted f := by
  have hbounds := hn.bounds
  have htiles := tiles_of_check (by omega) hcheck
  have hlimit : 1012 ≤ f.leafLimit n := by
    rw [leafLimit]
    split <;> omega
  simp only [rootRecords, Bool.and_eq_true, beq_iff_eq, bne_iff_ne] at h
  obtain ⟨⟨⟨⟨⟨⟨⟨⟨⟨⟨⟨⟨⟨hself, hrecord⟩, hsize⟩, hdot⟩, htype⟩, hparent⟩, -⟩, -⟩, hsize'⟩, hdotdot⟩,
    hdotdot'⟩, -⟩, -⟩, -⟩ := h
  have hfirst : f.entryAt block 0 = ⟨0, 12, f.inode, [0x2e], if f.fileType then 2 else 0⟩ := by
    rw [entryAt, hself, hrecord, hsize]
    simp only [Block.slice_one, hdot]
    split
    next htyped => simpa [htyped] using htype
    · rfl
  obtain ⟨more, hlist, hmore⟩ := htiles.exists_cons (by omega)
  rw [hfirst] at hlist hmore
  obtain ⟨tail, rfl, -⟩ := hmore.exists_cons (by simp only; omega)
  refine ⟨block, rest, _, tail, hblocks, hlist, ?_, hparent⟩
  simp only [entryAt, hsize', Block.slice_two, hdotdot, hdotdot']

/-- What `ns_directory` accepts has its two records in place. -/
theorem rooted_of_nsDirectory (hlinear : d.indexed = false)
    (h : f.nsDirectory access index d = .ok ()) : d.Rooted f := by
  rw [nsDirectory] at h
  iterate 4
    split at h
    · cases h
  split at h
  · cases h
  next block rest hblocks =>
    rw [hlinear, if_neg (by simp)] at h
    split at h
    · cases h
    obtain ⟨_, hread, h⟩ := bind_eq_ok.mp h
    split at h
    next hroot => exact rooted_of_rootRecords hn hblocks (nsReadBlock_eq_ok.mp hread).2 hroot
    · cases h

end

/-- A directory without an index, whose blocks are accepted and have no name twice, finds,
adds and removes names as a map does. `nsDirectory` has accepted it, so that there is no
room between its first two records; a name that is added stands for a known inode and type. -/
theorem linear_directory_refines_map (hn : BlockSize n)
    (hdirectory : f.nsDirectory access index d = .ok ()) (hlinear : d.indexed = false)
    (hchecked : d.Checked f) :
    (∀ name position, f.nsFind access index d name = .ok position →
      d.lookup f name.bytes = some (position.number, position.type)) ∧
    (∀ name : CString, (∀ i, access.read i = none) → name.bytes ≠ [] → name.bytes.length ≤ 255 →
      (∀ value, d.lookup f name.bytes = some value → ∃ position,
        f.nsFind access index d name = .ok position ∧ (position.number, position.type) = value) ∧
      (d.lookup f name.bytes = none → f.nsFind access index d name = .error .enoent)) ∧
    (∀ name (child : UInt32) (type : UInt8) d', child ≠ 0 → child.toNat ≤ f.inodeCount → type ≤ 7 →
      d.lookup f name.bytes = none → f.nsInsert access index d name child type = .ok d' →
      d'.indexed = false →
      Updates f d d' name.bytes (some (child.toNat, if f.fileType then type else 0))) ∧
    (∀ name position, f.nsFind access index d name = .ok position →
      name.bytes ≠ [0x2e] → name.bytes ≠ [0x2e, 0x2e] →
      (access.edit position.block = none → ∃ d', f.nsRemove access d position = .ok d') ∧
      ∀ d', f.nsRemove access d position = .ok d' → Updates f d d' name.bytes none) := by
  have hpositive : 0 < n := by
    have := hn.bounds
    omega
  have hrooted := rooted_of_nsDirectory hn hlinear hdirectory
  refine ⟨fun name position hfind => ?_,
    fun name hread hempty hshort => nsFind_complete hpositive hlinear hchecked hread hempty hshort,
    fun name child type d' hchild hknown hkind hfree hinsert hlinear' =>
      nsInsert_updates hn hlinear hchecked hrooted hchild hknown hkind hfree hinsert hlinear',
    fun name position hfind hdot hdotdot => ?_⟩
  · obtain ⟨hlocated⟩ := nsFind_eq_ok hpositive hlinear hfind
    exact lookup_of_located hchecked hlocated
  obtain ⟨hlocated⟩ := nsFind_eq_ok hpositive hlinear hfind
  obtain ⟨edited, hremove, hupdates⟩ :=
    nsRemove_updates hn hlinear hchecked hrooted hlocated hdot hdotdot
  constructor
  · intro hedit
    exact ⟨_, hremove.trans (by rw [hedit]; rfl)⟩
  · intro d' h
    rw [hremove] at h
    obtain ⟨_, -, h⟩ := bind_eq_ok.mp h
    cases h
    exact hupdates

section Small

def smallFormat : DirectoryFormat := ⟨12, by decide, 64, 0, false, true⟩

/-- An empty directory whose first record has this length. -/
def smallDirectory (record : Nat) : Directory 1024 where
  mode := 0o040755
  flags := 0
  links := 2
  blocks := [smallFormat.putEntry (smallFormat.putEntry Block.zeros 0 record 12 [0x2e] 2) record
    (1024 - record) 2 [0x2e, 0x2e] 2]

def working : DirectoryAccess 1024 := ⟨fun _ => none, fun _ => none, .ok Block.zeros⟩

def noIndex : DirectoryIndex 1024 where
  enabled := false
  validate _ := .error .euclean
  find _ _ := .error .euclean
  insert _ _ _ _ := .error .euclean
  convertAndInsert _ _ _ _ := .error .euclean

def shortName : CString := ⟨[0x61], by decide⟩

/-- The directory after the name is added. -/
def withName (record : Nat) : Directory 1024 :=
  { smallDirectory record with
    blocks := (smallDirectory record).blocks.modify 0 (smallFormat.splitRecord shortName 20 1
      (if record = 12 then ⟨12, 12, 1012⟩ else ⟨0, 12, record⟩)) }

variable {record : Nat}

theorem checked_smallDirectory (h : record = 12 ∨ record = 24) :
    (smallDirectory record).Checked smallFormat := by
  rcases h with rfl | rfl
  all_goals exact ⟨by decide +kernel, by decide +kernel⟩

theorem nsInsert_smallDirectory (h : record = 12 ∨ record = 24) :
    smallFormat.nsInsert working noIndex (smallDirectory record) shortName 20 1 =
      .ok (withName record) := by
  rcases h with rfl | rfl
  all_goals rfl

theorem linear_directory_refines_map_small :
    Updates smallFormat (smallDirectory 12) (withName 12) [0x61] (some (20, 1)) :=
  (linear_directory_refines_map (.inl rfl) (by decide +kernel) rfl
    (checked_smallDirectory (.inl rfl))).2.2.1 shortName 20 1 (withName 12) (by decide) (by decide)
    (by decide) (by decide +kernel) (nsInsert_smallDirectory (.inl rfl)) rfl

/-- The names of the first two records. -/
def firstNames (f : DirectoryFormat) (d : Directory n) : List (List UInt8) :=
  ((d.blocks.flatMap f.entries).take 2).map DirectoryEntry.name

/-- With room behind the name of the first record, a new name comes between the first two. -/
theorem nsInsert_between_dots : (smallDirectory 24).Checked smallFormat ∧
      firstNames smallFormat (smallDirectory 24) = [[0x2e], [0x2e, 0x2e]] ∧
      smallFormat.nsInsert working noIndex (smallDirectory 24) shortName 20 1 = .ok (withName 24) ∧
      firstNames smallFormat (withName 24) = [[0x2e], [0x61]] :=
  ⟨checked_smallDirectory (.inr rfl), by decide +kernel, nsInsert_smallDirectory (.inr rfl),
    by decide +kernel⟩

end Small

end Directory

end OpenXJ380.Ext4
