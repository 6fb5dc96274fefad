/-
  MfsMaster.Data.Lengths
  **THE LENGTH OF A FILE AND ITS CHUNK TABLE**, over every sequence of `fs_try_setlength`
  with `fs_do_setlength`, and of `fs_writeend`.

  A length is 64 bits wide, the number of a chunk 32.  `fsnodes_setlength` computes the
  number of chunks of a length as `uint32_t`, and only one of the three ways to a longer
  file tests that number:

      SetsLength             — what a successful call does to the one file it is about
      LengthSafe             — the condition on one call
      file_lengths_consistent — over runs of such calls: no file is longer than the last
                               chunk number allows, and the table follows the length
-/
import Mathlib
import MfsMaster.Data.OnlyChunks
import MfsMaster.Fs.Frame
import MfsMaster.Data.References

namespace MfsMaster

/-! ## §1. Lengths and numbers of chunks. -/

/-- `ceil(length/64MiB)`. -/
def chunksOf (length : UInt64) : Nat := (length.toNat + (2 ^ 26 - 1)) / 2 ^ 26

/-- `(MAX_INDEX+1)*64MiB`. -/
def maxLength : Nat := (maxIndex + 1) * 2 ^ 26

theorem maxLength_eq : maxLength = 2 ^ 57 := by decide

variable {length : UInt64} {n : FsNode} {i : Nat} {s : Master} {q : LengthRequest} {srv : Servers}
  {sys : System}

theorem toNat_pos (h : length ≠ 0) : 0 < length.toNat := by
  refine Nat.pos_of_ne_zero fun h0 => h ?_
  exact UInt64.toNat_inj.mp h0

theorem toNat_pred (h : length ≠ 0) : (length - 1).toNat = length.toNat - 1 := by
  have hle : (1 : UInt64) ≤ length := UInt64.le_iff_toNat_le.mpr (toNat_pos h)
  rw [UInt64.toNat_sub_of_le _ _ hle]
  rfl

/-- The number of the last chunk, as far as 32 bits go. -/
theorem lastIndex_toNat (h : length ≠ 0) :
    ((length - 1) >>> 26).toUInt32.toNat = (length.toNat - 1) / 2 ^ 26 % 2 ^ 32 := by
  have hshift : ((length - 1) >>> 26).toNat = (length - 1).toNat / 2 ^ 26 := by
    rw [UInt64.toNat_shiftRight]
    show (length - 1).toNat >>> (26 % 64) = _
    rw [Nat.shiftRight_eq_div_pow]
  rw [UInt64.toNat_toUInt32, hshift, toNat_pred h]

/-- Up to the longest file the number of chunks is the one meant. -/
theorem chunksForLength_eq (h : length.toNat ≤ maxLength) :
    Master.chunksForLength length = chunksOf length := by
  rw [maxLength_eq] at h
  unfold Master.chunksForLength chunksOf
  split
  next h0 =>
    rw [h0]
    rfl
  next h0 =>
  have hpos := toNat_pos h0
  rw [UInt32.toNat_add, lastIndex_toNat h0]
  show ((length.toNat - 1) / 2 ^ 26 % 2 ^ 32 + 1) % 2 ^ 32 = _
  omega

/-- The test of `fs_try_setlength` stops every length that is too long, as long as the number of
the last chunk has 32 bits. -/
theorem le_maxLength_of_lastIndex (h : length.toNat ≤ 2 * maxLength)
    (hidx : Master.lastIndex length ≤ maxIndex) : length.toNat ≤ maxLength := by
  rw [maxLength_eq] at h ⊢
  by_cases h0 : length = 0
  · rw [h0]
    exact Nat.zero_le _
  have hpos := toNat_pos h0
  have hlt : 0 < length := UInt64.pos_iff_ne_zero.mpr h0
  unfold Master.lastIndex Master.lastChunk at hidx
  rw [if_pos hlt] at hidx
  change ((length - 1) >>> 26).toUInt32.toNat ≤ maxIndex at hidx
  rw [lastIndex_toNat h0] at hidx
  change _ ≤ 0x7FFFFFFF at hidx
  omega

/-! ## §2. Files. -/

/-- The length and the chunk table of a file. -/
structure Extent where
  length : UInt64
  chunktab : List Nat
  deriving Repr, DecidableEq

variable {x : Extent} {t : Master} {copy : Nat}

namespace Extent

/-- An entry of the table, 0 beyond its end. -/
def entry (x : Extent) (indx : Nat) : Nat := x.chunktab.getD indx 0

/-- What `fsnodes_setlength` makes of a file. -/
def resize (length : UInt64) (x : Extent) : Extent :=
  ⟨length, x.chunktab.take (Master.chunksForLength length)⟩

/-- The table has no chunk beyond a length. -/
def Fits (x : Extent) (length : UInt64) : Prop := ∀ c ∈ x.chunktab.drop (chunksOf length), c = 0

instance (x : Extent) (length : UInt64) : Decidable (x.Fits length) :=
  inferInstanceAs (Decidable (∀ c ∈ x.chunktab.drop (chunksOf length), c = 0))

theorem Fits.entry_eq_zero (h : x.Fits length) {indx : Nat}
    (hle : chunksOf length ≤ indx) : x.entry indx = 0 := by
  unfold entry
  rw [List.getD_eq_getElem?_getD]
  cases hc : x.chunktab[indx]? with
  | none => rfl
  | some c =>
    have hmem : c ∈ x.chunktab.drop (chunksOf length) := by
      refine List.mem_of_getElem? (i := indx - chunksOf length) ?_
      rw [List.getElem?_drop, Nat.add_sub_cancel' hle]
      exact hc
    exact h c hmem

/-- **Below the longest length exactly the entries below the new end stay.** -/
theorem entry_resize (h : length.toNat ≤ maxLength) {indx : Nat} :
    (x.resize length).entry indx = if indx < chunksOf length then x.entry indx else 0 := by
  unfold resize entry
  rw [chunksForLength_eq h, List.getD_eq_getElem?_getD, List.getElem?_take]
  split
  · rw [List.getD_eq_getElem?_getD]
  · rfl

end Extent

def FsNode.extent (n : FsNode) : Option Extent :=
  if n.type.hasData then some ⟨n.length, n.chunktab⟩ else none

theorem FsNode.extent_of_hasData (h : n.type.hasData = true) :
    n.extent = some ⟨n.length, n.chunktab⟩ := if_pos h

theorem Kept.extent {b : Bool} {n' : FsNode} (h : Kept b n n') : n'.extent = n.extent := by
  unfold FsNode.extent
  rw [h.type, h.length, h.chunktab]

namespace Master

/-- The length and the table of the node `i`, if it is a file. -/
def extentAt (s : Master) (i : Nat) : Option Extent := (s.nodes i).bind FsNode.extent

theorem extentAt_of_nodes (h : t.nodes = s.nodes) (i : Nat) : t.extentAt i = s.extentAt i := by
  unfold extentAt
  rw [h]

theorem extentAt_some (hn : s.nodes i = some n)
    (hd : n.type.hasData = true) : s.extentAt i = some ⟨n.length, n.chunktab⟩ := by
  unfold extentAt
  rw [hn]
  exact FsNode.extent_of_hasData hd

theorem extentAt_none (hn : s.nodes i = some n) (hd : ¬ n.type.hasData = true) :
    s.extentAt i = none := by
  unfold extentAt
  rw [hn]
  exact if_neg hd

theorem NodesKept.extentAt {ds : List Nat} (h : NodesKept ds s t) (i : Nat) :
    t.extentAt i = s.extentAt i := by
  unfold Master.extentAt
  cases hs : s.nodes i with
  | none => rw [(h i).none hs]
  | some n =>
    obtain ⟨n', hn', hk⟩ := (h i).some hs
    rw [hn', Option.bind_some, Option.bind_some, hk.extent]

theorem extentAt_modNode {j : Nat} {f : FsNode → FsNode} : (s.modNode i f).extentAt j
      = if j = i then (s.nodes j).bind fun n => (f n).extent else s.extentAt j := by
  unfold extentAt
  rw [modNode_nodes]
  split
  · rw [Option.bind_map]
    rfl
  · rfl

/-- The one file `i` gets the length, and nothing else happens to files. -/
def SetsLength (i : Nat) (length : UInt64) (s t : Master) : Prop :=
  ∀ j, t.extentAt j = if j = i then (s.extentAt j).map (Extent.resize length) else s.extentAt j

theorem SetsLength.congr {u : Master} (h : SetsLength i length s t)
    (hu : ∀ j, u.extentAt j = t.extentAt j) : SetsLength i length s u :=
  fun j => (hu j).trans (h j)

theorem setsLength_none (h : s.extentAt i = none) : SetsLength i length s s := by
  intro j
  split
  next hj =>
    rw [hj, h]
    rfl
  · rfl

theorem setsLength_fsnodesSetlength (s : Master) (i : Nat) (length : UInt64) :
    SetsLength i length s (s.fsnodesSetlength i length) := by
  unfold fsnodesSetlength
  cases hn : s.nodes i with
  | none => exact setsLength_none (by rw [extentAt, hn]; rfl)
  | some n =>
    dsimp only
    split
    next hd => exact setsLength_none (extentAt_none hn (by simpa using hd))
    next hd =>
      intro j
      have hd : n.type.hasData = true := by simpa using hd
      -- statistics and chunks aside, the node gets a length and a shorter table
      have hnodes : ((s.modNode i (.setLength length)).deleteFiles n.sclassid
          (n.chunktab.drop (chunksForLength length))).nodes
          = (s.modNode i (.setLength length)).nodes :=
        (onChunks_frame (fun t c => (chunkDeleteFileInt t c n.sclassid).2) _ _).1
      have hset : ∀ t : Master, t.nodes = (((s.modNode i (.setLength length)).deleteFiles n.sclassid
          (n.chunktab.drop (chunksForLength length))).modNode i
            (.setChunktab (n.chunktab.take (chunksForLength length)))).nodes →
          (t.modNode i .clearSnapshot).extentAt j
            = if j = i then (s.extentAt j).map (Extent.resize length) else s.extentAt j := by
        intro t ht
        rw [extentAt_modNode]
        split
        next hj =>
          subst hj
          rw [ht, modNode_nodes, if_pos rfl, hnodes, modNode_nodes, if_pos rfl, hn,
            extentAt_some hn hd]
          show ((n.setLength length).setChunktab _).clearSnapshot.extent = _
          exact FsNode.extent_of_hasData hd
        next hj =>
          unfold extentAt
          rw [ht, modNode_nodes, if_neg hj, hnodes, modNode_nodes, if_neg hj]
      exact hset _ rfl

end Master

/-! ## §3. Calls. -/

namespace System

open Master (SetsLength NewChunks)

variable {inode chunkid : Nat}

/-- **`fs_do_setlength`** leaves the files alone or sets the length of the one it found; with
`UPDATE` only to a longer one. -/
theorem fsDoSetlength_extents {ses : Session} {flags : UInt8} :
    (∀ j, (sys.fsDoSetlength srv ses inode flags length).2.fs.extentAt j = sys.fs.extentAt j)
      ∨ ∃ p, sys.fs.nodeFindOpened ses (hasBit flags truncateFlagOpened) inode = some p
        ∧ hasBit flags truncateFlagReserve = false
        ∧ (hasBit flags truncateFlagUpdate = true → p.2.length < length)
        ∧ SetsLength p.1 length sys.fs (sys.fsDoSetlength srv ses inode flags length).2.fs := by
  unfold fsDoSetlength
  cases hfind : sys.fs.nodeFindOpened ses (hasBit flags truncateFlagOpened) inode with
  | none => exact .inl fun _ => rfl
  | some p =>
    obtain ⟨i, n⟩ := p
    have hset := Master.setsLength_fsnodesSetlength sys.fs i length
    dsimp only
    split
    · exact .inl fun _ => rfl
    next hres =>
    have hres : hasBit flags truncateFlagReserve = false := by simpa using hres
    split
    next hupd =>
      split
      next hlt => exact .inr ⟨(i, n), rfl, hres, fun _ => hlt, hset⟩
      · exact .inl fun _ => rfl
    next hupd =>
      refine .inr ⟨(i, n), rfl, hres, fun h => absurd h hupd, ?_⟩
      exact hset.congr (Master.touched_touchData _ i srv.now _).kept.extentAt

theorem extentAt_chunkUnlock {j : Nat} :
    (sys.chunkUnlock srv chunkid).2.fs.extentAt j = sys.fs.extentAt j :=
  Master.extentAt_of_nodes onlyChunks_chunkUnlock.newChunks.nodes j

/-- **`fs_writeend`** leaves the files alone or makes the one it is about longer. -/
theorem fsWriteend_extents {canmodtime : Bool} :
    (∀ j, (sys.fsWriteend srv inode length chunkid canmodtime).2.fs.extentAt j
        = sys.fs.extentAt j)
      ∨ ∃ n, sys.fs.nodes inode = some n ∧ n.type.hasData = true ∧ n.length < length
        ∧ SetsLength inode length sys.fs
          (sys.fsWriteend srv inode length chunkid canmodtime).2.fs := by
  unfold fsWriteend
  split
  · exact .inl fun _ => rfl
  next sys' hlen =>
  have hunlock : ∀ j, ((sys'.changelog (.unlock srv.now chunkid)).chunkUnlock srv
      chunkid).2.fs.extentAt j = sys'.fs.extentAt j := fun j => extentAt_chunkUnlock
  rcases writeend_cases hlen with rfl | ⟨n, hn, hd, hlt, rfl⟩
  · exact .inl hunlock
  refine .inr ⟨n, hn, hd, hlt, ?_⟩
  refine (Master.setsLength_fsnodesSetlength sys.fs inode length).congr fun j => ?_
  exact (hunlock j).trans
    ((Master.touched_touchData _ inode srv.now canmodtime).kept.extentAt j)

/-- What the tests of `fs_try_setlength` let through to a change of the length. -/
theorem lengthCheck_some (h : sys.lengthCheck q = .ok (i, n, some length)) :
    length = q.length ∧ sys.fs.nodeFindOpened q.session (hasBit q.flags truncateFlagOpened) q.inode
        = some (i, n)
      ∧ n.type.hasData = true ∧ hasBit q.flags truncateFlagUpdate = false
      ∧ hasBit q.flags truncateFlagReserve = false
      ∧ (n.length < q.length → Master.lastIndex q.length ≤ maxIndex) := by
  simp only [lengthCheck, except_bind_eq_ok, require_eq_ok, refuse_eq_ok, exists_const] at h
  obtain ⟨_, p, hp, _, _, _, hd, h⟩ := h
  split at h
  · cases h
  next hupd =>
  simp only [except_bind_eq_ok, refuse_eq_ok, exists_const] at h
  obtain ⟨_, _, _, hidx, _, h⟩ := h
  have hres : hasBit q.flags truncateFlagReserve = false := by
    cases hr : hasBit q.flags truncateFlagReserve with
    | false => rfl
    | true =>
      rw [hr] at h
      cases h
  rw [hres] at h hidx
  cases h
  refine ⟨rfl, hp, by simpa using hd, by simpa using hupd, hres, fun hlt => ?_⟩
  simpa [hlt] using hidx

theorem lengthCheck_plain {p : Nat × FsNode × Option UInt64}
    (h : sys.lengthCheck q = .ok p) (hupd : hasBit q.flags truncateFlagUpdate = false)
    (hres : hasBit q.flags truncateFlagReserve = false) : p.2.2 = some q.length := by
  simp only [lengthCheck, except_bind_eq_ok, require_eq_ok, refuse_eq_ok, exists_const] at h
  obtain ⟨_, p', _, _, _, _, _, h⟩ := h
  rw [hupd, hres, if_neg Bool.false_ne_true] at h
  simp only [except_bind_eq_ok, refuse_eq_ok, exists_const] at h
  obtain ⟨_, _, _, _, _, h⟩ := h
  cases h
  rfl

theorem errorsIn_lengthCheck :
    ErrorsIn [.erofs, .enoent, .eperm, .eacces, .indextoobig, .quota] (sys.lengthCheck q) := by
  repeat first
    | exact errorsIn_pure
    | exact errorsIn_refuse (by decide)
    | exact errorsIn_require (by decide)
    | refine errorsIn_bind ?_ fun _ => ?_
    | split

/-- The chunk that a new end lies in. -/
def cutIndex (length : UInt64) : Nat := (length >>> 26).toUInt32.toNat

/-- **`fs_try_setlength`** leaves the nodes alone, or puts a copy of the chunk of the new end in
its place and answers `DELAYED`. -/
theorem fsTrySetlength_spec (hidle : sys.truncateIdle srv q = true) :
    (NewChunks sys.fs (sys.fsTrySetlength srv q).2.fs
        ∧ ((sys.fsTrySetlength srv q).1.status = .delayed →
          ∃ i n, sys.lengthCheck q = .ok (i, n, some q.length))
        ∧ ((sys.fsTrySetlength srv q).1.status = .ok → ∃ p, sys.lengthCheck q = .ok p))
      ∨ ∃ i n c, sys.lengthCheck q = .ok (i, n, some q.length)
        ∧ (sys.fsTrySetlength srv q).1.status = .delayed
        ∧ 0 < entryAt n (cutIndex q.length)
        ∧ (c = entryAt n (cutIndex q.length) ∨ c = sys.fs.nextchunkid)
        ∧ ∀ j, (sys.fsTrySetlength srv q).2.fs.extentAt j
          = if j = i then some ⟨n.length, n.chunktab.set (cutIndex q.length) c⟩
            else sys.fs.extentAt j := by
  unfold truncateIdle at hidle
  unfold fsTrySetlength
  have hrefl := (Master.OnlyChunks.refl sys.fs).newChunks
  split
  next st hcheck =>
    have hst := errorsIn_lengthCheck st hcheck
    refine .inl ⟨hrefl, fun hdelayed => ?_, fun hok => ?_⟩
    · exact absurd ((show st = Status.delayed from hdelayed) ▸ hst) (by decide)
    · exact absurd ((show st = Status.ok from hok) ▸ hst) (by decide)
  next p hcheck => exact .inl ⟨hrefl, nofun, fun _ => ⟨_, hcheck⟩⟩
  next i n length hcheck =>
    rw [hcheck] at hidle
    obtain ⟨rfl, hfind, hd, _⟩ := lengthCheck_some hcheck
    have hn := (lengthCheck_ok hcheck).1
    dsimp only at hidle ⊢
    split
    next hcut =>
      have hframe := chunkMultiTruncate_frame hidle n.sclassid
      generalize sys.chunkMultiTruncate srv (entryAt n (q.length >>> 26).toUInt32.toNat)
        n.sclassid = r at hframe ⊢
      split
      · exact .inl ⟨hframe.1, fun _ => ⟨i, n, hcheck⟩, fun _ => ⟨_, hcheck⟩⟩
      next c op hr =>
      refine .inr ⟨i, n, c, hcheck, rfl, hcut.2.2, hframe.2 c op hr, fun j => ?_⟩
      show (r.1.fs.modNode i fun n => n.setChunktab (n.chunktab.set _ c)).extentAt j = _
      rw [Master.extentAt_modNode, hframe.1.nodes]
      split
      next hj =>
        rw [hj, hn]
        exact FsNode.extent_of_hasData hd
      · exact Master.extentAt_of_nodes hframe.1.nodes j
    · exact .inl ⟨hrefl, fun _ => ⟨i, n, hcheck⟩, fun _ => ⟨_, hcheck⟩⟩

theorem swchunks_fsTrySetlength (sys : System) (srv : Servers) (q : LengthRequest) :
    (sys.fsTrySetlength srv q).2.swchunks ⊆ sys.swchunks := by
  unfold fsTrySetlength
  split
  · exact List.Subset.refl _
  · exact List.Subset.refl _
  next i n length hcheck =>
  dsimp only
  split
  · have hsub := swchunks_changeChunk sys srv .truncate false
      (entryAt n (length >>> 26).toUInt32.toNat) n.sclassid
    change (sys.chunkMultiTruncate srv (entryAt n (length >>> 26).toUInt32.toNat)
      n.sclassid).1.swchunks ⊆ sys.swchunks at hsub
    generalize sys.chunkMultiTruncate srv (entryAt n (length >>> 26).toUInt32.toNat)
      n.sclassid = r at hsub ⊢
    split <;> exact hsub
  · exact List.Subset.refl _

/-! ## §4. Sequences of calls. -/

/-- A call that changes lengths: `fs_try_setlength` followed by `fs_do_setlength` at once or when
the chunk servers have answered (`finish`), and `fs_writeend`. -/
inductive LengthCall where
  | setlength (srv : Servers) (client : Nat) (q : LengthRequest)
  | finish (srv : Servers) (w : SwChunk)
  | writeend (srv : Servers) (inode : Nat) (length : UInt64) (chunkid : Nat) (canmodtime : Bool)

/-- One call. -/
def lengthStep (sys : System) : LengthCall → System
  | .setlength srv client q => (sys.fuseTruncate srv client q).2
  | .finish srv w =>
    if w ∈ sys.swchunks ∧ w.type = .truncate then
      ({ sys with swchunks := sys.swchunks.erase w } : System).answerRequest srv w .ok
    else sys
  | .writeend srv inode length chunkid canmodtime =>
    (sys.fsWriteend srv inode length chunkid canmodtime).2

/-- The chunk that a truncation puts a copy in the place of. -/
def LengthCall.cut : LengthCall → Option Nat
  | .setlength _ _ q => some (cutIndex q.length)
  | _ => none

/-- A file that gets the length: if that is not shorter, no chunk lies beyond it. -/
def NothingBeyond (n : FsNode) (length : UInt64) : Prop :=
  n.length ≤ length → Extent.Fits ⟨n.length, n.chunktab⟩ length

instance (n : FsNode) (length : UInt64) : Decidable (NothingBeyond n length) :=
  inferInstanceAs (Decidable (n.length ≤ length → Extent.Fits ⟨n.length, n.chunktab⟩ length))

/-- **The condition on a call.**  The length is one whose last chunk has a number of 32 bits, for
`UPDATE` and `fs_writeend` one that a file may have; what does not shorten the file finds no chunk
beyond the new end; and no other request is interrupted. -/
def LengthSafe (sys : System) : LengthCall → Prop
  | .setlength srv _ q =>
    sys.truncateIdle srv q = true
      ∧ (hasBit q.flags truncateFlagReserve = false →
        ∀ p ∈ sys.fs.nodeFindOpened q.session (hasBit q.flags truncateFlagOpened) q.inode,
          (if hasBit q.flags truncateFlagUpdate then
            p.2.length < q.length → q.length.toNat ≤ maxLength
          else q.length.toNat ≤ 2 * maxLength)
            ∧ NothingBeyond p.2 q.length)
  | .finish _ w =>
    ∀ p ∈ sys.fs.nodeFindOpened w.session (hasBit w.flags truncateFlagOpened) w.inode,
      NothingBeyond p.2 w.fleng
  | .writeend _ inode length _ _ =>
    ∀ n ∈ sys.fs.nodes inode, n.length < length →
      length.toNat ≤ maxLength ∧ NothingBeyond n length

instance LengthSafe.decidable (sys : System) : (e : LengthCall) → Decidable (sys.LengthSafe e)
  | .setlength .. => inferInstanceAs (Decidable (_ ∧ (_ → ∀ p ∈ _, _)))
  | .finish .. => inferInstanceAs (Decidable (∀ p ∈ _, _))
  | .writeend .. => inferInstanceAs (Decidable (∀ n ∈ _, _ → _))

/-- No file is longer than its chunks can be numbered, and no truncation that waits would make it
so. -/
structure LengthsBounded (sys : System) : Prop where
  files : ∀ i x, sys.fs.extentAt i = some x → x.length.toNat ≤ maxLength
  waiting : ∀ w ∈ sys.swchunks, w.type = .truncate → w.fleng.toNat ≤ maxLength

/-- **The table follows the length.**  A file that does not get shorter keeps its entries, but for
a chunk `cut` that became the copy `copy`; a shorter one keeps exactly those below its new end. -/
structure Follows (cut : Option Nat) (copy : Nat) (x y : Extent) : Prop where
  keeps : x.length ≤ y.length →
    ∀ indx, y.entry indx = x.entry indx ∨ cut = some indx ∧ 0 < x.entry indx ∧ y.entry indx = copy
  shrinks : y.length < x.length →
    ∀ indx, y.entry indx = if indx < chunksOf y.length then x.entry indx else 0

theorem Follows.refl {cut : Option Nat} : Follows cut copy x x where
  keeps := fun _ _ => .inl rfl
  shrinks := fun h => absurd h (UInt64.lt_irrefl _)

theorem follows_resize (hmax : length.toNat ≤ maxLength) (hfits : x.length ≤ length → x.Fits length)
    {cut : Option Nat} : Follows cut copy x (x.resize length) where
  keeps := by
    intro hle indx
    left
    rw [Extent.entry_resize hmax]
    split
    · rfl
    next hge => exact ((hfits hle).entry_eq_zero (Nat.le_of_not_lt hge)).symm
  shrinks := fun _ indx => Extent.entry_resize hmax

/-- No file is longer than its chunks can be numbered. -/
def FilesBounded (s : Master) : Prop :=
  ∀ j x, s.extentAt j = some x → x.length.toNat ≤ maxLength

/-- Every table follows its length from `s` to `t`. -/
def FilesFollow (cut : Option Nat) (copy : Nat) (s t : Master) : Prop :=
  ∀ j x y, s.extentAt j = some x → t.extentAt j = some y → Follows cut copy x y

/-- What one call does to the files: nothing, or one of them gets a length. -/
theorem follows_of_setsLength
    (h : SetsLength i length s t) (hn : s.nodes i = some n) (hd : n.type.hasData = true)
    (hbounded : FilesBounded s) (hmax : length.toNat ≤ maxLength)
    (hfits : NothingBeyond n length) {cut : Option Nat} :
    FilesBounded t ∧ FilesFollow cut copy s t := by
  have hx := Master.extentAt_some hn hd
  refine ⟨fun j y hy => ?_, fun j x y hsx hty => ?_⟩
  · rw [h j] at hy
    split at hy
    next hj =>
      rw [hj, hx] at hy
      cases hy
      exact hmax
    · exact hbounded j y hy
  · rw [h j] at hty
    split at hty
    next hj =>
      rw [hj, hx] at hsx
      cases hsx
      rw [hj, hx] at hty
      cases hty
      exact follows_resize (x := ⟨n.length, n.chunktab⟩) hmax hfits
    · rw [hsx] at hty
      cases hty
      exact .refl

/-- A length that is not set, or set within the limits: the common end of all calls. -/
theorem follows_of_same (h : ∀ j, t.extentAt j = s.extentAt j) (hbounded : FilesBounded s)
    (cut : Option Nat) (copy : Nat) : FilesBounded t ∧ FilesFollow cut copy s t := by
  refine ⟨fun j y hy => hbounded j y (h j ▸ hy), fun j x y hx hy => ?_⟩
  rw [h j, hx] at hy
  cases hy
  exact .refl

/-- `fs_do_setlength` with a length within the limits. -/
theorem follows_fsDoSetlength (srv : Servers) (ses : Session) (inode : Nat)
    (flags : UInt8) (length : UInt64) (hbounded : FilesBounded sys.fs)
    (hsafe : hasBit flags truncateFlagReserve = false →
      ∀ p ∈ sys.fs.nodeFindOpened ses (hasBit flags truncateFlagOpened) inode,
        (hasBit flags truncateFlagUpdate = true → p.2.length < length) →
        length.toNat ≤ maxLength ∧ NothingBeyond p.2 length) (cut : Option Nat) (copy : Nat) :
    FilesBounded (sys.fsDoSetlength srv ses inode flags length).2.fs
      ∧ FilesFollow cut copy sys.fs (sys.fsDoSetlength srv ses inode flags length).2.fs := by
  rcases fsDoSetlength_extents with hsame | ⟨p, hp, hres, hupd, hset⟩
  · exact follows_of_same hsame hbounded cut copy
  obtain ⟨hmax, hfits⟩ := hsafe hres p hp hupd
  have hn := nodeFindOpened_node hp
  by_cases hd : p.2.type.hasData = true
  · exact follows_of_setsLength hset hn hd hbounded hmax hfits
  -- not a file: there is no length to set
  refine follows_of_same (fun j => ?_) hbounded cut copy
  rw [hset j]
  split
  next hj =>
    rw [hj, Master.extentAt_none hn hd]
    rfl
  · rfl

/-- A truncation that was let through asks for a length that a file may have. -/
theorem le_maxLength_of_lengthCheck (h : sys.LengthsBounded)
    (hcheck : sys.lengthCheck q = .ok (i, n, some q.length))
    (hlen : q.length.toNat ≤ 2 * maxLength) : q.length.toNat ≤ maxLength := by
  obtain ⟨_, hfind, hd, _, _, hidx⟩ := lengthCheck_some hcheck
  by_cases hlt : n.length < q.length
  · exact le_maxLength_of_lastIndex hlen (hidx hlt)
  have hle : q.length ≤ n.length := UInt64.not_lt.mp hlt
  have hn : n.length.toNat ≤ maxLength :=
    h.files i _ (Master.extentAt_some (nodeFindOpened_node hfind) hd)
  exact Nat.le_trans (UInt64.le_iff_toNat_le.mp hle) hn

theorem setlength_follows (h : sys.LengthsBounded)
    {client : Nat} (hsafe : sys.LengthSafe (.setlength srv client q)) :
    (sys.fuseTruncate srv client q).2.LengthsBounded
      ∧ FilesFollow (some (cutIndex q.length)) sys.fs.nextchunkid sys.fs
        (sys.fuseTruncate srv client q).2.fs := by
  obtain ⟨hidle, hsafe⟩ := hsafe
  have hwait := swchunks_fsTrySetlength sys srv q
  have hspec := fsTrySetlength_spec hidle
  -- a request of this length may wait
  have hlength : ∀ i n, sys.lengthCheck q = .ok (i, n, some q.length) →
      q.length.toNat ≤ maxLength := by
    intro i n hcheck
    obtain ⟨_, hfind, _, hupd, hres, _⟩ := lengthCheck_some hcheck
    have hlen := (hsafe hres _ hfind).1
    rw [hupd, if_neg Bool.false_ne_true] at hlen
    exact le_maxLength_of_lengthCheck h hcheck hlen
  unfold fuseTruncate
  dsimp only
  generalize sys.fsTrySetlength srv q = r at hwait hspec ⊢
  have hwaiting : ∀ w ∈ r.2.swchunks, w.type = .truncate → w.fleng.toNat ≤ maxLength :=
    fun w hw => h.waiting w (hwait hw)
  rcases hspec with ⟨hnew, hdelayed, hok⟩ | ⟨i, n, c, hcheck, hstatus, hpos, hc, hext⟩
  · have hsame := Master.extentAt_of_nodes hnew.nodes
    have hfiles : FilesBounded r.2.fs := fun j x hx => h.files j x (hsame j ▸ hx)
    have hstay := (follows_of_same hsame h.files (some (cutIndex q.length)) sys.fs.nextchunkid).2
    split
    next hst =>
      obtain ⟨i, n, hcheck⟩ := hdelayed hst
      exact ⟨⟨hfiles, List.forall_mem_cons.mpr ⟨fun _ => hlength i n hcheck, hwaiting⟩⟩, hstay⟩
    split
    next hst =>
      obtain ⟨p, hcheck⟩ := hok hst
      have hdo := follows_fsDoSetlength srv q.session q.inode q.flags q.length hfiles ?_
        (some (cutIndex q.length)) sys.fs.nextchunkid
      · refine ⟨⟨hdo.1, ?_⟩, fun j x y hx hy => hdo.2 j x y ((hsame j).trans hx) hy⟩
        rw [swchunks_fsDoSetlength]
        exact hwaiting
      intro hres p' hp' hupd'
      have hfind : sys.fs.nodeFindOpened q.session (hasBit q.flags truncateFlagOpened) q.inode
          = some p' := by
        obtain ⟨cs, k, hfs⟩ := hnew
        rw [hfs] at hp'
        exact hp'
      obtain ⟨hlen, hfits⟩ := hsafe hres p' hfind
      refine ⟨?_, hfits⟩
      cases hupd : hasBit q.flags truncateFlagUpdate with
      | true =>
        rw [hupd, if_pos rfl] at hlen
        exact hlen (hupd' hupd)
      | false =>
        have hplain := lengthCheck_plain hcheck hupd hres
        obtain ⟨i, n, o⟩ := p
        exact hlength i n ((show o = some q.length from hplain) ▸ hcheck)
    · exact ⟨⟨hfiles, hwaiting⟩, hstay⟩
  · -- the chunk of the new end is cut; the length changes when the servers have answered
    obtain ⟨_, hfind, hd, _⟩ := lengthCheck_some hcheck
    have hx := Master.extentAt_some (nodeFindOpened_node hfind) hd
    rw [if_pos hstatus]
    refine ⟨⟨fun j y hy => ?_, List.forall_mem_cons.mpr ⟨fun _ => hlength i n hcheck, hwaiting⟩⟩,
      fun j x y hsx hy => ?_⟩
    · change r.2.fs.extentAt j = some y at hy
      rw [hext j] at hy
      split at hy
      · cases hy
        exact h.files i ⟨n.length, n.chunktab⟩ hx
      · exact h.files j y hy
    · change r.2.fs.extentAt j = some y at hy
      rw [hext j] at hy
      split at hy
      next hj =>
        rw [hj, hx] at hsx
        cases hsx
        cases hy
        refine ⟨fun _ indx => ?_, fun hlt => absurd hlt (UInt64.lt_irrefl _)⟩
        unfold Extent.entry
        rw [List.getD_eq_getElem?_getD, List.getElem?_set]
        split
        next hindx =>
          subst hindx
          rw [if_pos (entryAt_mem hpos)]
          rcases hc with rfl | rfl
          · exact .inl rfl
          · exact .inr ⟨rfl, hpos, rfl⟩
        · exact .inl (List.getD_eq_getElem?_getD ..).symm
      · rw [hsx] at hy
        cases hy
        exact .refl

/-- **One call** keeps lengths within bounds, and tables with their lengths. -/
theorem lengthStep_follows (h : sys.LengthsBounded) {e : LengthCall} (hsafe : sys.LengthSafe e) :
    (sys.lengthStep e).LengthsBounded
      ∧ FilesFollow e.cut sys.fs.nextchunkid sys.fs (sys.lengthStep e).fs := by
  cases e with
  | setlength srv client q => exact setlength_follows h hsafe
  | finish srv w =>
    unfold lengthStep
    dsimp only
    split
    next hw =>
      have hanswer : ∀ sys' : System, sys'.answerRequest srv w .ok
          = ((sys'.fsEndSetlength srv w.chunkid).2.fsDoSetlength srv w.session w.inode w.flags
            w.fleng).2 := by
        intro sys'
        unfold answerRequest
        rw [hw.2]
        rfl
      rw [hanswer]
      -- the chunk is unlocked first
      obtain ⟨sys1, hsys1, hunlock, hlist⟩ : ∃ sys1,
          (({ sys with swchunks := sys.swchunks.erase w } : System).fsEndSetlength srv
            w.chunkid).2 = sys1 ∧ Master.OnlyChunks sys.fs sys1.fs
            ∧ sys1.swchunks = sys.swchunks.erase w :=
        ⟨_, rfl, onlyChunks_chunkUnlock, swchunks_chunkUnlock _⟩
      rw [hsys1]
      have hsame := Master.extentAt_of_nodes hunlock.newChunks.nodes
      have hdo := follows_fsDoSetlength srv w.session w.inode w.flags w.fleng
        (fun j x hx => h.files j x (hsame j ▸ hx)) ?_ none sys.fs.nextchunkid
      · refine ⟨⟨hdo.1, ?_⟩, fun j x y hx hy => hdo.2 j x y ((hsame j).trans hx) hy⟩
        rw [swchunks_fsDoSetlength, hlist]
        exact fun w' hw' => h.waiting w' (List.mem_of_mem_erase hw')
      intro _ p hp _
      have hfind : sys.fs.nodeFindOpened w.session (hasBit w.flags truncateFlagOpened) w.inode
          = some p := by
        obtain ⟨cs, hfs⟩ := hunlock
        rw [hfs] at hp
        exact hp
      exact ⟨h.waiting w hw.1 hw.2, hsafe p hfind⟩
    · exact ⟨h, (follows_of_same (fun _ => rfl) h.files none sys.fs.nextchunkid).2⟩
  | writeend srv inode length chunkid canmodtime =>
    have hwaiting : ∀ w ∈ (sys.fsWriteend srv inode length chunkid canmodtime).2.swchunks,
        w.type = .truncate → w.fleng.toNat ≤ maxLength := by
      rw [swchunks_fsWriteend]
      exact h.waiting
    rcases fsWriteend_extents with
      hsame | ⟨n, hn, hd, hlt, hset⟩
    · obtain ⟨hfiles, hfollows⟩ := follows_of_same hsame h.files none sys.fs.nextchunkid
      exact ⟨⟨hfiles, hwaiting⟩, hfollows⟩
    obtain ⟨hmax, hfits⟩ := hsafe n hn hlt
    obtain ⟨hfiles, hfollows⟩ := follows_of_setsLength hset hn hd h.files hmax hfits
    exact ⟨⟨hfiles, hwaiting⟩, hfollows⟩

/-- **Lengths and tables stay consistent** along every run of safe calls: after each of them no
file is longer than `(MAX_INDEX+1)*64MiB`, and every table follows its length. -/
theorem file_lengths_consistent (sys : System) (h : sys.LengthsBounded) (es : List LengthCall)
    (e : LengthCall) (hsafe : Lib.StepsMeet lengthStep LengthSafe sys (es ++ [e])) :
    (∀ i x, ((Lib.run lengthStep sys es).lengthStep e).fs.extentAt i = some x →
        x.length.toNat ≤ maxLength)
      ∧ ∀ i x y, (Lib.run lengthStep sys es).fs.extentAt i = some x →
        ((Lib.run lengthStep sys es).lengthStep e).fs.extentAt i = some y →
        Follows e.cut (Lib.run lengthStep sys es).fs.nextchunkid x y := by
  -- the run up to the last call keeps the bounds, which the last call needs
  induction es generalizing sys with
  | nil =>
    obtain ⟨hbounded, hfollows⟩ := lengthStep_follows h hsafe.1
    exact ⟨hbounded.files, hfollows⟩
  | cons e' es ih => exact ih (sys.lengthStep e') (lengthStep_follows h hsafe.1).1 hsafe.2

/-- The session of root asks for a length. -/
def lengthOf (flags : UInt8) (length : UInt64) : LengthRequest :=
  ⟨rootSession, ⟨0, [0]⟩, 2, flags, length, false, false⟩

/-- One file, number 2, with its length and its table. -/
def oneFile (length : UInt64) (chunktab : List Nat) : System :=
  newSystem.modFs fun s => { s with
    nodes := fun i => if i = 2 then
        some { Master.rootNode 0 with type := .file, length := length, chunktab := chunktab }
      else s.nodes i
    chunks := fun c => if c ∈ chunktab then
        some { chunkNew with version := 1, fhead := .few 1, sclassid := 1 }
      else none
    nextchunkid := 10 }

theorem lengthsBounded_oneFile (h : length.toNat ≤ maxLength)
    {chunktab : List Nat} : (oneFile length chunktab).LengthsBounded := by
  refine ⟨fun i x hx => ?_, nofun⟩
  have hnodes : (oneFile length chunktab).fs.extentAt i
      = if i = 2 then some ⟨length, chunktab⟩ else none := by
    show Option.bind (if i = 2 then _ else if i = rootId then _ else none) _ = _
    by_cases h2 : i = 2
    · rw [if_pos h2, if_pos h2]
      rfl
    · rw [if_neg h2, if_neg h2]
      split <;> rfl
  rw [hnodes] at hx
  split at hx
  · cases hx
    exact h
  · cases hx

/-- A file of two chunks is cut to one and written beyond its end. -/
theorem file_lengths_cut_and_written : (oneFile (2 ^ 27) [1, 2]).LengthsBounded
      ∧ Lib.StepsMeet lengthStep LengthSafe (oneFile (2 ^ 27) [1, 2])
        [.setlength oneServer 7 (lengthOf 0 (2 ^ 26)), .writeend oneServer 2 (2 ^ 26 + 5) 1 true]
      ∧ ∀ i x, (Lib.run lengthStep (oneFile (2 ^ 27) [1, 2])
          [.setlength oneServer 7 (lengthOf 0 (2 ^ 26)),
            .writeend oneServer 2 (2 ^ 26 + 5) 1 true]).fs.extentAt i = some x →
        x.length.toNat ≤ maxLength :=
  have start : (oneFile (2 ^ 27) [1, 2]).LengthsBounded := lengthsBounded_oneFile (by decide)
  have safe : Lib.StepsMeet lengthStep LengthSafe (oneFile (2 ^ 27) [1, 2])
      ([.setlength oneServer 7 (lengthOf 0 (2 ^ 26))]
        ++ [.writeend oneServer 2 (2 ^ 26 + 5) 1 true]) := by decide
  ⟨start, safe, (file_lengths_consistent _ start _ _ safe).1⟩

/-- **Lengths that the 32-bit numbers of chunks do not follow.**  A write that ends beyond the
limit, and an update of the length, are not stopped; a length whose chunk numbers wrap makes a
growing file lose a chunk; and so does setting the length a file has when a chunk lies beyond. -/
theorem file_lengths_broken : maxLength < (2 ^ 57 + 1 : UInt64).toNat
      ∧ ((oneFile 0 [1]).lengthStep (.writeend oneServer 2 (2 ^ 57 + 1) 1 true)).fs.extentAt 2
        = some ⟨2 ^ 57 + 1, [1]⟩
      ∧ ((oneFile 0 [1]).lengthStep (.setlength oneServer 7
          (lengthOf truncateFlagUpdate (2 ^ 57 + 1)))).fs.extentAt 2
        = some ⟨2 ^ 57 + 1, [1]⟩
      ∧ (((oneFile (2 ^ 27) [1, 2]).lengthStep (.setlength oneServer 7
          (lengthOf 0 (2 ^ 58 + 2 ^ 26)))).fs.extentAt 2 = some ⟨2 ^ 58 + 2 ^ 26, [1]⟩)
      ∧ ((oneFile (2 ^ 26) [1, 2]).lengthStep (.setlength oneServer 7
          (lengthOf 0 (2 ^ 26)))).fs.extentAt 2 = some ⟨2 ^ 26, [1]⟩ := by
  refine ⟨?_, by decide +kernel, by decide +kernel, by decide, by decide⟩
  rw [maxLength_eq]
  decide

end System

end MfsMaster
