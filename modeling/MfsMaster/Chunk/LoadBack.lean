/-
  MfsMaster.Chunk.LoadBack
  **WHAT A CHUNK KEEPS WHEN THE METADATA ARE LOADED.**

  `chunk_store` writes no more than `CHUNKMAXPAIRS` counters of a chunk: one for every class and
  as many full ones as files of all inodes could fill, if every inode had the chunk once.  A file
  may have the same chunk at many indexes, so a list of counters can be longer.

      chunks_load_back_iff     — the metadata come back iff no list of counters is too long
      chunks_load_back_shared  — a table that comes back
      chunks_load_back_lost    — a chunk that loses files
-/
import MfsMaster.Chunk.Store
import MfsMaster.Fs.State

namespace MfsMaster

open ChunkTab

/-! ## §1. What a chunk keeps. -/

/-- The metadata that two chunks have in common. -/
structure Chunk.SameMetadata (c c' : Chunk) : Prop where
  version : c'.version = c.version
  allowreadzeros : c'.allowreadzeros = c.allowreadzeros
  lockedto : c'.lockedto = c.lockedto
  archFlag : c'.archFlag = c.archFlag
  trashFlag : c'.trashFlag = c.trashFlag
  refs : ∀ k, c'.refs k = c.refs k

/-- The number of counters of a file list. -/
def FHead.counters : FHead → Nat
  | .few _ => 0
  | .many l => l.length

variable {c : Chunk} {l : List FRef} {k : Nat}

section Restored

variable (c : Chunk)

theorem refs_withPairs {c : Chunk} (hc : c.fhead = .few 0) {sclassid : Nat} :
    (c.withPairs l sclassid).refs k = refsIn k l := by
  match l with
  | [] => exact Chunk.refs_of_empty hc
  | [r] =>
    show FHead.refs r.sclassid k _ = _
    dsimp only [Chunk.withPairs]
    split <;> rfl
  | r :: r' :: l => rfl

theorem refs_restored (k : Nat) : c.restored.refs k = refsIn k c.pairs :=
  refs_withPairs rfl

theorem restored_sameMetadata (h : ∀ k, refsIn k c.pairs = c.refs k) :
    c.SameMetadata c.restored := by
  have hrefs : ∀ k, c.restored.refs k = c.refs k := fun k => (refs_restored c k).trans (h k)
  unfold Chunk.restored at hrefs ⊢
  match c.pairs, hrefs with
  | [], hrefs => exact ⟨rfl, rfl, rfl, rfl, rfl, hrefs⟩
  | [_], hrefs => exact ⟨rfl, rfl, rfl, rfl, rfl, hrefs⟩
  | _ :: _ :: _, hrefs => exact ⟨rfl, rfl, rfl, rfl, rfl, hrefs⟩

theorem refsIn_append (k : Nat) (l l' : List FRef) :
    refsIn k (l ++ l') = refsIn k l + refsIn k l' := by
  unfold refsIn
  rw [List.map_append, List.sum_append]

/-- Everything is counted in the pairs exactly when the pairs are all of the counters. -/
theorem refsIn_pairs_iff {c : Chunk} (hc : c.FilesWf) :
    (∀ k, refsIn k c.pairs = c.refs k) ↔ c.fhead.counters ≤ chunkMaxPairs := by
  unfold Chunk.FilesWf at hc
  unfold Chunk.pairs Chunk.refs
  cases hf : c.fhead with
  | few n =>
    refine ⟨fun _ => Nat.zero_le _, fun _ k => ?_⟩
    dsimp only [FHead.refs]
    by_cases hn : n = 0
    · rw [if_pos hn, hn]
      exact (ite_self 0).symm
    · rw [if_neg hn]
      rfl
  | many l =>
    rw [hf] at hc
    show (∀ k, refsIn k (l.take chunkMaxPairs) = refsIn k l) ↔ l.length ≤ chunkMaxPairs
    constructor
    · intro h
      by_contra hlong
      -- the class of the first counter that is left out is counted too low
      cases hdrop : l.drop chunkMaxPairs with
      | nil => exact hlong (List.drop_eq_nil_iff.mp hdrop)
      | cons r rest =>
        have hr : r ∈ l := List.mem_of_mem_drop (hdrop ▸ List.mem_cons_self)
        have hsum := refsIn_append r.sclassid (l.take chunkMaxPairs) (l.drop chunkMaxPairs)
        rw [List.take_append_drop, h r.sclassid, hdrop, refsIn_cons, if_pos rfl] at hsum
        have hpos : 0 < r.fcount := hc r hr
        omega
    · intro hshort k
      rw [List.take_of_length_le hshort]

end Restored

/-! ## §2. A chunk with too many files. -/

section ManyFiles

variable (tab : SClassTab)

/-- The class of a chunk is one of its counters', or 0. -/
theorem bestClass_lt (hl : ∀ r ∈ l, r.sclassid < 256) : bestClass tab l < 256 := by
  refine List.foldlRecOn (motive := fun b : Nat × Nat => b.1 < 256) l _ (by decide)
    fun b hb r hr => ?_
  dsimp only
  split
  · exact hl r hr
  · exact hb

theorem fits_setFiles (hc : c.Fits) {f : FHead} (hf : f.Fits) : (c.setFiles tab f).Fits := by
  match f with
  | .few n =>
    refine ⟨hc.version, ?_, hf⟩
    show (if n = 0 then 0 else c.sclassid) < 256
    split
    · decide
    · exact hc.sclassid
  | .many [] => exact absurd rfl hf.1
  | .many [r] =>
    refine ⟨hc.version, (hf.2 r List.mem_cons_self).2, ?_⟩
    show FHead.Fits (if r.fcount < flistFirstIndx then .few r.fcount else .many [r])
    split
    · assumption
    · exact hf
  | .many (r :: r' :: l) => exact ⟨hc.version, bestClass_lt tab fun r hr => (hf.2 r hr).2, hf⟩

theorem fits_addOrNew (hk : k < 256) (hl : (FHead.many l).Fits) :
    (FHead.many ((addLoop k l).getD (⟨1, k⟩ :: l))).Fits := by
  have hsteady : Steady fun r => r.fcount ≤ flistMaxFcount ∧ r.sclassid < 256 :=
    ⟨fun _ hr hlt => ⟨hlt, hr.2⟩, fun r hr _ => ⟨(Nat.sub_le r.fcount 1).trans hr.1, hr.2⟩⟩
  refine ⟨fun hnil => ?_, hsteady.addOrNew ⟨show 1 ≤ flistMaxFcount by decide, hk⟩ hl.2⟩
  -- one file of the class is counted
  have hone := refsIn_addOrNew k l k
  rw [hnil, if_pos rfl] at hone
  exact Nat.succ_ne_zero _ hone.symm

theorem fits_chunkAddFileInt (hc : c.Fits) (hk : k < 256) : (chunkAddFileInt tab c k).Fits := by
  have hf := hc.fhead
  unfold chunkAddFileInt
  cases hfhead : c.fhead with
  | few n =>
    rw [hfhead] at hf
    have hn : n ≤ flistMaxFcount := Nat.le_trans (Nat.le_of_lt hf) (by decide)
    have hone : (FHead.many [⟨n, c.sclassid⟩]).Fits :=
      ⟨List.cons_ne_nil _ _, List.forall_mem_singleton.mpr ⟨hn, hc.sclassid⟩⟩
    dsimp only
    split
    · exact ⟨hc.version, hk, show 1 < flistFirstIndx by decide⟩
    split
    next hsmall =>
      split
      · exact ⟨hc.version, hc.sclassid, Nat.add_lt_of_lt_sub hsmall⟩
      have hnew : (FHead.many [⟨n, c.sclassid⟩, ⟨1, k⟩]).Fits :=
        ⟨List.cons_ne_nil _ _, List.forall_mem_cons.mpr ⟨⟨hn, hc.sclassid⟩,
          List.forall_mem_singleton.mpr ⟨show 1 ≤ flistMaxFcount by decide, hk⟩⟩⟩
      exact fits_setFiles tab hc hnew
    · exact fits_setFiles tab hc (fits_addOrNew hk hone)
  | many l =>
    rw [hfhead] at hf
    exact fits_setFiles tab hc (fits_addOrNew hk hf)

/-- A chunk after it was given to `n` files of a class. -/
def addFiles (k : Nat) : Nat → Chunk → Chunk
  | 0, c => c
  | n + 1, c => chunkAddFileInt tab (addFiles k n c) k

theorem fits_addFiles (hc : c.Fits) (hk : k < 256) {n : Nat} : (addFiles tab k n c).Fits := by
  induction n with
  | zero => exact hc
  | succ n ih => exact fits_chunkAddFileInt tab ih hk

theorem refs_addFiles {n : Nat} : (addFiles tab k n c).refs k = c.refs k + n := by
  induction n with
  | zero => rfl
  | succ n ih =>
    show (chunkAddFileInt tab (addFiles tab k n c) k).refs k = _
    rw [refs_chunkAddFileInt, ih, if_pos rfl, Nat.add_assoc]

/-- No more files come back than the pairs can count. -/
theorem refs_restored_le (hc : c.Fits) (k : Nat) :
    c.restored.refs k ≤ chunkMaxPairs * flistMaxFcount := by
  have hsum : refsIn k c.pairs ≤ c.pairs.length * flistMaxFcount := by
    refine (List.sum_le_card_nsmul _ flistMaxFcount fun x hx => ?_).trans_eq
      (by rw [List.length_map, nsmul_eq_mul, Nat.cast_id])
    obtain ⟨r, hr, rfl⟩ := List.mem_map.mp hx
    split
    · exact (hc.pairs.2 r hr).1
    · exact Nat.zero_le _
  rw [refs_restored]
  calc refsIn k c.pairs ≤ c.pairs.length * flistMaxFcount := hsum
    _ ≤ chunkMaxPairs * flistMaxFcount := Nat.mul_le_mul_right _ hc.pairs.1

end ManyFiles

/-! ## §3. The table of the master. -/

/-- **The chunks load back exactly when every list of counters fits**: no chunk has the id 0, which
ends the table, and no chunk has more than `CHUNKMAXPAIRS` counters. -/
theorem chunks_load_back_iff (s : Master) {order : List (Nat × Chunk)}
    (horder : ChunkTab.Lists s.chunks order) (hfits : ChunkTab.Fits s.chunks)
    (hwf : ∀ id c, s.chunks id = some c → c.FilesWf) (hnext : s.nextchunkid < 2 ^ 64)
    (ignoreflag : Bool) :
    (∃ chunks', chunkLoad 0x12 ignoreflag (chunkStore s.nextchunkid order)
          = some (s.nextchunkid, chunks')
        ∧ (∀ id, s.chunks id = none → chunks' id = none)
        ∧ ∀ id c, s.chunks id = some c → ∃ c', chunks' id = some c' ∧ c.SameMetadata c')
      ↔ ∀ id c, s.chunks id = some c → 0 < id ∧ c.fhead.counters ≤ chunkMaxPairs := by
  constructor
  · rintro ⟨chunks', hload, _, hsame⟩
    have hpos : ∀ id c, s.chunks id = some c → 0 < id := by
      intro id c hid
      refine Nat.pos_of_ne_zero fun hzero => ?_
      obtain ⟨c', hc', _⟩ := hsame id c hid
      rw [hzero, zero_of_chunkLoad hload] at hc'
      exact nomatch hc'
    rw [chunkLoad_chunkStore hfits horder hpos hnext] at hload
    cases hload
    intro id c hid
    obtain ⟨c', hc', hmeta⟩ := hsame id c hid
    rw [restored_of_some hid] at hc'
    cases hc'
    refine ⟨hpos id c hid, (refsIn_pairs_iff (hwf id c hid)).mp fun k => ?_⟩
    rw [← refs_restored]
    exact hmeta.refs k
  · intro h
    refine ⟨_, chunkLoad_chunkStore hfits horder (fun id c hid => (h id c hid).1) hnext
      ignoreflag, fun id hid => restored_of_none hid, fun id c hid => ?_⟩
    refine ⟨c.restored, restored_of_some hid, restored_sameMetadata c ?_⟩
    exact (refsIn_pairs_iff (hwf id c hid)).mpr (h id c hid).2

/-- A table with the given chunks. -/
def ChunkTab.ofList (order : List (Nat × Chunk)) : ChunkTab := fun id => order.lookup id

theorem ChunkTab.lists_ofList {order : List (Nat × Chunk)} (h : (order.map Prod.fst).Nodup) :
    (ofList order).Lists order := by
  refine ⟨h, fun id c => ?_⟩
  unfold ofList
  induction order with
  | nil => exact ⟨(fun h => nomatch h), (fun h => nomatch h)⟩
  | cons p order ih =>
    rw [List.map_cons, List.nodup_cons] at h
    rw [List.mem_cons, List.lookup_cons, ih h.2]
    by_cases hid : id = p.1
    · subst hid
      rw [beq_self_eq_true]
      constructor
      · rintro (heq | hmem)
        · exact congrArg (fun q : Nat × Chunk => some q.2) heq.symm
        · exact absurd (List.mem_map_of_mem ((ih h.2).mpr hmem)) h.1
      · intro heq
        exact .inl (Prod.ext rfl (Option.some.inj heq).symm)
    · rw [beq_eq_false_iff_ne.mpr hid]
      exact ⟨fun hor => hor.resolve_left fun heq => hid (congrArg Prod.fst heq), .inr⟩

/-- A chunk of three files of one class, and one of five files of two classes. -/
def twoChunks : List (Nat × Chunk) :=
  [(1, { chunkNew with version := 1, sclassid := 2, fhead := .few 3 }),
    (2, { chunkNew with
      version := 7, sclassid := 2, archFlag := true, fhead := .many [⟨1, 1⟩, ⟨4, 2⟩] })]

/-- Two chunks that come back. -/
theorem chunks_load_back_shared :
    ∃ chunks', chunkLoad 0x12 false (chunkStore 3 twoChunks) = some (3, chunks')
      ∧ (∀ id, ofList twoChunks id = none → chunks' id = none)
      ∧ ∀ id c, ofList twoChunks id = some c →
        ∃ c', chunks' id = some c' ∧ c.SameMetadata c' := by
  have hlists : (ofList twoChunks).Lists twoChunks := lists_ofList (by decide)
  have heach : ∀ p ∈ twoChunks, (p.1 < 2 ^ 64 ∧ p.2.Fits) ∧ p.2.FilesWf
      ∧ 0 < p.1 ∧ p.2.fhead.counters ≤ chunkMaxPairs := by
    refine List.forall_mem_cons.mpr ⟨⟨⟨by decide, by decide, by decide, ?_⟩, trivial, by decide,
      by decide⟩, List.forall_mem_singleton.mpr ⟨⟨by decide, by decide, by decide, ?_⟩, ?_,
      by decide, by decide⟩⟩
    · exact show 3 < flistFirstIndx by decide
    · exact ⟨List.cons_ne_nil _ _, by decide⟩
    · exact show ∀ r ∈ _, 0 < FRef.fcount r by decide
  have hat : ∀ id c, ofList twoChunks id = some c → (id, c) ∈ twoChunks :=
    fun id c h => (hlists.mem id c).mpr h
  exact (chunks_load_back_iff
    { Master.fsNew 0 .sclassNew [] true 32767 with
      chunks := ofList twoChunks, nextchunkid := 3 } hlists
    ⟨fun id c h => (heach _ (hat id c h)).1.1, fun id c h => (heach _ (hat id c h)).1.2⟩
    (fun id c h => (heach _ (hat id c h)).2.1) (by decide) false).mpr
    fun id c h => (heach _ (hat id c h)).2.2

/-- A chunk of a class that has been given to one file more than the pairs can count. -/
def sharedTooOften : Chunk := addFiles .sclassNew 1 (chunkMaxPairs * flistMaxFcount + 1) chunkNew

/-- A table with that chunk alone: it comes back with fewer files. -/
theorem chunks_load_back_lost :
    ∃ chunks' c', chunkLoad 0x12 false (chunkStore 2 [(1, sharedTooOften)]) = some (2, chunks')
      ∧ chunks' 1 = some c' ∧ c'.refs 1 < sharedTooOften.refs 1 := by
  have hnew : chunkNew.Fits := ⟨by decide, by decide, show 0 < flistFirstIndx by decide⟩
  have hfits : sharedTooOften.Fits := fits_addFiles _ hnew (by decide)
  have hlists : (ofList [(1, sharedTooOften)]).Lists [(1, sharedTooOften)] :=
    lists_ofList (List.nodup_singleton _)
  have honly : ∀ id c, ofList [(1, sharedTooOften)] id = some c →
      id = 1 ∧ c = sharedTooOften := by
    intro id c h
    exact Prod.mk.inj (List.mem_singleton.mp ((hlists.mem id c).mpr h))
  have hload : chunkLoad 0x12 false (chunkStore 2 [(1, sharedTooOften)])
      = some (2, (ofList [(1, sharedTooOften)]).restored) := by
    refine chunkLoad_chunkStore ⟨fun id c h => ?_, fun id c h => ?_⟩ hlists
      (fun id c h => ?_) (by decide) false
    · rw [(honly id c h).1]
      decide
    · rw [(honly id c h).2]
      exact hfits
    · rw [(honly id c h).1]
      exact Nat.one_pos
  refine ⟨_, sharedTooOften.restored, hload, restored_of_some rfl, ?_⟩
  have hrefs : sharedTooOften.refs 1 = chunkNew.refs 1 + (chunkMaxPairs * flistMaxFcount + 1) :=
    refs_addFiles _
  have hle := refs_restored_le hfits 1
  omega

end MfsMaster
