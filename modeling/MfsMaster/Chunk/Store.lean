/-
  MfsMaster.Chunk.Store
  **STORING AND LOADING THE CHUNK TABLE** (`chunk_store`, `chunk_load`).

  A chunk is a record of fixed size, followed by one pair of a class and a counter for every
  counter of its file list and, when there are several, by the class of the chunk.  The number
  of pairs has nine bits: eight in a field of its own and the ninth in the field of the flags.
  No more than `CHUNKMAXPAIRS` pairs are written.

      ChunkTab.chunkLoad_chunkStore  — every chunk comes back as `Chunk.restored` has it
      ChunkTab.zero_of_chunkLoad     — there is no chunk 0 in a table that was loaded
-/
import MfsMaster.Chunk.Files
import MfsMaster.Lib.Pack
import MfsMaster.Lib.Replay

namespace MfsMaster

open Lib (Reader)
open Lib.Reader

/-! ## §1. The stream. -/

/-- `CHUNKMAXPAIRS`. -/
def chunkMaxPairs : Nat := 255 + 128

def put24bit (n : Nat) : List UInt8 := put 3 n

def get24bit : Reader Nat := number 3

/-- A pair: `sclassid:8 ; fcount:24`. -/
def pairBytes (r : FRef) : List UInt8 := put8bit (UInt8.ofNat r.sclassid) ++ put24bit r.fcount

/-- The pairs of a chunk, as far as they are written. -/
def Chunk.pairs (c : Chunk) : List FRef :=
  match c.fhead with
  | .few n => if n = 0 then [] else [⟨n, c.sclassid⟩]
  | .many l => l.take chunkMaxPairs

/-- The version with the bit for `allowreadzeros`. -/
def Chunk.versionWord (c : Chunk) : UInt32 :=
  UInt32.ofNat c.version ||| (if c.allowreadzeros then 0x80000000 else 0)

/-- `FLAG_ARCH` and `FLAG_TRASH`. -/
def Chunk.flags (c : Chunk) : UInt8 :=
  (if c.archFlag then 1 else 0) ||| (if c.trashFlag then 2 else 0)

/-- The fixed part of a record (`CHUNKFSIZE` bytes). -/
def recordBytes (chunkid : UInt64) (version lockedto : UInt32) (flags pairs : UInt8) :
    List UInt8 :=
  put64bit chunkid ++ (put32bit version ++ (put32bit lockedto ++ (put8bit flags ++ put8bit pairs)))

/-- The record of a chunk with its pairs. -/
def chunkBytes (chunkid : Nat) (c : Chunk) : List UInt8 :=
  recordBytes (UInt64.ofNat chunkid) c.versionWord c.lockedto
      (if 255 < c.pairs.length then c.flags ||| 0x80 else c.flags)
      (UInt8.ofNat (c.pairs.length &&& 0xFF))
    ++ ((c.pairs.map pairBytes).flatten
    ++ (if 1 < c.pairs.length then put8bit (UInt8.ofNat c.sclassid) else []))

/-- The record that ends the table. -/
def chunksEnd : List UInt8 := recordBytes 0 0 0 0 0

/-- `chunk_store`; `order` are the chunks as the loop over the hash table meets them. -/
def chunkStore (nextchunkid : Nat) (order : List (Nat × Chunk)) : List UInt8 :=
  put64bit (UInt64.ofNat nextchunkid)
    ++ ((order.map fun p => chunkBytes p.1 p.2).flatten ++ chunksEnd)

/-! ## §2. The loader. -/

/-- The fixed part of a record. -/
structure ChunkHeader where
  chunkid : Nat
  version : UInt32
  lockedto : UInt32
  flags : UInt8
  pairs : Nat

def getChunkHeader (mver : Nat) : Reader ChunkHeader := do
  let chunkid ← get64bit
  let version ← get32bit
  let lockedto ← get32bit
  let flags ← if mver = 0x10 then pure 0 else get8bit
  let pairs ← if mver ≤ 0x11 then pure 0 else get8bit
  pure { chunkid := chunkid.toNat, version, lockedto
         flags := if flags &&& 0x80 ≠ 0 then flags &&& 0x7F else flags
         pairs := if flags &&& 0x80 ≠ 0 then pairs.toNat ||| 0x100 else pairs.toNat }

def getPairs : Nat → Reader (List FRef)
  | 0 => pure []
  | n + 1 => do
    let sclassid ← get8bit
    let fcount ← get24bit
    let l ← getPairs n
    pure (⟨fcount, sclassid.toNat⟩ :: l)

/-- The class that follows several pairs. -/
def getClass (pairs : Nat) : Reader UInt8 :=
  if 1 < pairs then get8bit else pure 0

/-- The file list of a chunk that has pairs, and its class. -/
def Chunk.withPairs (c : Chunk) (l : List FRef) (sclassid : Nat) : Chunk :=
  match l with
  | [] => c
  | [r] =>
    chunkStateSetSclass
      { c with fhead := if r.fcount < flistFirstIndx then .few r.fcount else .many [r] } r.sclassid
  | l => chunkStateSetSclass { c with fhead := .many l } sclassid

/-- A chunk as it is made from its record. -/
def ChunkHeader.chunk (h : ChunkHeader) (l : List FRef) (sclassid : Nat) : Chunk :=
  let c := Chunk.withPairs
    { chunkNew with
      allowreadzeros := h.version &&& 0x80000000 ≠ 0
      version := (h.version &&& 0x3FFFFFFF).toNat
      lockedto := h.lockedto } l sclassid
  chunkStateSetFlags c (hasBit h.flags 1) (hasBit h.flags 2)

abbrev ChunkTab := Nat → Option Chunk

def ChunkTab.put (t : ChunkTab) (chunkid : Nat) (c : Chunk) : ChunkTab :=
  fun i => if i = chunkid then some c else t i

/-- The end of a round of `chunk_load`. -/
def chunkRead (ignoreflag : Bool) (t : ChunkTab) (h : ChunkHeader) (c : Chunk) :
    Reader (ChunkTab ⊕ ChunkTab) :=
  if 0 < h.chunkid then
    if (t h.chunkid).isSome then if ignoreflag then pure (.inl t) else refused
    else pure (.inl (t.put h.chunkid c))
  else if h.version = 0 ∧ h.lockedto = 0 ∧ h.flags = 0 then pure (.inr t)
  else refused

/-- One round of the loop of `chunk_load`. -/
def chunkLoadRound (mver : Nat) (ignoreflag : Bool) (t : ChunkTab) :
    Reader (ChunkTab ⊕ ChunkTab) := do
  let h ← getChunkHeader mver
  let l ← getPairs h.pairs
  let sclassid ← getClass h.pairs
  chunkRead ignoreflag t h (h.chunk l sclassid.toNat)

def getChunks (mver : Nat) (ignoreflag : Bool) : Reader (Nat × ChunkTab) := do
  let nextchunkid ← get64bit
  let t ← loopAll (chunkLoadRound mver ignoreflag) fun _ => none
  pure (nextchunkid.toNat, t)

/-- `chunk_load` into an empty table: `nextchunkid` and the table; `none` stands for -1. -/
def chunkLoad (mver : Nat) (ignoreflag : Bool) (stream : List UInt8) : Option (Nat × ChunkTab) :=
  (getChunks mver ignoreflag stream).map Prod.fst

/-! ## §3. What fits its fields comes back. -/

/-- The file list as the fields of the source hold it: a number below `FLISTFIRSTINDX`, or a list
of counters of 24 bits. -/
def FHead.Fits : FHead → Prop
  | .few n => n < flistFirstIndx
  | .many l => l ≠ [] ∧ ∀ r ∈ l, r.fcount ≤ flistMaxFcount ∧ r.sclassid < 256

/-- A chunk as the fields of the source hold it. -/
structure Chunk.Fits (c : Chunk) : Prop where
  version : c.version < 2 ^ 30
  sclassid : c.sclassid < 256
  fhead : c.fhead.Fits

/-- A chunk as it comes back. -/
def Chunk.restored (c : Chunk) : Chunk :=
  chunkStateSetFlags (Chunk.withPairs
    { chunkNew with
      allowreadzeros := c.allowreadzeros, version := c.version, lockedto := c.lockedto }
    c.pairs c.sclassid) c.archFlag c.trashFlag

variable {c : Chunk} {ignoreflag : Bool} {t : ChunkTab} {order : List (Nat × Chunk)}
  {stream : List UInt8}

section Pairs

theorem reads_get24bit {n : Nat} (hn : n ≤ flistMaxFcount) : get24bit.Reads (put24bit n) n :=
  reads_number (Nat.lt_of_le_of_lt hn (by decide))

theorem reads_getPairs {l : List FRef}
    (hl : ∀ r ∈ l, r.fcount ≤ flistMaxFcount ∧ r.sclassid < 256) :
    (getPairs l.length).Reads (l.map pairBytes).flatten l := by
  induction l with
  | nil => exact Reads.pure
  | cons r l ih =>
    obtain ⟨⟨hcount, hclass⟩, hl⟩ := List.forall_mem_cons.mp hl
    have hbyte : (UInt8.ofNat r.sclassid).toNat = r.sclassid := UInt8.toNat_ofNat_of_lt' hclass
    rw [List.map_cons, List.flatten_cons]
    unfold pairBytes
    rw [List.append_assoc]
    refine (reads_get8bit _).bind ?_
    refine (reads_get24bit hcount).bind ?_
    have hrest := (ih hl).map fun l => (⟨r.fcount, (UInt8.ofNat r.sclassid).toNat⟩ : FRef) :: l
    rw [hbyte] at hrest ⊢
    exact hrest

theorem Chunk.Fits.pairs (h : c.Fits) :
    c.pairs.length ≤ chunkMaxPairs
      ∧ ∀ r ∈ c.pairs, r.fcount ≤ flistMaxFcount ∧ r.sclassid < 256 := by
  have hfits := h.fhead
  unfold Chunk.pairs
  cases hf : c.fhead with
  | few n =>
    rw [hf] at hfits
    dsimp only
    split
    · exact ⟨Nat.zero_le _, fun _ h => nomatch h⟩
    refine ⟨show 1 ≤ chunkMaxPairs by decide, fun r hr => ?_⟩
    rw [List.mem_singleton.mp hr]
    exact ⟨Nat.le_trans (Nat.le_of_lt hfits) (by decide), h.sclassid⟩
  | many l =>
    rw [hf] at hfits
    exact ⟨List.length_take_le _ _, fun r hr => hfits.2 r (List.mem_of_mem_take hr)⟩

end Pairs

section Words

variable {c : Chunk}

/-- The version and the bit beside it are told apart. -/
theorem versionWord_parts (h : c.version < 2 ^ 30) :
    (c.versionWord &&& 0x3FFFFFFF).toNat = c.version
      ∧ decide (c.versionWord &&& 0x80000000 ≠ 0) = c.allowreadzeros := by
  have hv : (UInt32.ofNat c.version).toNat = c.version :=
    UInt32.toNat_ofNat_of_lt' (Nat.lt_trans h (by decide))
  have hlow : c.version &&& 0x3FFFFFFF = c.version := by
    rw [show 0x3FFFFFFF = 2 ^ 30 - 1 from rfl, Nat.and_two_pow_sub_one_eq_mod,
      Nat.mod_eq_of_lt h]
  have hhigh : c.version &&& 0x80000000 = 0 := by
    have hlt : c.version < 2 ^ 31 := Nat.lt_trans h (by decide)
    refine Nat.eq_of_testBit_eq fun i => ?_
    rw [Nat.testBit_and, show 0x80000000 = 2 ^ 31 from rfl, Nat.testBit_two_pow, Nat.zero_testBit]
    by_cases hi : 31 = i
    · rw [← hi, Nat.testBit_lt_two_pow hlt, Bool.false_and]
    · rw [decide_eq_false hi, Bool.and_false]
  unfold Chunk.versionWord
  constructor
  · rw [UInt32.toNat_and, UInt32.toNat_or, hv, Nat.and_or_distrib_right]
    cases c.allowreadzeros <;> exact (congrArg (· ||| 0) hlow).trans (Nat.or_zero _)
  rw [Bool.eq_iff_iff, decide_eq_true_iff, ne_eq, ← UInt32.toNat_inj, UInt32.toNat_and,
    UInt32.toNat_or, hv, Nat.and_or_distrib_right]
  cases c.allowreadzeros <;> rw [show UInt32.toNat 0x80000000 = 0x80000000 from rfl, hhigh]
    <;> decide

/-- The flags and the ninth bit of the number of pairs are told apart. -/
theorem flags_parts (more : Bool) : let flags := if more then c.flags ||| 0x80 else c.flags
    decide (flags &&& 0x80 ≠ 0) = more
      ∧ (if flags &&& 0x80 ≠ 0 then flags &&& 0x7F else flags) = c.flags
      ∧ hasBit c.flags 1 = c.archFlag ∧ hasBit c.flags 2 = c.trashFlag := by
  unfold Chunk.flags
  cases c.archFlag <;> cases c.trashFlag <;> cases more <;> decide

/-- The number of pairs has nine bits. -/
theorem pairs_parts {n : Nat} (hn : n ≤ chunkMaxPairs) :
    (if 255 < n then (UInt8.ofNat (n &&& 0xFF)).toNat ||| 0x100
      else (UInt8.ofNat (n &&& 0xFF)).toNat) = n := by
  have hlow : (UInt8.ofNat (n &&& 0xFF)).toNat = n % 256 := by
    rw [show 0xFF = 2 ^ 8 - 1 from rfl, Nat.and_two_pow_sub_one_eq_mod, UInt8.toNat_ofNat']
    exact Nat.mod_mod _ _
  have hmax : n ≤ 383 := hn
  rw [hlow]
  split
  · have hlt : n % 256 < 2 ^ 8 := Nat.mod_lt _ (by decide)
    have hor : 0x100 + n % 256 = 0x100 ||| n % 256 := Nat.two_pow_add_eq_or_of_lt hlt 1
    rw [Nat.or_comm, ← hor]
    omega
  · omega

end Words

section Records

theorem reads_getChunkHeader {chunkid : UInt64} {version lockedto : UInt32} {flags pairs : UInt8} :
    (getChunkHeader 0x12).Reads (recordBytes chunkid version lockedto flags pairs)
      { chunkid := chunkid.toNat, version, lockedto
        flags := if flags &&& 0x80 ≠ 0 then flags &&& 0x7F else flags
        pairs := if flags &&& 0x80 ≠ 0 then pairs.toNat ||| 0x100 else pairs.toNat } :=
  reads_get64bit.bind <| (reads_get32bit _).bind <| (reads_get32bit _).bind <|
    (reads_get8bit _).bind <| (reads_get8bit _).map _

variable {c : Chunk}

/-- The fixed part of the record of a chunk, as it is read. -/
def Chunk.header (chunkid : Nat) (c : Chunk) : ChunkHeader :=
  { chunkid, version := c.versionWord, lockedto := c.lockedto, flags := c.flags
    pairs := c.pairs.length }

theorem reads_header (hc : c.Fits) {chunkid : Nat} (hid : chunkid < 2 ^ 64) :
    (getChunkHeader 0x12).Reads
      (recordBytes (UInt64.ofNat chunkid) c.versionWord c.lockedto
        (if 255 < c.pairs.length then c.flags ||| 0x80 else c.flags)
        (UInt8.ofNat (c.pairs.length &&& 0xFF)))
      (c.header chunkid) := by
  obtain ⟨hmore, hflags, _⟩ := flags_parts (decide (255 < c.pairs.length))
  simp only [decide_eq_true_eq] at hmore hflags
  have hninth := decide_eq_decide.mp hmore
  refine Eq.subst ?_ reads_getChunkHeader
  rw [hflags, if_congr hninth rfl rfl, pairs_parts hc.pairs.1, UInt64.toNat_ofNat_of_lt' hid]
  rfl

theorem chunk_header (hc : c.Fits) {chunkid sclassid : Nat}
    (hclass : 1 < c.pairs.length → sclassid = c.sclassid) :
    (c.header chunkid).chunk c.pairs sclassid = c.restored := by
  obtain ⟨hversion, hzeros⟩ := versionWord_parts hc.version
  obtain ⟨_, _, harch, htrash⟩ := flags_parts false
  unfold ChunkHeader.chunk Chunk.restored Chunk.header
  rw [hversion, hzeros, harch, htrash]
  match hl : c.pairs with
  | [] => rfl
  | [r] => rfl
  | r :: r' :: l =>
    have hlen : 1 < c.pairs.length := hl ▸ Nat.succ_lt_succ (Nat.succ_pos _)
    rw [hclass hlen]

theorem reads_chunkLoadRound (hc : c.Fits) {chunkid : Nat} (hid : chunkid < 2 ^ 64)
    (hpos : 0 < chunkid) (hnew : t chunkid = none) :
    (chunkLoadRound 0x12 ignoreflag t).Reads (chunkBytes chunkid c)
      (.inl (t.put chunkid c.restored)) := by
  have hend : ∀ sclassid, (1 < c.pairs.length → sclassid = c.sclassid) →
      (chunkRead ignoreflag t (c.header chunkid) ((c.header chunkid).chunk c.pairs sclassid)).Reads
        [] (.inl (t.put chunkid c.restored)) := by
    intro sclassid hclass
    rw [chunk_header hc hclass]
    have hnone : ¬ (t (c.header chunkid).chunkid).isSome = true := by
      rw [show (c.header chunkid).chunkid = chunkid from rfl, hnew]
      exact Bool.false_ne_true
    unfold chunkRead
    rw [if_pos (show 0 < (c.header chunkid).chunkid from hpos), if_neg hnone]
    exact Reads.pure
  refine (reads_header hc hid).bind ((reads_getPairs hc.pairs.2).bind ?_)
  by_cases hmany : 1 < c.pairs.length
  · have hbyte : (UInt8.ofNat c.sclassid).toNat = c.sclassid :=
      UInt8.toNat_ofNat_of_lt' hc.sclassid
    have hget : getClass (c.header chunkid).pairs = get8bit := if_pos hmany
    rw [if_pos hmany, hget]
    exact (reads_get8bit _).bind_nil (hend _ fun _ => hbyte)
  · have hget : getClass (c.header chunkid).pairs = pure 0 := if_neg hmany
    rw [if_neg hmany, hget]
    exact Reads.pure.bind_nil (hend _ fun h => absurd h hmany)

/-- The last record ends the table. -/
theorem reads_chunksEnd : (chunkLoadRound 0x12 ignoreflag t).Reads chunksEnd (.inr t) :=
  reads_getChunkHeader.bind_nil
    (Reads.pure.bind_nil (Reads.pure.bind_nil Reads.pure))

end Records

/-! ## §4. The table as a whole. -/

/-- The chunks of a table, in some order. -/
structure ChunkTab.Lists (t : ChunkTab) (order : List (Nat × Chunk)) : Prop where
  nodup : (order.map Prod.fst).Nodup
  mem : ∀ id c, (id, c) ∈ order ↔ t id = some c

/-- Every chunk of the table fits its record. -/
structure ChunkTab.Fits (t : ChunkTab) : Prop where
  ids : ∀ id c, t id = some c → id < 2 ^ 64
  chunks : ∀ id c, t id = some c → c.Fits

/-- The table as it comes back. -/
def ChunkTab.restored (t : ChunkTab) : ChunkTab := fun id => (t id).map Chunk.restored

/-- What a record does to the table: the second record of a chunk is refused. -/
def ChunkTab.accept (t : ChunkTab) (p : Nat × Chunk) : Option ChunkTab :=
  if (t p.1).isSome then none else some (t.put p.1 p.2.restored)

namespace ChunkTab

variable {t : ChunkTab}

theorem restored_of_some {id : Nat} (h : t id = some c) : t.restored id = some c.restored :=
  congrArg (Option.map Chunk.restored) h

theorem restored_of_none {id : Nat} (h : t id = none) : t.restored id = none :=
  congrArg (Option.map Chunk.restored) h

/-- Records of different chunks are all accepted. -/
theorem replay_accept :
    ∀ t : ChunkTab, (order.map Prod.fst).Nodup → (∀ p ∈ order, t p.1 = none) →
      ∃ t', Lib.replay accept t order = some t'
        ∧ (∀ p ∈ order, t' p.1 = some p.2.restored)
        ∧ ∀ id, id ∉ order.map Prod.fst → t' id = t id := by
  induction order with
  | nil =>
    intro t _ _
    exact ⟨t, rfl, (fun _ h => nomatch h), fun _ _ => rfl⟩
  | cons p order ih =>
    intro t hnodup hnew
    rw [List.map_cons, List.nodup_cons] at hnodup
    obtain ⟨hp, hnew⟩ := List.forall_mem_cons.mp hnew
    have hfirst : t.accept p = some (t.put p.1 p.2.restored) := by
      unfold accept
      rw [hp]
      rfl
    have hother : ∀ id, id ≠ p.1 → t.put p.1 p.2.restored id = t id := fun id h => if_neg h
    have hfresh : ∀ q ∈ order, t.put p.1 p.2.restored q.1 = none := by
      intro q hq
      have hne : q.1 ≠ p.1 := fun heq => hnodup.1 (heq ▸ List.mem_map_of_mem hq)
      rw [hother q.1 hne, hnew q hq]
    obtain ⟨t', hrun, hold, hkept⟩ := ih (t.put p.1 p.2.restored) hnodup.2 hfresh
    refine ⟨t', ?_, ?_, ?_⟩
    · rw [Lib.replay_cons, hfirst]
      exact hrun
    · refine List.forall_mem_cons.mpr ⟨?_, hold⟩
      rw [hkept p.1 hnodup.1]
      exact if_pos rfl
    intro id hid
    rw [List.map_cons, List.mem_cons, not_or] at hid
    rw [hkept id hid.2, hother id hid.1]

/-- **A table comes back** with every chunk as `Chunk.restored` has it. -/
theorem chunkLoad_chunkStore (hfits : t.Fits) (ht : t.Lists order)
    (hpos : ∀ id c, t id = some c → 0 < id) {nextchunkid : Nat} (hnext : nextchunkid < 2 ^ 64)
    (ignoreflag : Bool) :
    chunkLoad 0x12 ignoreflag (chunkStore nextchunkid order)
      = some (nextchunkid, t.restored) := by
  obtain ⟨t', hrun, hold, hkept⟩ :=
    replay_accept (fun _ => none) ht.nodup fun _ _ => rfl
  have htable : t' = t.restored := by
    funext id
    unfold ChunkTab.restored
    cases hid : t id with
    | some c => exact hold (id, c) ((ht.mem id c).mpr hid)
    | none =>
      refine hkept id fun hmem => ?_
      obtain ⟨⟨_, c⟩, hp, rfl⟩ := List.mem_map.mp hmem
      exact nomatch hid.symm.trans ((ht.mem _ c).mp hp)
  have hbytes : ∀ p ∈ order, chunkBytes p.1 p.2 ≠ [] := by
    intro p _ hnil
    exact absurd (congrArg List.length hnil) (by simp [chunkBytes, recordBytes, put64bit])
  have hround : ∀ (t1 : ChunkTab) (p : Nat × Chunk) (t2 : ChunkTab), p ∈ order →
      t1.accept p = some t2 →
      (chunkLoadRound 0x12 ignoreflag t1).Reads (chunkBytes p.1 p.2) (.inl t2) := by
    intro t1 p t2 hp hacc
    have hid := (ht.mem p.1 p.2).mp hp
    unfold accept at hacc
    split at hacc
    · exact nomatch hacc
    next hnone =>
      cases hacc
      exact reads_chunkLoadRound (hfits.chunks _ _ hid) (hfits.ids _ _ hid) (hpos _ _ hid)
        (Option.not_isSome_iff_eq_none.mp hnone)
  have hloop := loopAll_accepted hround hrun hbytes reads_chunksEnd
  have hread : (getChunks 0x12 ignoreflag).Reads (chunkStore nextchunkid order)
      ((UInt64.ofNat nextchunkid).toNat, t') := reads_get64bit.bind (hloop.map _)
  have hload := hread []
  rw [List.append_nil, UInt64.toNat_ofNat_of_lt' hnext, htable] at hload
  unfold chunkLoad
  rw [hload]
  rfl

/-- No round puts a chunk 0 into the table. -/
theorem zero_of_chunkRead {h : ChunkHeader} (ht : t 0 = none)
    {rest : List UInt8} {r : ChunkTab ⊕ ChunkTab}
    (hread : chunkRead ignoreflag t h c stream = some (r, rest)) : r.elim id id 0 = none := by
  unfold chunkRead at hread
  split at hread
  next hpos =>
    split at hread
    · split at hread
      · cases hread
        exact ht
      · exact nomatch hread
    · cases hread
      exact (if_neg (Nat.ne_of_lt hpos)).trans ht
  · split at hread
    · cases hread
      exact ht
    · exact nomatch hread

theorem zero_of_chunkLoad {mver nextchunkid : Nat}
    (h : chunkLoad mver ignoreflag stream = some (nextchunkid, t)) : t 0 = none := by
  have hround : ∀ (t : ChunkTab) (stream : List UInt8) (r : ChunkTab ⊕ ChunkTab)
      (rest : List UInt8), t 0 = none → chunkLoadRound mver ignoreflag t stream = some (r, rest) →
      r.elim id id 0 = none := by
    intro t stream r rest ht h
    obtain ⟨_, _, h⟩ := Option.bind_eq_some_iff.mp h
    obtain ⟨_, _, h⟩ := Option.bind_eq_some_iff.mp h
    obtain ⟨_, _, h⟩ := Option.bind_eq_some_iff.mp h
    exact zero_of_chunkRead ht h
  obtain ⟨⟨_, _⟩, h, heq⟩ := Option.map_eq_some_iff.mp h
  cases heq
  obtain ⟨_, _, h⟩ := Option.bind_eq_some_iff.mp h
  obtain ⟨⟨t', _⟩, hloop, h⟩ := Option.bind_eq_some_iff.mp h
  cases h
  exact loopAll_invariant (fun t stream t' rest ht h => hround t stream (.inl t') rest ht h)
    (fun t stream t' rest ht h => hround t stream (.inr t') rest ht h) rfl hloop

end ChunkTab

end MfsMaster
