/-
  MfsMaster.Inode.Pool
  **THE INODE POOL** (`filesystem.c`, `openfiles.c`).

  Inode numbers of removed nodes are not reusable at once: they wait in a list
  ordered by removal time until `inodereusedelay` seconds have passed, and an
  inode some session still holds open is put back at the end of the list with a
  fresh time stamp.  `fs_univ_freeinodes` runs on the leader, which logs what it
  freed, and on a replica, which compares the logged counters with its own.
-/
import MfsMaster.Types
import Mathlib.Data.List.Nodup
import Mathlib.Data.List.Dedup
import Mathlib.Data.List.Sort

namespace MfsMaster

/-! ## §1. The free list and the bit mask. -/

/-- One entry of `freelist`. -/
structure FreeNode where
  inode : Nat
  ftime : UInt32
  deriving Repr, DecidableEq

/-- `freelist`, `freelastts`, `freebitmask` (one `Bool` a bit: `true` = in use),
`searchpos`, `bitmasksize` (both count 32-bit words) and `maxnodeid`. -/
structure InodePool where
  freelist : List FreeNode
  freelastts : UInt32
  freebitmask : Nat → Bool
  searchpos : Nat
  bitmasksize : Nat
  maxnodeid : Nat

namespace InodePool

/-- `freebitmask[pos]==0xFFFFFFFF`. -/
def wordFull (mask : Nat → Bool) (pos : Nat) : Bool :=
  (List.range 32).all fun i => mask (32 * pos + i)

/-- The first word at or after `pos` that is not full, or `pos + n` when the `n` words are. -/
def firstWord (mask : Nat → Bool) : Nat → Nat → Nat
  | 0, pos => pos
  | n + 1, pos => if wordFull mask pos then firstWord mask n (pos + 1) else pos

/-- The lowest clear bit of a word (`while (mask&1)`), looking at `n` bits from bit `i` on. -/
def lowBit (mask : Nat → Bool) (pos : Nat) : Nat → Nat → Nat
  | 0, i => i
  | n + 1, i => if mask (32 * pos + i) then lowBit mask pos n (i + 1) else i

variable (p : InodePool)

/-- `fsnodes_get_next_id`: the lowest free inode at or after `searchpos`; the mask
grows by `0x80` words when all of them are full. -/
def fsnodesGetNextId : Nat × InodePool :=
  let pos := firstWord p.freebitmask (p.bitmasksize - p.searchpos) p.searchpos
  let size := if pos = p.bitmasksize then p.bitmasksize + 0x80 else p.bitmasksize
  -- realloc + memset: the new words hold no bit
  let mask := fun j => if p.bitmasksize * 32 ≤ j then false else p.freebitmask j
  let i := lowBit mask pos 32 0 + 32 * pos
  (i, { p with
        freebitmask := fun j => if j = i then true else mask j
        searchpos := pos
        bitmasksize := size
        maxnodeid := if p.maxnodeid < i then i else p.maxnodeid })

/-- The pool of a new file system: `fsnodes_init_freebitmask` and the root's inode. -/
def fsnodesInitFreebitmask : InodePool :=
  { freelist := [], freelastts := 0
    freebitmask := fun j => j == 0 || j == rootId
    searchpos := 0, bitmasksize := 0x100, maxnodeid := rootId }

/-- `fsnodes_free_fixts` on the list: no stamp lies after `ts`. -/
def fixts (ts : UInt32) (l : List FreeNode) : List FreeNode :=
  l.map fun n => if ts < n.ftime then { n with ftime := ts } else n

/-- `fsnodes_free_fixts`. -/
def fsnodesFreeFixts (ts : UInt32) : InodePool :=
  { p with freelist := fixts ts p.freelist, freelastts := ts }

/-- What both callers of `fsnodes_free_fixts` do: re-stamp when the clock stepped back. -/
def restamp (ts : UInt32) : InodePool :=
  if ts < p.freelastts then p.fsnodesFreeFixts ts else p

/-- `fsnodes_free_id`. -/
def fsnodesFreeId (inode : Nat) (ts : UInt32) : InodePool :=
  let p := p.restamp ts
  { p with freelist := p.freelist ++ [{ inode := inode, ftime := ts }], freelastts := ts }

/-! ## §2. `fs_univ_freeinodes`. -/

/-- The variables of the loop of `fs_univ_freeinodes`: the counters `fi`, `si`, the
check sum `ics`, the list `sn` of inodes found open, and the two globals it writes. -/
structure FreeLoop where
  fi : Nat
  si : Nat
  ics : Nat
  sn : List FreeNode
  freebitmask : Nat → Bool
  searchpos : Nat

/-- The body of the loop for the entry `n`; `isopen` is the whole test
`((sesflags&SESFLAG_METARESTORE)==0 || sustainedinodes>0) && of_isfileopen(n->inode)`. -/
def FreeLoop.visit (isopen : Bool) (ts : UInt32) (n : FreeNode) (a : FreeLoop) : FreeLoop :=
  if isopen then
    { a with
      ics := a.ics ^^^ n.inode
      si := a.si + 1
      sn := a.sn ++ [{ n with ftime := ts }] }
  else
    { a with
      ics := a.ics ^^^ n.inode
      fi := a.fi + 1
      freebitmask := fun j => if j = n.inode then false else a.freebitmask j
      searchpos := if n.inode / 32 < a.searchpos then n.inode / 32 else a.searchpos }

/-- The loop: entries from the front while they are due (`uint32_t` arithmetic). -/
def freeinodesLoop (isopen : Nat → Bool) (ts delay : UInt32) :
    List FreeNode → FreeLoop → List FreeNode × FreeLoop
  | [], a => ([], a)
  | n :: l, a =>
    if n.ftime + delay < ts then
      freeinodesLoop isopen ts delay l (a.visit (isopen n.inode) ts n)
    else (n :: l, a)

/-- The loop and the relinking of the lists after it. -/
def freeDue (isopen : Nat → Bool) (ts delay : UInt32) :
    InodePool × FreeLoop :=
  let r := freeinodesLoop isopen ts delay p.freelist
    { fi := 0, si := 0, ics := 0, sn := []
      freebitmask := p.freebitmask, searchpos := p.searchpos }
  let lastts := if r.1.isEmpty then 0 else p.freelastts
  ({ p with
     freelist := r.1 ++ r.2.sn
     freelastts := if r.2.sn.isEmpty then lastts else ts
     freebitmask := r.2.freebitmask
     searchpos := r.2.searchpos }, r.2)

/-- The pool and the loop variables after the body of `fs_univ_freeinodes`. -/
def freeinodesBody (isopen : Nat → Bool) (ts delay : UInt32) :
    InodePool × FreeLoop :=
  (p.restamp ts).freeDue isopen ts delay

end InodePool

/-! ## §3. Open files. -/

/-- The `ofrelation`s, newest first: pairs of a session and an inode. -/
abbrev OpenFiles := List (Nat × Nat)

namespace OpenFiles

variable (o : OpenFiles) (sessionid : Nat) (inode : Nat)

/-- `of_checknode`. -/
def ofChecknode : Bool :=
  o.contains (sessionid, inode)

/-- `of_isfileopen`. -/
def ofIsfileopen : Bool :=
  o.any fun r => r.2 == inode

/-- `of_newnode`. -/
def ofNewnode : OpenFiles :=
  (sessionid, inode) :: o

/-- `of_session_removed`. -/
def ofSessionRemoved : OpenFiles :=
  o.filter fun r => r.1 != sessionid

/-- `of_mr_acquire`. -/
def ofMrAcquire : Status × OpenFiles :=
  if o.ofChecknode sessionid inode then (.mismatch, o)
  else (.ok, o.ofNewnode sessionid inode)

/-- `of_mr_release`: the first matching relation is deleted. -/
def ofMrRelease : Status × OpenFiles :=
  if o.ofChecknode sessionid inode then (.ok, o.erase (sessionid, inode))
  else (.mismatch, o)

/-- The inodes `of_sync` closes: open in the session and not in the client's list. -/
def syncClosed (inodes : List Nat) : List Nat :=
  (o.filter fun r => r.1 == sessionid && !inodes.contains r.2).map Prod.snd

/-- The inodes `of_sync` opens, in the order of the sorted list.  The binary search
marks ONE position for each inode that is open already; every other position,
a repeated one included, is opened. -/
def syncOpened (inodes : List Nat) : List Nat :=
  (inodes.mergeSort (· ≤ ·)).diff
    ((o.filter fun r => r.1 == sessionid).map Prod.snd).dedup

/-- `of_sync`. -/
def ofSync (inodes : List Nat) : OpenFiles :=
  let kept : OpenFiles := o.filter fun r => !(r.1 == sessionid && !inodes.contains r.2)
  (o.syncOpened sessionid inodes).foldl (fun o i => o.ofNewnode sessionid i) kept

end OpenFiles

end MfsMaster
