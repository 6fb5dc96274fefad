/-
  MfsMaster.Fs.Access
  Permission, name and quota tests of `filesystem.c`.
-/
import MfsMaster.Fs.State

namespace MfsMaster

/-- What a request would add: inodes, length, size, realsize. -/
structure Demand where
  inodes : UInt32
  length : UInt64
  size : UInt64
  realsize : UInt64

/-- `a - b`, or 0. -/
def Demand.excess (a b : StatsRecord) : Demand :=
  { inodes := if b.inodes < a.inodes then a.inodes - b.inodes else 0
    length := if b.length < a.length then a.length - b.length else 0
    size := if b.size < a.size then a.size - b.size else 0
    realsize := if b.realsize < a.realsize then a.realsize - b.realsize else 0 }

namespace Master

/-! ## §1. Permissions. -/

def modeMaskR : UInt8 := 4
def modeMaskW : UInt8 := 2
def modeMaskX : UInt8 := 1

/-- `fsnodes_accessmode`: the set of requests a caller may make on a node. -/
def fsnodesAccessmode (s : Master) (i : Nat) (n : FsNode) (c : Cred) (f : SesFlags) : UInt8 :=
  if c.uid = 0 then modetoaccmode 7
  else
    let modemask : UInt8 :=
      if n.type = .file ∧ hasBit n.winattr winattrReadOnly then 0x33 else 0xFF
    if n.aclpermflag then modemask &&& posixAclAccmode s.acls i c n.uid n.gid
    else if c.uid = n.uid ∨ hasBit n.eattr eattrNoowner then
      modemask &&& modetoaccmode (n.mode >>> 6)
    else if f.ignoregid then modemask &&& modetoaccmode ((n.mode >>> 3) ||| n.mode)
    else if c.gids.contains n.gid then modemask &&& modetoaccmode (n.mode >>> 3)
    else modemask &&& modetoaccmode n.mode

/-- `fsnodes_access_ext`. -/
def fsnodesAccessExt (s : Master) (i : Nat) (n : FsNode) (c : Cred) (modemask : UInt8)
    (f : SesFlags) : Bool :=
  hasBit (s.fsnodesAccessmode i n c f) (1 <<< (modemask &&& 7))

/-- `fsnodes_sticky_access`. -/
def fsnodesStickyAccess (parent node : FsNode) (uid : Nat) : Bool :=
  uid == 0 || parent.mode &&& 0o1000 == 0
    || uid == parent.uid || hasBit parent.eattr eattrNoowner
    || uid == node.uid || hasBit node.eattr eattrNoowner

/-- `fsnodes_node_find_ext`: the inode (the root of the session replaces inode 1) and its
node, if the session sees it. -/
def fsnodesNodeFindExt (s : Master) (rootinode : Nat) (f : SesFlags) (inode : Nat) :
    Option (Nat × FsNode) :=
  if f.metarestore ∨ rootinode = rootId then
    (s.nodes inode).map fun n => (inode, n)
  else if rootinode = 0 then
    (s.nodes inode).bind fun n =>
      if n.type = .trash ∨ n.type = .sustained then some (inode, n) else none
  else if s.isDir rootinode then
    if inode = rootId then (s.nodes rootinode).map fun n => (rootinode, n)
    else (s.nodes inode).bind fun n =>
      if s.fsnodesIsancestor rootinode inode then some (inode, n) else none
  else none

/-! ## §2. Names. -/

/-- `MAXFNAMELENG`. -/
def maxFnameLeng : Nat := 255

/-- `'.'`. -/
def dot : UInt8 := 0x2E

/-- `fsnodes_namecheck`: `false` for -1. -/
def fsnodesNamecheck (name : Name) : Bool :=
  name.length != 0 && name.length ≤ maxFnameLeng
    && name != [dot] && name != [dot, dot]
    && !name.contains 0 && !name.contains slash

/-! ## §3. Quotas. -/

def quotaFlagSinodes : UInt8 := 0x01
def quotaFlagSlength : UInt8 := 0x02
def quotaFlagSsize : UInt8 := 0x04
def quotaFlagSrealsize : UInt8 := 0x08
def quotaFlagHinodes : UInt8 := 0x10
def quotaFlagHlength : UInt8 := 0x20
def quotaFlagHsize : UInt8 := 0x40
def quotaFlagHrealsize : UInt8 := 0x80

/-- The tests of one kind of limit, hard and (when the soft limit has run out) soft. -/
def overLimits (q : QuotaNode) (psr : StatsRecord) (d : Demand) (hard : Bool) : Bool :=
  let flag := fun (h s : UInt8) => hasBit q.flags (if hard then h else s)
  (0 < d.inodes && flag quotaFlagHinodes quotaFlagSinodes
      && (if hard then q.hinodes else q.sinodes) < psr.inodes + d.inodes)
    || (0 < d.length && flag quotaFlagHlength quotaFlagSlength
      && (if hard then q.hlength else q.slength) < psr.length + d.length)
    || (0 < d.size && flag quotaFlagHsize quotaFlagSsize
      && (if hard then q.hsize else q.ssize) < psr.size + d.size)
    || (0 < d.realsize && flag quotaFlagHrealsize quotaFlagSrealsize
      && (if hard then q.hrealsize else q.srealsize) < psr.realsize + d.realsize)

/-- `fsnodes_test_quota_noparents`. -/
def fsnodesTestQuotaNoparents (s : Master) (i : Nat) (d : Demand) : Bool :=
  match s.quota i with
  | none => false
  | some q =>
    s.isDir i && (overLimits q (s.stats i) d true
      || (q.exceeded && overLimits q (s.stats i) d false))

/-- `fsnodes_test_quota`. -/
def fsnodesTestQuota (s : Master) (i : Nat) (d : Demand) : Bool :=
  (s.upwards i).any fun j => s.fsnodesTestQuotaNoparents j d

/-- The directories with a quota at and above `i`, outermost first. -/
def quotaChain (s : Master) (i : Nat) : List Nat :=
  ((chainUp s.edges (s.edges.length + 1) (some i)).filter fun j => (s.quota j).isSome).reverse

/-- Drop the common beginning of two lists from the first one (`skip common nodes`). -/
def dropCommon : List Nat → List Nat → List Nat
  | x :: xs, y :: ys => if x = y then dropCommon xs ys else x :: xs
  | xs, _ => xs

/-- `fsnodes_test_quota_for_uncommon_nodes`. -/
def fsnodesTestQuotaForUncommonNodes (s : Master) (dst src : Nat) (d : Demand) : Bool :=
  if dst = src then false
  else (dropCommon (s.quotaChain dst) (s.quotaChain src)).any fun j => s.fsnodesTestQuota j d

end Master

end MfsMaster
