/-
  MfsMaster.Fs.Recover
  **RECOVERY FROM THE TRASH** (`fs_univ_trash_recover`).

  The walk takes the path component by component: an existing directory is entered, a
  missing one is made, and a name that is in the way is replaced by a unique one.  On the
  leader a directory the caller may not write, or one over its quota, is in the way too.
  From its tenth try on, `fsnodes_find_uniqname` asks for random numbers: `rnd` is their
  sequence, and `fuel` bounds the number of tries (the C loop has no bound).
-/
import MfsMaster.Fs.Edges

namespace MfsMaster

/-! ## §1. Unique names. -/

/-- The position of the last dot at or before `p`, or 0. -/
def dotPos (name : Name) : Nat → Nat
  | 0 => 0
  | p + 1 => if name.getD (p + 1) 0 = Master.dot then p + 1 else dotPos name p

/-- The base and the extension (with its dot) of a name; long extensions are none. -/
def splitExt (name : Name) : Name × Name :=
  let p := dotPos name (name.length - 1)
  if p = 0 ∨ 128 < name.length - p - 1 then (name, []) else (name.take p, name.drop p)

/-- `base (tag).ext`; the base is cut when the name would get too long. -/
def uniqName (name tag : Name) : Name :=
  let r := splitExt name
  let extraChars := tag.length + 3
  let fixedBaseLeng :=
    if 255 - extraChars < name.length then 255 - extraChars - r.2.length else r.1.length
  r.1.take fixedBaseLeng ++ ([0x20, 0x28] ++ (tag ++ ([0x29] ++ r.2)))

/-- A digit of `"0123456789ABCDEF"`. -/
def hexDigit (n : Nat) : UInt8 :=
  UInt8.ofNat (if n < 10 then 0x30 + n else 0x37 + n)

/-- The digits of a random number, lowest first. -/
def hexTag (r : UInt32) : Name :=
  (List.range 8).map fun i => hexDigit (r.toNat / 16 ^ i % 16)

namespace Master

/-- `fsnodes_find_uniqname`, from the try `cnt + 1` (a `uint8_t`) and the `pos`-th random
number on: the name and the position in the sequence. -/
def findUniqname (s : Master) (d : Nat) (name : Name) (rnd : Nat → UInt32) :
    Nat → Nat → Nat → Option (Name × Nat)
  | 0, _, _ => none
  | fuel + 1, cnt, pos =>
    let cnt := (cnt + 1) % 256
    let r := if cnt < 10 then (uniqName name [UInt8.ofNat (0x30 + cnt)], pos)
      else (uniqName name (hexTag (rnd pos)), pos + 1)
    if s.fsnodesNameisused d r.1 then findUniqname s d name rnd fuel cnt r.2 else some r

/-! ## §2. The walk. -/

/-- What stays the same during a walk: the arguments of the call, the edge in the trash, the
random numbers, and the tests of an existing directory (the directory before it and the
directory itself). -/
structure Recovery where
  ts : UInt32
  cumask : UInt16
  uid : Nat
  gid : Nat
  copysgid : Bool
  e : FsEdge
  rnd : Nat → UInt32
  fuel : Nat
  forbidden : Master → Nat → Nat → Bool

/-- `used_path`, `chgname` and the number of random numbers taken. -/
structure Progress where
  path : Name
  chgname : Bool
  pos : Nat
  deriving Repr, DecidableEq

/-- Append to `used_path`, which holds `MFS_PATH_MAX` bytes. -/
def appendPath (path part : Name) : Name :=
  path ++ part.take (mfsPathMax - path.length)

/-- The progress after a component. -/
def Progress.add (p : Progress) (name : Name) (funiq middle : Bool) (pos : Nat) : Progress :=
  let path := appendPath p.path name
  { path := if middle then appendPath path [slash] else path
    chgname := p.chgname || funiq
    pos := pos }

/-- The path a walk reports: nothing when no name was changed. -/
def Progress.used (p : Progress) : Name :=
  if p.chgname then p.path else []

/-- `ndwd` and `funiq` for a component in the middle of the path. -/
def ndwdFuniq (s : Master) (forbidden : Master → Nat → Nat → Bool) (d : Nat) (c : Name) :
    Option Nat × Bool :=
  match s.fsnodesLookup d c with
  | none => (none, false)
  | some ne =>
    if s.isDir ne.child && !forbidden s d ne.child then (some ne.child, false) else (none, true)

/-- The name used for a component. -/
def usedName (k : Recovery) (s : Master) (d : Nat) (c : Name) (funiq : Bool) (pos : Nat) :
    Option (Name × Nat) :=
  if funiq then s.findUniqname d c k.rnd k.fuel 0 pos else some (c, pos)

/-- A directory made for a component. -/
def makePart (k : Recovery) (s : Master) (d : Nat) (name : Name) : Nat × Master :=
  s.fsnodesCreateNode k.ts d name .directory 0o777 k.cumask k.uid k.gid k.copysgid

/-- The second loop of `fs_univ_trash_recover`; `none` when the search for a unique name does
not end within the fuel. -/
def recoverLoop (k : Recovery) :
    List Name → Master → Nat → Progress → Option (Master × Progress)
  | [], s, _, p => some (s, p)
  | c :: rest, s, d, p =>
    if rest.isEmpty then
      let funiq := s.fsnodesNameisused d c
      (usedName k s d c funiq p.pos).map fun r =>
        (s.relink k.ts k.e d r.1, p.add r.1 funiq false r.2)
    else
      let m := s.ndwdFuniq k.forbidden d c
      (usedName k s d c m.2 p.pos).bind fun r =>
        match m.1 with
        | some j => recoverLoop k rest s j (p.add r.1 m.2 true r.2)
        | none =>
          let n := makePart k s d r.1
          recoverLoop k rest n.2 n.1 (p.add r.1 m.2 true r.2)

/-! ## §3. The operation. -/

/-- TRASH_RECOVER: the arguments, and the path used if a name was changed. -/
structure RecoverRecord where
  ts : UInt32
  inode : Nat
  parent : Nat
  path : Name
  cumask : UInt16
  uid : Nat
  gid : Nat
  copysgid : Bool
  used : Name
  deriving Repr, DecidableEq

/-- The answer, `used_path` (empty when no name was changed), the new state and the records. -/
structure RecoverResult where
  status : Status
  used : Name
  state : Master
  log : List RecoverRecord

def RecoverResult.error (s : Master) (st : Status) : RecoverResult :=
  { status := st, used := [], state := s, log := [] }

/-- The tests before the quota: the directory and the edge of the file in the trash (which a
file in the trash always has). -/
def recoverCheck (s : Master) (rootinode : Nat) (f : SesFlags) (c : Cred) (inode parent : Nat) :
    Except Status (Nat × FsEdge) := do
  refuse (!f.metarestore && f.readonly) .erofs
  let dwd ← require (s.fsnodesNodeFindExt rootinode f parent) .enoent
  let sp ← require (s.nodes inode) .enoent
  refuse (c.uid != 0 && sp.uid != c.uid) .eperm
  refuse (sp.type != .trash) .einval
  refuse (dwd.2.type != .directory) .enotdir
  refuse (!f.metarestore && !s.fsnodesAccessExt dwd.1 dwd.2 c (modeMaskW ||| modeMaskX) f) .eacces
  let e ← require (s.parents inode).head? .enoent
  return (dwd.1, e)

/-- The tests of one component. -/
def partCheck (c : Name) : Except Status Unit := do
  refuse (c.contains 0) .einval
  refuse (decide (maxFnameLeng < c.length)) .enametoolong
  refuse (!fsnodesNamecheck c) .einval

/-- The first loop: the components of a path. -/
def pathCheck (path : Name) : Except Status (List Name) := do
  refuse (path.isEmpty || path.getLast? == some slash) .einval
  let parts := (components path).filter fun c => !c.isEmpty
  parts.forM partCheck
  return parts

/-- The tests the leader makes of a directory in the middle of the path; the quota tested is
that of the directory BEFORE it. -/
def forbiddenDir (c : Cred) (f : SesFlags) (demand : Demand) (s : Master) (d j : Nat) : Bool :=
  (match s.nodes j with
    | some n => !s.fsnodesAccessExt j n c (modeMaskW ||| modeMaskX) f
    | none => true)
    || s.fsnodesTestQuota d demand

/-- What the file adds to a directory. -/
def recoverDemand (s : Master) (inode : Nat) : Demand :=
  let sr := s.fsnodesGetStats inode
  ⟨sr.inodes, sr.length, sr.size, sr.realsize⟩

/-- The arguments of a recovery. -/
structure RecoverOp where
  inode : Nat
  parent : Nat
  path : Name
  cumask : UInt16
  copysgid : Bool
  deriving Repr, DecidableEq

/-- `fs_univ_trash_recover`. -/
def fsUnivTrashRecover (s : Master) (ts : UInt32) (rootinode : Nat) (f : SesFlags) (c : Cred)
    (op : RecoverOp) (rnd : Nat → UInt32) (fuel : Nat) : Option RecoverResult :=
  match s.recoverCheck rootinode f c op.inode op.parent with
  | .error st => some (.error s st)
  | .ok (d, e) =>
    let s := if f.metarestore then s else s.fsnodesCheckRealsize op.inode
    let demand := s.recoverDemand op.inode
    if !f.metarestore && s.fsnodesTestQuota d demand then some (.error s .quota)
    else
      let path := if op.path.isEmpty then e.name else op.path
      match pathCheck path with
      | .error st => some (.error s st)
      | .ok parts =>
        let k : Recovery :=
          { ts := ts, cumask := op.cumask, uid := c.uid, gid := c.gid, copysgid := op.copysgid
            e := e, rnd := rnd, fuel := fuel
            forbidden := if f.metarestore then fun _ _ _ => false else forbiddenDir c f demand }
        (recoverLoop k parts s d { path := [], chgname := false, pos := 0 }).map fun r =>
          { status := .ok, used := r.2.used, state := r.1
            log := if f.metarestore then [] else
              [{ ts := ts, inode := op.inode, parent := d, path := path, cumask := op.cumask
                 uid := c.uid, gid := c.gid, copysgid := op.copysgid, used := r.2.used }] }

/-- `fs_mr_trash_recover`. -/
def recoverApply (rnd : Nat → UInt32) (fuel : Nat) (s : Master) (e : RecoverRecord) :
    Option Master :=
  (s.fsUnivTrashRecover e.ts 0 .replica ⟨e.uid, [e.gid]⟩
    { inode := e.inode, parent := e.parent, path := e.path, cumask := e.cumask
      copysgid := e.copysgid } rnd fuel).bind fun r =>
    if r.status = .ok ∧ r.used = e.used then some r.state else none

end Master

end MfsMaster
