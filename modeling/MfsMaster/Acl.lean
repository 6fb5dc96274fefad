/-
  MfsMaster.Acl
  POSIX access lists (`posixacl.c`): the permissions they grant and what a new node
  inherits from the default list of its directory.
-/
import MfsMaster.Types

namespace MfsMaster

/-- `acl_node`: the fixed entries, the mask, and the named users and groups with their
permissions. -/
structure AclNode where
  userperm : UInt16
  groupperm : UInt16
  otherperm : UInt16
  mask : UInt16
  namedusers : List (Nat × UInt16)
  namedgroups : List (Nat × UInt16)
  deriving Repr, DecidableEq

/-- What `posix_acl_create` makes. -/
def AclNode.empty : AclNode :=
  { userperm := 0, groupperm := 0, otherperm := 0, mask := 0, namedusers := [], namedgroups := [] }

/-- The access lists and the default lists, by inode. -/
structure Acls where
  access : Nat → Option AclNode
  default : Nat → Option AclNode

/-- `modetoaccmode`: for three permission bits, the set of requests (as bits) they allow. -/
def modetoaccmode (m : UInt16) : UInt8 :=
  match (m &&& 7).toNat with
  | 0 => 0x01
  | 1 => 0x03
  | 2 => 0x05
  | 3 => 0x0F
  | 4 => 0x11
  | 5 => 0x33
  | 6 => 0x55
  | _ => 0xFF

/-- `posix_acl_accmode`. -/
def posixAclAccmode (acls : Acls) (inode : Nat) (c : Cred) (fuid fgid : Nat) : UInt8 :=
  if c.uid = 0 then modetoaccmode 7
  else match acls.access inode with
    | none => modetoaccmode 0
    | some acn =>
      if c.uid = fuid then modetoaccmode acn.userperm
      else match acn.namedusers.find? fun u => u.1 == c.uid with
        | some u => modetoaccmode (u.2 &&& acn.mask)
        | none =>
          -- the owning group and every named group of the caller add their rights
          let groups := (if c.gids.contains fgid then [acn.groupperm] else [])
            ++ (acn.namedgroups.filter fun g => c.gids.contains g.1).map Prod.snd
          if groups.isEmpty then modetoaccmode acn.otherperm
          else groups.foldl (fun m p => m ||| modetoaccmode (p &&& acn.mask)) 0

/-- `posix_acl_getmode`. -/
def posixAclGetmode (acls : Acls) (inode : Nat) : UInt16 :=
  match acls.access inode with
  | none => 0
  | some acn =>
    ((acn.userperm &&& 7) <<< 6) ||| ((acn.mask &&& 7) <<< 3) ||| (acn.otherperm &&& 7)

/-- `posix_acl_setmode`. -/
def posixAclSetmode (acls : Acls) (inode : Nat) (mode : UInt16) : Acls :=
  let set := fun (perm bits : UInt16) => (perm &&& 0xFFF8) ||| (bits &&& 7)
  { acls with access := fun j => if j = inode then (acls.access j).map fun acn =>
      { acn with userperm := set acn.userperm (mode >>> 6), mask := set acn.mask (mode >>> 3)
                 otherperm := set acn.otherperm mode }
    else acls.access j }

/-- The access list a new node gets from the default list `pacn`, for the requested
`mode`; `acn` is what the store holds under the new inode. -/
def AclNode.inherit (acn pacn : AclNode) (mode : UInt16) : AclNode :=
  { userperm := ((acn.userperm &&& (0xFFF8 : UInt16)) ||| ((mode >>> 6) &&& (7 : UInt16))) &&& pacn.userperm
    groupperm := pacn.groupperm
    otherperm := ((acn.otherperm &&& (0xFFF8 : UInt16)) ||| (mode &&& (7 : UInt16))) &&& pacn.otherperm
    mask := ((acn.mask &&& (0xFFF8 : UInt16)) ||| ((mode >>> 3) &&& (7 : UInt16))) &&& pacn.mask
    namedusers := pacn.namedusers
    namedgroups := pacn.namedgroups }

/-- Is the default list only three permission triplets? -/
def AclNode.simple (pacn : AclNode) : Bool :=
  pacn.namedusers.isEmpty && pacn.namedgroups.isEmpty && pacn.userperm ≤ 7
    && pacn.groupperm ≤ 7 && pacn.otherperm ≤ 7 && pacn.mask == 0xFFFF

/-- What `posix_acl_copydefaults` returns: the lists, the mode, and whether an access and a
default list were made for the new node. -/
structure AclCopy where
  acls : Acls
  mode : UInt16
  aclperm : Bool
  acldef : Bool

/-- The first half of `posix_acl_copydefaults`: the mode and the access list. -/
def copyAccess (acls : Acls) (inode : Nat) (pacn : AclNode) (mode : UInt16) : AclCopy :=
  if pacn.simple then
    { acls := acls
      mode := mode &&& ((0xFE00 : UInt16) ||| (pacn.userperm <<< 6) ||| (pacn.groupperm <<< 3)
        ||| pacn.otherperm)
      aclperm := false, acldef := false }
  else
    let acn := ((acls.access inode).getD .empty).inherit pacn mode
    { acls := { acls with access := fun i => if i = inode then some acn else acls.access i }
      mode := (mode &&& (0xFE00 : UInt16)) ||| ((acn.userperm &&& (7 : UInt16)) <<< (6 : UInt16))
        ||| ((acn.groupperm &&& (7 : UInt16)) <<< (3 : UInt16)) ||| (acn.otherperm &&& (7 : UInt16))
      aclperm := (acls.access inode).isNone, acldef := false }

/-- `posix_acl_copydefaults`. -/
def posixAclCopydefaults (acls : Acls) (parent inode : Nat) (directory : Bool) (mode : UInt16) :
    AclCopy :=
  match acls.default parent with
  | none => { acls := acls, mode := mode, aclperm := false, acldef := false }
  | some pacn =>
    let r := copyAccess acls inode pacn mode
    if directory then
      { r with
        acls := { r.acls with
          default := fun i => if i = inode then some pacn else r.acls.default i }
        acldef := (r.acls.default inode).isNone }
    else r

/-- `posix_acl_remove` of both lists of a node, as `fsnodes_remove_node` calls it. -/
def posixAclRemove (acls : Acls) (inode : Nat) (aclpermflag acldefflag : Bool) : Acls :=
  { access := fun i => if i = inode ∧ aclpermflag then none else acls.access i
    default := fun i => if i = inode ∧ acldefflag then none else acls.default i }

end MfsMaster
