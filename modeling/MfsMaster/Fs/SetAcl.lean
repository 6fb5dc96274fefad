/-
  MfsMaster.Fs.SetAcl
  **SETTING AND REMOVING ACCESS LISTS** (`fs_setfacl`, `posix_acl_set`) and the record of it
  (`fs_mr_setacl`).

  An access list that says no more than a mode is not stored: it becomes the mode.  A request
  whose permissions are all `0xFFFF` and that names nobody removes the list.

      AclsOk.fsSetfacl     — the request keeps flags, modes and lists in agreement
      AclsOk.fsMrSetacl    — so does the record the leader writes for it
-/
import MfsMaster.Fs.AclAgree
import MfsMaster.Fs.Records

namespace MfsMaster

open FsNode

/-! ## §1. The lists of a node. -/

/-- `POSIX_ACL_ACCESS` and `POSIX_ACL_DEFAULT`. -/
inductive AclType where
  | access
  | default
  deriving Repr, DecidableEq

/-- The type a request names. -/
def aclTypeOf (acltype : UInt8) : Option AclType :=
  if acltype = 1 then some .access else if acltype = 2 then some .default else none

/-- The list of a type. -/
def Acls.find (acls : Acls) : AclType → Nat → Option AclNode
  | .access => acls.access
  | .default => acls.default

/-- Store or take away a list. -/
def Acls.put (acls : Acls) (t : AclType) (i : Nat) (l : Option AclNode) : Acls :=
  match t with
  | .access => { acls with access := fun j => if j = i then l else acls.access j }
  | .default => { acls with default := fun j => if j = i then l else acls.default j }

/-- `fs_set_aclflag` and `fs_del_aclflag`. -/
def FsNode.setAclflag (t : AclType) (flag : Bool) (n : FsNode) : FsNode :=
  match t with
  | .access => { n with aclpermflag := flag }
  | .default => { n with acldefflag := flag }

def FsNode.setMode (mode : UInt16) (n : FsNode) : FsNode := { n with mode := mode }

/-- The request to remove a list. -/
def AclNode.removes (acn : AclNode) : Bool :=
  acn.userperm &&& acn.groupperm &&& acn.otherperm &&& acn.mask == 0xFFFF
    && acn.namedusers.isEmpty && acn.namedgroups.isEmpty

/-- Permissions that are not given are those of the mode. -/
def AclNode.filled (acn : AclNode) (mode : UInt16) : AclNode :=
  { acn with
    userperm := if acn.userperm = 0xFFFF then (mode >>> (6 : UInt16)) &&& 7 else acn.userperm
    groupperm := if acn.groupperm = 0xFFFF then (mode >>> (3 : UInt16)) &&& 7 else acn.groupperm
    otherperm := if acn.otherperm = 0xFFFF then mode &&& 7 else acn.otherperm }

/-- The mode with the permissions of a list. -/
def AclNode.modeOf (acn : AclNode) (mode : UInt16) : UInt16 :=
  (mode &&& 0o7000) ||| (((acn.userperm &&& (7 : UInt16)) <<< (6 : UInt16))
    ||| ((acn.groupperm &&& (7 : UInt16)) <<< (3 : UInt16)) ||| (acn.otherperm &&& (7 : UInt16)))

variable {s : Master} {t : AclType} {f : SesFlags} {q : SetfaclRequest}

namespace Master

/-- `posix_acl_remove` of one list, with its flag. -/
def dropAcl (s : Master) (t : AclType) (i : Nat) : Master :=
  ({ s with acls := s.acls.put t i none } : Master).modNode i (.setAclflag t false)

/-- `posix_acl_set`. -/
def posixAclSet (s : Master) (t : AclType) (i : Nat) (acn : AclNode) : Master :=
  if t = .access ∧ acn.simple then s.dropAcl t i
  else
    let s' := ({ s with acls := s.acls.put t i (some acn) } : Master)
    if (s.acls.find t i).isNone then s'.modNode i (.setAclflag t true) else s'

/-! ## §2. The request and its record. -/

/-- A request to set or remove a list. -/
structure SetfaclRequest where
  inode : Nat
  uid : Nat
  acltype : UInt8
  list : AclNode

/-- A SETACL record. -/
structure SetaclRecord where
  ts : UInt32
  inode : Nat
  mode : UInt16
  changectime : Bool
  acltype : UInt8
  list : AclNode
  deriving Repr, DecidableEq

/-- The tests of `fs_setfacl`. -/
def setfaclTests (s : Master) (rootinode : Nat) (f : SesFlags) (q : SetfaclRequest) :
    Except Status ((Nat × FsNode) × AclType) := do
  refuse f.readonly .erofs
  let p ← require (s.fsnodesNodeFindExt rootinode f q.inode) .enoent
  refuse (!hasBit p.2.eattr eattrNoowner && q.uid != 0 && q.uid != p.2.uid) .eperm
  refuse (hasBit p.2.eattr eattrImmutable) .eperm
  let t ← require (aclTypeOf q.acltype) .einval
  refuse (!q.list.removes && t == .default && p.2.type != .directory) .eacces
  return (p, t)

/-- The mode after a list was set. -/
def setfaclMode (t : AclType) (acn : AclNode) (n : FsNode) : UInt16 :=
  match t with
  | .access => acn.modeOf n.mode
  | .default => n.mode

/-- `fs_setfacl`, with the record it writes. -/
def fsSetfacl (s : Master) (ts : UInt32) (rootinode : Nat) (f : SesFlags) (q : SetfaclRequest) :
    Status × Master × Option SetaclRecord :=
  match s.setfaclTests rootinode f q with
  | .error st => (st, s, none)
  | .ok ((i, n), t) =>
    if q.list.removes then
      (.ok, s.dropAcl t i, some ⟨ts, i, n.mode, false, q.acltype, q.list⟩)
    else
      let acn := q.list.filled n.mode
      let mode := setfaclMode t acn n
      let s := (s.posixAclSet t i acn).modNode i (.setMode mode)
      (.ok, if mode = n.mode then s else s.touchCtime i ts,
        some ⟨ts, i, mode, mode != n.mode, q.acltype, acn⟩)

/-- `fs_mr_setacl`.  The field `mode` has 12 bits. -/
def fsMrSetacl (s : Master) (r : SetaclRecord) : Option Master :=
  match s.nodes r.inode, aclTypeOf r.acltype with
  | some _, some t =>
    if r.list.removes then some (s.dropAcl t r.inode)
    else
      let s := (s.posixAclSet t r.inode r.list).modNode r.inode (.setMode (r.mode &&& 0o7777))
      some (if r.changectime then s.touchCtime r.inode r.ts else s)
  | _, _ => none

/-! ## §3. What they keep. -/

/-- One node of a state in order may change, with its lists. -/
theorem AclsOk.changed {t : Master} (h : AclsOk s s) (i : Nat)
    (hother : ∀ j, j ≠ i → t.aclView j = s.aclView j) (hself : (t.aclView i).Agrees)
    (hpool : t.pool = s.pool) (hnode : (s.nodes i).isSome = true) : AclsOk t t where
  agree := by
    intro j
    by_cases hj : j = i
    · exact hj ▸ hself
    · exact hother j hj ▸ h.agree j
  pool := by
    rw [hpool]
    refine h.pool.mono fun j hj => .inl ?_
    have hj : (t.nodes j).isSome = true := hj.elim id id
    by_cases hji : j = i
    · exact hji ▸ hnode
    · rwa [isSome_node_view, ← hother j hji, ← isSome_node_view]
  lists := fun _ _ => .inl rfl

theorem modeAgrees_modeOf {acn : AclNode} {mode : UInt16} : acn.ModeAgrees (acn.modeOf mode) := by
  unfold AclNode.ModeAgrees AclNode.modeOf
  refine Lib.eq_of_bits fun i hi => ?_
  interval_cases i <;> simp [UInt16.toBitVec_shiftLeft]

section Lists

variable {s : Master} {i : Nat} {n : FsNode}

/-- A list is taken away with its flag. -/
theorem AclsOk.dropAcl (h : AclsOk s s) (hn : s.nodes i = some n) :
    AclsOk (s.dropAcl t i) (s.dropAcl t i) := by
  obtain ⟨hacc, hdef, hmode⟩ := h.node hn
  have hview : (s.dropAcl t i).aclView i = match t with
      | .access => ⟨some (false, n.acldefflag, n.mode), none, s.acls.default i⟩
      | .default => ⟨some (n.aclpermflag, false, n.mode), s.acls.access i, none⟩ := by
    cases t <;>
      simp [Master.dropAcl, aclView, modNode, hn, Acls.put, setAclflag, aclBits]
  refine h.changed i (fun j hj => ?_) ?_ rfl (Option.isSome_of_eq_some hn)
  · cases t <;> simp [Master.dropAcl, aclView, modNode, Acls.put, hj]
  · rw [hview]
    cases t with
    | access => exact ⟨rfl, hdef, fun _ _ h => by cases h⟩
    | default =>
      refine ⟨hacc, rfl, ?_⟩
      intro acn b hacn hb
      cases hb
      exact hmode acn hacn

/-- The flags, the mode and the lists after a list and a mode were set. -/
theorem aclView_posixAclSet (h : AclsOk s s) (hn : s.nodes i = some n) {acn : AclNode}
    {mode : UInt16} : ((s.posixAclSet t i acn).modNode i (.setMode mode)).aclView i = match t with
      | .access =>
        if acn.simple then ⟨some (false, n.acldefflag, mode), none, s.acls.default i⟩
        else ⟨some (true, n.acldefflag, mode), some acn, s.acls.default i⟩
      | .default => ⟨some (n.aclpermflag, true, mode), s.acls.access i, some acn⟩ := by
  obtain ⟨hacc, hdef, _⟩ := h.node hn
  cases t with
  | access =>
    unfold posixAclSet
    by_cases hsimple : acn.simple = true
    · simp [hsimple, Master.dropAcl, aclView, modNode, hn, Acls.put, setAclflag,
        setMode, aclBits]
    -- the flag is set when the list is new; otherwise it was set before
    cases hlist : s.acls.access i <;> rw [hlist] at hacc <;>
      simp [hsimple, hlist, aclView, modNode, hn, Acls.put, Acls.find, setAclflag,
        setMode, aclBits, ← hacc]
  | default =>
    unfold posixAclSet
    cases hlist : s.acls.default i <;> rw [hlist] at hdef <;>
      simp [hlist, aclView, modNode, hn, Acls.put, Acls.find, setAclflag, setMode,
        aclBits, ← hdef]

/-- **A list is set**, and the mode with it: to the permissions of an access list; next to a
default list it stays. -/
theorem AclsOk.posixAclSet (h : AclsOk s s) (hn : s.nodes i = some n)
    (acn : AclNode) {mode : UInt16} (haccess : t = .access → acn.ModeAgrees mode)
    (hdefault : t = .default → mode &&& 0o777 = n.mode &&& 0o777) :
    AclsOk ((s.posixAclSet t i acn).modNode i (.setMode mode))
      ((s.posixAclSet t i acn).modNode i (.setMode mode)) := by
  obtain ⟨hacc, hdef, hmode⟩ := h.node hn
  refine h.changed i (fun j hj => ?_) ?_ ?_ (Option.isSome_of_eq_some hn)
  · unfold Master.posixAclSet
    cases t <;> split_ifs <;> simp [Master.dropAcl, aclView, modNode, Acls.put, hj]
  · rw [aclView_posixAclSet h hn]
    cases t with
    | access =>
      dsimp only
      split
      · exact ⟨rfl, hdef, fun _ _ h => by cases h⟩
      refine ⟨rfl, hdef, ?_⟩
      intro acn' b hacn hb
      cases hacn
      cases hb
      exact haccess rfl
    | default =>
      refine ⟨hacc, rfl, ?_⟩
      intro acn' b hacn hb
      cases hb
      exact (hmode acn' hacn).congr (hdefault rfl)
  · unfold Master.posixAclSet
    split_ifs <;> rfl

end Lists

variable {rootinode : Nat} {ts : UInt32}

/-- What the tests found. -/
theorem setfaclTests_spec {p : Nat × FsNode} (h : s.setfaclTests rootinode f q = .ok (p, t)) :
    s.nodes p.1 = some p.2 ∧ aclTypeOf q.acltype = some t := by
  simp only [setfaclTests, except_bind_eq_ok, require_eq_ok, refuse_eq_ok] at h
  obtain ⟨_, _, p', hp, _, _, _, _, t', ht, _, _, h⟩ := h
  cases h
  exact ⟨findExt_node hp, ht⟩

/-- The mode a request sets fits the list it sets. -/
theorem setfaclMode_access (acn : AclNode) {n : FsNode} :
    (t = .access → acn.ModeAgrees (setfaclMode t acn n))
      ∧ (t = .default → setfaclMode t acn n = n.mode) := by
  refine ⟨?_, ?_⟩
  · rintro rfl
    exact modeAgrees_modeOf
  · rintro rfl
    rfl

/-- **`fs_setfacl`** keeps flags, modes and lists in agreement. -/
theorem AclsOk.fsSetfacl (h : AclsOk s s) :
    AclsOk (s.fsSetfacl ts rootinode f q).2.1 (s.fsSetfacl ts rootinode f q).2.1 := by
  unfold Master.fsSetfacl
  split
  · exact h
  next i n t htests =>
  obtain ⟨hn, _⟩ := setfaclTests_spec htests
  split
  · exact h.dropAcl hn
  obtain ⟨haccess, hdefault⟩ := setfaclMode_access (t := t) (q.list.filled n.mode)
  have h1 := h.posixAclSet hn (q.list.filled n.mode) haccess fun ht => by rw [hdefault ht]
  dsimp only
  split
  · exact h1
  · exact (h1.same touched_touchCtime.sameAcls).start

/-- **`fs_mr_setacl`** keeps them in agreement, for the record a leader writes in the same
state. -/
theorem AclsOk.fsMrSetacl (h : AclsOk s s) {r : SetaclRecord}
    (hr : (s.fsSetfacl ts rootinode f q).2.2 = some r) {t : Master} (ht : s.fsMrSetacl r = some t) :
    AclsOk t t := by
  unfold Master.fsSetfacl at hr
  split at hr
  · cases hr
  next i n type htests =>
  obtain ⟨hn, htype⟩ := setfaclTests_spec htests
  unfold Master.fsMrSetacl at ht
  split at hr
  all_goals
    cases hr
    rw [hn, htype] at ht
    dsimp only at ht
    split at ht
    · cases ht
      exact h.dropAcl hn
  · contradiction
  cases ht
  obtain ⟨haccess, hdefault⟩ := setfaclMode_access (t := type) (q.list.filled n.mode)
  have hlow : ∀ mode : UInt16, mode &&& 0o7777 &&& 0o777 = mode &&& 0o777 := by
    intro mode
    rw [UInt16.and_assoc]
    rfl
  have h1 := h.posixAclSet hn (q.list.filled n.mode)
    (fun htype => (haccess htype).congr (hlow _))
    (fun htype => by rw [hlow, hdefault htype])
  split
  · exact (h1.same touched_touchCtime.sameAcls).start
  · exact h1

end Master

end MfsMaster
