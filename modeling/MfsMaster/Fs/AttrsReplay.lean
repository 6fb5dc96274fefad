/-
  MfsMaster.Fs.AttrsReplay
  **RECORDS OF RECURSIVE ATTRIBUTE CHANGES.**

  A replica repeats the whole recursion and compares the three counters.  SETTRASHTIME
  and SETEATTR decide from the node and the uid of the record alone.  SETSCLASS also
  asks whether the SESSION is one of an administrator, which the record does not say:
  the replica always answers yes.

      attrs_replay_iff — the record of a successful request reproduces the attributes
                           ↔ `AdminIrrelevant`
-/
import MfsMaster.Fs.Attrs
import MfsMaster.Fs.MoveReplay

namespace MfsMaster

open Lib

variable {admin : Bool} {dst inode root uid : Nat} {f : SesFlags} {n : FsNode}
  {r : Counters × Master} {s : Master} {smode : UInt8} {ts : UInt32} {v : Visit} {t : Master}
  {i p : Nat} {l : List Nat}

namespace Master

/-! ## §1. The walk visits a list of nodes. -/

/-- The same edges between nodes of the same types. -/
structure SameTree (s t : Master) : Prop where
  edges : t.edges = s.edges
  typeOf : ∀ i, t.typeOf i = s.typeOf i

theorem SameTree.refl : SameTree s s := ⟨rfl, fun _ => rfl⟩

theorem SameTree.trans {u : Master} (h : SameTree s t) (h' : SameTree t u) : SameTree s u :=
  ⟨h'.edges.trans h.edges, fun i => (h'.typeOf i).trans (h.typeOf i)⟩

theorem SameTree.isDir (h : SameTree s t) (i : Nat) : t.isDir i = s.isDir i := by
  unfold Master.isDir
  rw [h.typeOf]

theorem SameTree.children (h : SameTree s t) (i : Nat) : t.children i = s.children i := by
  unfold Master.children
  rw [h.edges]

/-- A visit that leaves the tree alone. -/
def KeepsTree (v : Visit) : Prop :=
  ∀ s i, SameTree s (v s i).2

theorem KeepsTree.foldl (hv : KeepsTree v) (l : List Nat) (r : Counters × Master) :
    SameTree r.2 (l.foldl (visit v) r).2 :=
  List.foldlRecOn (motive := fun t => SameTree r.2 t.2) l (visit v) .refl fun t ht i _ =>
    ht.trans (hv t.2 i)

/-- The recursion is a loop over the nodes it visits. -/
theorem recurse_eq_foldl (hv : KeepsTree v) (s : Master) (recursive : Bool)
    (n i : Nat) (r : Counters × Master) (hr : SameTree s r.2) :
    recurse v recursive n i r = (s.subtree recursive n i).foldl (visit v) r := by
  induction n generalizing i r with
  | zero => rfl
  | succ n ih =>
    have hvisit : SameTree s (visit v r i).2 := hr.trans (hv r.2 i)
    -- the children one after the other; none of them changes the tree for the next
    have hloop : ∀ (l : List FsEdge) (r : Counters × Master), SameTree s r.2 →
        l.foldl (fun r e => recurse v recursive n e.child r) r
          = (l.flatMap fun e => s.subtree recursive n e.child).foldl (visit v) r := by
      intro l
      induction l with
      | nil => exact fun _ _ => rfl
      | cons e l ihl =>
        intro r hr
        rw [List.foldl_cons, List.flatMap_cons, List.foldl_append, ih e.child r hr]
        exact ihl _ (hr.trans (hv.foldl _ r))
    unfold recurse subtree
    dsimp only
    rw [List.foldl_cons, hvisit.isDir, hvisit.children]
    split
    · exact hloop _ _ hvisit
    · rfl

theorem recurseFrom_eq_foldl (hv : KeepsTree v) :
    recurseFrom v smode s i = (s.visited smode i).foldl (visit v) (.zero, s) :=
  recurse_eq_foldl hv s _ _ i _ .refl

/-! ## §2. One visit of `fsnodes_setsclass_recursive`. -/

/-- The state after a change of the class of the node `i`. -/
def setsclassDone (s : Master) (ts : UInt32) (dst i : Nat) (n : FsNode) : Master :=
  (if n.type = .directory then s.modNode i (.setSclassid dst)
    else s.fsnodesChangefilesclassid i dst).touchCtime i ts

theorem setsclassDone_dataOnly : DataOnly s (s.setsclassDone ts dst i n) := by
  refine DataOnly.trans ?_ touched_touchCtime.only
  split
  · exact dataOnly_modNode
  · exact dataOnly_fsnodesChangefilesclassid

/-- A change of the class changes the class (and the time) of that node only. -/
theorem setsclassDone_nodes (hn : s.nodes i = some n) (ts : UInt32) (dst : Nat) :
    NodesKept [] (s.modNode i (.setSclassid dst)) (s.setsclassDone ts dst i n) := by
  unfold setsclassDone
  split
  · exact touched_touchCtime.kept
  have h1 : NodesKept [] (s.modNode i (.setSclassid dst)) (s.fsnodesChangefilesclassid i dst) :=
    .of_eq (fsnodesChangefilesclassid_nodes hn)
  exact h1.trans touched_touchCtime.kept

/-- Is a node with the given number one that a request may not change? -/
def refusedAt (s : Master) (uid dst : Nat) (admin : Bool) (i : Nat) : Bool :=
  match s.nodes i with
  | none => false
  | some n => hasClass n.type && s.setsclassRefused uid dst admin n

/-- What a run of visits keeps of a node: everything the tests of a visit look at, but for
the class itself, and the class as far as these tests look at it. -/
structure SameTests (tab : SClassTab) (dst : Nat) (admin : Bool) (n n' : FsNode) : Prop where
  type : n'.type = n.type
  uid : n'.uid = n.uid
  eattr : n'.eattr = n.eattr
  adminOnly : ((tab.sclassIsAdminOnly n'.sclassid || tab.sclassIsAdminOnly dst) && !admin)
    = ((tab.sclassIsAdminOnly n.sclassid || tab.sclassIsAdminOnly dst) && !admin)

/-- The invariant of a run of visits from the state `s`. -/
structure SetsclassInv (s : Master) (dst : Nat) (admin : Bool) (t : Master) : Prop where
  frame : DataOnly s t
  nodes : ∀ i, Option.Rel (SameTests s.sclasses dst admin) (s.nodes i) (t.nodes i)

theorem SetsclassInv.refl : SetsclassInv s dst admin s := by
  refine ⟨.refl s, fun i => ?_⟩
  cases s.nodes i with
  | none => exact .none
  | some n => exact .some ⟨rfl, rfl, rfl, rfl⟩

/-- The tests say the same before and during a run. -/
theorem SetsclassInv.refusedAt (h : SetsclassInv s dst admin t) (uid i : Nat) :
    t.refusedAt uid dst admin i = s.refusedAt uid dst admin i := by
  have hi := h.nodes i
  unfold Master.refusedAt setsclassRefused notOwner
  rw [h.frame.sclasses]
  revert hi
  cases s.nodes i <;> cases t.nodes i <;> intro hi <;> cases hi
  · rfl
  next hsame =>
    dsimp only
    rw [hsame.type, hsame.uid, hsame.eattr, hsame.adminOnly]

/-- A class is changed by one who may change it, so the tests go on to say the same. -/
theorem SetsclassInv.done (h : SetsclassInv s dst admin t)
    (hn : t.nodes i = some n) (hok : t.setsclassRefused uid dst admin n = false) :
    SetsclassInv s dst admin (t.setsclassDone ts dst i n) := by
  refine ⟨h.frame.trans setsclassDone_dataOnly, fun j => ?_⟩
  have hkept := setsclassDone_nodes hn ts dst j
  have hj := h.nodes j
  unfold setsclassRefused at hok
  simp only [Bool.or_eq_false_iff, h.frame.sclasses] at hok
  unfold KeptAt at hkept
  rw [modNode_nodes] at hkept
  revert hj hkept
  by_cases hji : j = i
  · subst hji
    rw [if_pos rfl, hn]
    cases s.nodes j <;> cases (t.setsclassDone ts dst j n).nodes j <;> intro hj hkept <;>
      cases hj <;> cases hkept
    next n0 n' hk hsame =>
      refine .some ⟨hk.type.trans hsame.type, hk.uid.trans hsame.uid, hk.eattr.trans hsame.eattr, ?_⟩
      have hclass : n'.sclassid = dst := hk.sclassid
      rw [hclass, ← hsame.adminOnly, hok.2]
      cases admin
      · simp only [Bool.not_false, Bool.and_true, Bool.or_eq_false_iff] at hok
        rw [hok.2.2]
        rfl
      · simp
  · rw [if_neg hji]
    cases s.nodes j <;> cases t.nodes j <;> cases (t.setsclassDone ts dst i n).nodes j <;>
      intro hj hkept <;> cases hj <;> cases hkept
    · exact .none
    next n0 n1 n' hk hsame =>
      refine .some ⟨hk.type.trans hsame.type, hk.uid.trans hsame.uid, hk.eattr.trans hsame.eattr, ?_⟩
      rw [hk.sclassid]
      exact hsame.adminOnly

section Setsclass

variable (ts : UInt32) (uid src dst : Nat) (mode : SetMode)

theorem keepsTree_setsclassVisit : KeepsTree (setsclassVisit ts uid src dst mode admin) := by
  intro s i
  unfold setsclassVisit
  cases hn : s.nodes i with
  | none => exact .refl
  | some n =>
    dsimp only
    split
    · exact .refl
    split
    · exact .refl
    split
    · refine ⟨setsclassDone_dataOnly.edges, fun j => ?_⟩
      refine (setsclassDone_nodes hn ts dst j).typeOf.trans ?_
      unfold typeOf
      rw [modNode_nodes]
      split
      · rw [Option.map_map]
        rfl
      · rfl
    · exact .refl

/-- A visit keeps the invariant, and counts the node as not permitted when the tests said so
before the run. -/
theorem setsclassVisit_step (h : SetsclassInv s dst admin r.2) (i : Nat) :
    SetsclassInv s dst admin (visit (setsclassVisit ts uid src dst mode admin) r i).2
      ∧ (visit (setsclassVisit ts uid src dst mode admin) r i).1.nsinodes
        = r.1.nsinodes + (s.refusedAt uid dst admin i).toNat := by
  rw [← h.refusedAt]
  unfold visit setsclassVisit Master.refusedAt
  cases hn : r.2.nodes i with
  | none => exact ⟨h, rfl⟩
  | some n =>
    dsimp only
    by_cases hclass : hasClass n.type = true
    · rw [hclass]
      cases hrefused : r.2.setsclassRefused uid dst admin n with
      | true => exact ⟨h, rfl⟩
      | false =>
        cases setsclassWanted mode src dst n with
        | true => exact ⟨h.done hn hrefused, rfl⟩
        | false => exact ⟨h, rfl⟩
    · rw [Bool.not_eq_true] at hclass
      rw [hclass]
      exact ⟨h, rfl⟩

/-- A run keeps the invariant and counts the nodes that may not be changed. -/
theorem setsclassVisit_run (h : SetsclassInv s dst admin r.2) :
    (l.foldl (visit (setsclassVisit ts uid src dst mode admin)) r).1.nsinodes
      = r.1.nsinodes + l.countP (s.refusedAt uid dst admin) := by
  induction l generalizing r with
  | nil => rfl
  | cons i l ih =>
    obtain ⟨hinv, hcount⟩ := setsclassVisit_step ts uid src dst mode h i
    rw [List.foldl_cons, ih hinv, hcount, List.countP_cons]
    cases s.refusedAt uid dst admin i
    · simp
    · simp only [Bool.toNat_true, if_true]
      omega

/-- Two sessions that may change the same nodes make the same run. -/
theorem setsclassVisit_run_eq {a b : Bool}
    (hl : ∀ i ∈ l, s.refusedAt uid dst a i = s.refusedAt uid dst b i)
    (ha : SetsclassInv s dst a r.2) (hb : SetsclassInv s dst b r.2) :
    l.foldl (visit (setsclassVisit ts uid src dst mode a)) r
      = l.foldl (visit (setsclassVisit ts uid src dst mode b)) r := by
  induction l generalizing r with
  | nil => rfl
  | cons i l ih =>
    have hvisit : visit (setsclassVisit ts uid src dst mode a) r i
        = visit (setsclassVisit ts uid src dst mode b) r i := by
      have hi := hl i List.mem_cons_self
      rw [← ha.refusedAt, ← hb.refusedAt] at hi
      unfold Master.refusedAt at hi
      unfold visit setsclassVisit
      cases hn : r.2.nodes i with
      | none => rfl
      | some n =>
        rw [hn] at hi
        dsimp only at hi ⊢
        by_cases hclass : hasClass n.type = true
        · rw [hclass, Bool.true_and, Bool.true_and] at hi
          rw [hi]
        rw [Bool.not_eq_true] at hclass
        rw [hclass]
        rfl
    have ha' := (setsclassVisit_step ts uid src dst mode ha i).1
    have hb' := (setsclassVisit_step ts uid src dst mode hb i).1
    rw [List.foldl_cons, List.foldl_cons, ← hvisit]
    rw [← hvisit] at hb'
    exact ih (fun j hj => hl j (List.mem_cons_of_mem i hj)) ha' hb'

end Setsclass

variable {src : Nat} {eattr : UInt8}

/-! ## §3. Requests and records. -/

/-- The requests of this group. -/
inductive AttrOp where
  | setsclass (inode src dst : Nat) (smode : UInt8)
  | settrashretention (inode : Nat) (trashretention : UInt32) (smode : UInt8)
  | seteattr (inode : Nat) (eattr smode : UInt8)
  deriving Repr, DecidableEq

/-- A client's request on the leader at time `ts` (`fs_setsclass`, ...). -/
def attrLeader (s : Master) (ts : UInt32) (cl : Client) : AttrOp → AttrResult
  | .setsclass inode src dst smode =>
    s.fsUnivSetsclass ts cl.rootinode cl.flags inode cl.cred.uid src dst smode
  | .settrashretention inode trashretention smode =>
    s.fsUnivSettrashretention ts cl.rootinode cl.flags inode cl.cred.uid trashretention smode
  | .seteattr inode eattr smode =>
    s.fsUnivSeteattr ts cl.rootinode cl.flags inode cl.cred.uid eattr smode

/-- The end of `fs_mr_setsclass`, `fs_mr_settrashretention` and `fs_mr_seteattr`: the answer
must be OK and the counters the logged ones. -/
def AttrResult.expect (r : AttrResult) (counters : Counters) : Option Master :=
  if r.status = .ok ∧ r.counters = counters then some r.state else none

/-- A record on a replica. -/
def attrApply (s : Master) : AttrRecord → Option Master
  | .setsclass ts inode uid src dst smode counters =>
    (s.fsUnivSetsclass ts 0 .replica inode uid src dst smode).expect counters
  | .settrashtime ts inode uid trashretention smode counters =>
    (s.fsUnivSettrashretention ts 0 .replica inode uid trashretention smode).expect counters
  | .seteattr ts inode uid eattr smode counters =>
    (s.fsUnivSeteattr ts 0 .replica inode uid eattr smode).expect counters

/-- What must agree for a node: class, retention and `eattr`. -/
def attrView (n : FsNode) : Nat × UInt16 × UInt8 :=
  (n.sclassid, n.trashretention, n.eattr)

/-- The log of a request, replayed, gives every node the attributes it has on the leader. -/
def ReplaysAttrs (s : Master) (r : AttrResult) : Prop :=
  ∃ t, replay attrApply s r.log = some t
    ∧ ∀ i, (t.nodes i).map attrView = (r.state.nodes i).map attrView

/-- The session does not decide: it is one of an administrator, or no visited node that its
owner may change is kept from it by a class for administrators. -/
def AdminIrrelevant (s : Master) (cl : Client) : AttrOp → Prop
  | .setsclass inode _ dst smode =>
    cl.admin = true ∨
      ∀ p, s.fsnodesNodeFindExt cl.rootinode cl.flags inode = some p →
        ∀ i ∈ s.visited smode p.1, ∀ n, s.nodes i = some n → hasClass n.type = true →
          notOwner cl.cred.uid n = false → hasBit n.eattr eattrImmutable = false →
          s.sclasses.sclassIsAdminOnly n.sclassid = false
            ∧ s.sclasses.sclassIsAdminOnly dst = false
  | _ => True

theorem eq_of_countP_eq {p q : Nat → Bool} (himp : ∀ i ∈ l, p i = true → q i = true)
    (heq : l.countP p = l.countP q) : ∀ i ∈ l, q i = p i := by
  induction l with
  | nil => exact nofun
  | cons j l ih =>
    have htail : ∀ i ∈ l, p i = true → q i = true := fun i hi => himp i (List.mem_cons_of_mem j hi)
    have hle := List.countP_mono_left htail
    have hj := himp j List.mem_cons_self
    rw [List.countP_cons, List.countP_cons] at heq
    -- the head cannot make up for the tail
    have hhead : q j = p j ∧ l.countP p = l.countP q := by
      cases hp : p j <;> cases hq : q j <;> simp_all
    exact List.forall_mem_cons.mpr ⟨hhead.1, ih htail hhead.2⟩

/-- When an administrator may change the same nodes. -/
theorem refusedAt_admin_iff :
    s.refusedAt uid dst admin i = s.refusedAt uid dst true i
      ↔ admin = true ∨ ∀ n, s.nodes i = some n → hasClass n.type = true →
        notOwner uid n = false → hasBit n.eattr eattrImmutable = false →
        s.sclasses.sclassIsAdminOnly n.sclassid = false
          ∧ s.sclasses.sclassIsAdminOnly dst = false := by
  unfold refusedAt setsclassRefused
  cases s.nodes i with
  | none => simp
  | some n =>
    simp only [Option.some_inj, forall_eq']
    cases admin <;> cases hasClass n.type <;> cases notOwner uid n <;>
      cases hasBit n.eattr eattrImmutable <;> simp

theorem refusedAt_of_admin
    (h : s.refusedAt uid dst true i = true) : s.refusedAt uid dst admin i = true := by
  unfold refusedAt setsclassRefused at h ⊢
  revert h
  cases s.nodes i with
  | none => exact id
  | some n =>
    dsimp only
    cases hasClass n.type <;> cases notOwner uid n <;> cases hasBit n.eattr eattrImmutable <;> simp

/-! ## §4. The tests on both sides. -/

theorem setsclassCheck_replica (h : s.setsclassCheck root f inode uid src dst smode = .ok p) :
    s.setsclassCheck 0 .replica p uid src dst smode = .ok p
      ∧ ∃ n, s.fsnodesNodeFindExt root f inode = some (p, n) := by
  simp only [setsclassCheck, except_bind_eq_ok, require_eq_ok, refuse_eq_ok, exists_const] at h ⊢
  obtain ⟨hvalid, hsmall, _, r, hr, hclass, _, hret⟩ := h
  cases hret
  exact ⟨⟨hvalid, hsmall, rfl, r, findExt_replica (findExt_node hr), hclass, rfl, rfl⟩, r.2, hr⟩

theorem settrashretentionCheck_replica (h : s.settrashretentionCheck root f inode smode = .ok p) :
    s.settrashretentionCheck 0 .replica p smode = .ok p := by
  simp only [settrashretentionCheck, except_bind_eq_ok, require_eq_ok, refuse_eq_ok,
    exists_const] at h ⊢
  obtain ⟨hvalid, _, r, hr, hclass, hret⟩ := h
  cases hret
  exact ⟨hvalid, rfl, r, findExt_replica (findExt_node hr), hclass, rfl⟩

theorem seteattrCheck_replica (h : s.seteattrCheck root f inode eattr smode = .ok p) :
    s.seteattrCheck 0 .replica p eattr smode = .ok p := by
  simp only [seteattrCheck, except_bind_eq_ok, require_eq_ok, refuse_eq_ok, exists_const] at h ⊢
  obtain ⟨hvalid, _, _, r, hr, hret⟩ := h
  cases hret
  exact ⟨hvalid, rfl, rfl, r, findExt_replica (findExt_node hr), rfl⟩

theorem neverOk_setsclassCheck : NeverOk (s.setsclassCheck root f inode uid src dst smode) := by
  simp [setsclassCheck]

theorem neverOk_settrashretentionCheck :
    NeverOk (s.settrashretentionCheck root f inode smode) := by
  simp [settrashretentionCheck]

theorem neverOk_seteattrCheck : NeverOk (s.seteattrCheck root f inode eattr smode) := by
  simp [seteattrCheck]

/-! ## §5. Every request. -/

theorem AttrResult.finish_spec (f : SesFlags) (smode : UInt8) (r : Counters × Master)
    (record : Counters → AttrRecord) : (finish f smode r record).counters = r.1
      ∧ (finish f smode r record).state = r.2 := by
  unfold finish
  split <;> exact ⟨rfl, rfl⟩

/-- A record is replayed when the counters of both runs agree. -/
theorem replaysAttrs_finish_iff (hf : f.metarestore = false) {r' : Counters × Master}
    {record : Counters → AttrRecord}
    (happly : ∀ c, attrApply s (record c) = (AttrResult.finish .replica smode r' record).expect c)
    (hok : (AttrResult.finish f smode r record).status = .ok) :
    s.ReplaysAttrs (AttrResult.finish f smode r record)
      ↔ r'.1 = r.1 ∧ ∀ i, (r'.2.nodes i).map attrView = (r.2.nodes i).map attrView := by
  unfold AttrResult.finish at hok
  split at hok
  · cases hok
  next hnot =>
  have hrun : AttrResult.finish f smode r record
      = { status := .ok, counters := r.1, state := r.2, log := [record r.1] } := by
    unfold AttrResult.finish
    rw [if_neg hnot, hf]
    rfl
  have hreplay : replay attrApply s [record r.1]
      = (AttrResult.finish .replica smode r' record).expect r.1 := by
    rw [← happly]
    exact replay_singleton _ _ _
  unfold ReplaysAttrs
  rw [hrun]
  rw [hreplay]
  obtain ⟨hcounters, hstate⟩ := AttrResult.finish_spec .replica smode r' record
  unfold AttrResult.expect
  rw [hcounters]
  by_cases hcount : r'.1 = r.1
  · have hstatus : (AttrResult.finish .replica smode r' record).status = .ok ∧ r'.1 = r.1 := by
      unfold AttrResult.finish
      rw [hcount, if_neg hnot]
      exact ⟨rfl, rfl⟩
    rw [if_pos hstatus, hstate]
    simp [hcount]
  · rw [if_neg fun h => hcount h.2]
    simp [hcount]

theorem fsUnivSetsclass_replays_iff (hf : f.metarestore = false)
    (hok : (s.fsUnivSetsclass ts root f inode uid src dst smode).status = .ok) :
    s.ReplaysAttrs (s.fsUnivSetsclass ts root f inode uid src dst smode)
      ↔ f.admin = true ∨ ∀ p, s.fsnodesNodeFindExt root f inode = some p →
        ∀ i ∈ s.visited smode p.1, ∀ n, s.nodes i = some n → hasClass n.type = true →
          notOwner uid n = false → hasBit n.eattr eattrImmutable = false →
          s.sclasses.sclassIsAdminOnly n.sclassid = false
            ∧ s.sclasses.sclassIsAdminOnly dst = false := by
  unfold fsUnivSetsclass at hok ⊢
  obtain ⟨p, hchk⟩ : ∃ p, s.setsclassCheck root f inode uid src dst smode = .ok p :=
    neverOk_setsclassCheck.exists_ok fun st hst => by rwa [hst] at hok
  obtain ⟨hchk', n, hfind⟩ := setsclassCheck_replica hchk
  rw [hchk, hf, Bool.or_false] at hok ⊢
  have happly : ∀ c, attrApply s (.setsclass ts p uid src dst smode c)
      = (AttrResult.finish .replica smode
        (recurseFrom (setsclassVisit ts uid src dst (smodeTmask smode) true) smode s p)
        (.setsclass ts p uid src dst smode)).expect c := by
    intro c
    unfold attrApply fsUnivSetsclass
    dsimp only
    rw [hchk']
    rfl
  refine (replaysAttrs_finish_iff hf happly hok).trans ?_
  rw [recurseFrom_eq_foldl (keepsTree_setsclassVisit ts uid src dst _),
    recurseFrom_eq_foldl (keepsTree_setsclassVisit ts uid src dst _)]
  -- both sides speak about the nodes that are refused to this session only
  trans ∀ i ∈ s.visited smode p, s.refusedAt uid dst f.admin i = s.refusedAt uid dst true i
  rotate_left
  · simp only [refusedAt_admin_iff, hfind, Option.some_inj, forall_eq']
    by_cases hadmin : f.admin = true
    · simp [hadmin]
    · simp [hadmin]
  constructor
  · intro h
    have hns := congrArg Counters.nsinodes h.1
    rw [setsclassVisit_run ts uid src dst _ .refl,
      setsclassVisit_run ts uid src dst _ .refl] at hns
    exact eq_of_countP_eq (fun i _ => refusedAt_of_admin) (Nat.add_left_cancel hns)
  · intro h
    have hrun := setsclassVisit_run_eq ts uid src dst (smodeTmask smode) h
      (r := (.zero, s)) .refl .refl
    rw [hrun]
    exact ⟨rfl, fun _ => rfl⟩

/-- SETTRASHTIME records say all that matters. -/
theorem fsUnivSettrashretention_replays (hf : f.metarestore = false) {trashretention : UInt32}
    (hok : (s.fsUnivSettrashretention ts root f inode uid trashretention smode).status = .ok) :
    s.ReplaysAttrs (s.fsUnivSettrashretention ts root f inode uid trashretention smode) := by
  unfold fsUnivSettrashretention at hok ⊢
  obtain ⟨p, hchk⟩ : ∃ p, s.settrashretentionCheck root f inode smode = .ok p :=
    neverOk_settrashretentionCheck.exists_ok fun st hst => by rwa [hst] at hok
  rw [hchk] at hok ⊢
  refine (replaysAttrs_finish_iff hf (fun c => ?_) hok).mpr ⟨rfl, fun _ => rfl⟩
  unfold attrApply fsUnivSettrashretention
  dsimp only
  rw [settrashretentionCheck_replica hchk]

/-- SETEATTR records say all that matters. -/
theorem fsUnivSeteattr_replays (hf : f.metarestore = false)
    (hok : (s.fsUnivSeteattr ts root f inode uid eattr smode).status = .ok) :
    s.ReplaysAttrs (s.fsUnivSeteattr ts root f inode uid eattr smode) := by
  unfold fsUnivSeteattr at hok ⊢
  obtain ⟨p, hchk⟩ : ∃ p, s.seteattrCheck root f inode eattr smode = .ok p :=
    neverOk_seteattrCheck.exists_ok fun st hst => by rwa [hst] at hok
  rw [hchk] at hok ⊢
  refine (replaysAttrs_finish_iff hf (fun c => ?_) hok).mpr ⟨rfl, fun _ => rfl⟩
  unfold attrApply fsUnivSeteattr
  dsimp only
  rw [seteattrCheck_replica hchk]

/-- The record of a successful request reproduces the attributes exactly when it does not
matter whether the session is one of an administrator. -/
theorem attrs_replay_iff (s : Master) (ts : UInt32) (cl : Client) (op : AttrOp)
    (hok : (s.attrLeader ts cl op).status = .ok) :
    s.ReplaysAttrs (s.attrLeader ts cl op) ↔ s.AdminIrrelevant cl op := by
  cases op with
  | setsclass inode src dst smode => exact fsUnivSetsclass_replays_iff rfl hok
  | settrashretention inode trashretention smode =>
    exact iff_of_true (fsUnivSettrashretention_replays rfl hok) trivial
  | seteattr inode eattr smode => exact iff_of_true (fsUnivSeteattr_replays rfl hok) trivial

/-- A new file system whose class 2 is for administrators. -/
def adminClassMaster : Master :=
  fsNew 0 { SClassTab.sclassNew with
    tab := fun i => if i = 2 then { SClassTab.blank with adminOnly := true, keep := SClassTab.copies 3 }
      else SClassTab.sclassNew.tab i } [] false 32767

/-- The superuser of a machine, in a session of an administrator or not. -/
def superuser (admin : Bool) : Client :=
  { rootinode := rootId, readonly := false, ignoregid := false, admin := admin, cred := ⟨0, [0]⟩ }

/-- The root and all below it into class 2. -/
def setClass2 : AttrOp := .setsclass rootId 2 2 4

/-- A directory `d` with a file `f` in it. -/
def adminClassTree : Master :=
  { adminClassMaster with
    nodes := fun i => if i = 2 then some (rootNode 0)
      else if i = 3 then some { rootNode 0 with type := .file, nlink := 1 }
      else adminClassMaster.nodes i
    edges := [⟨some rootId, [100], 2⟩, ⟨some 2, [102], 3⟩] }

/-- An administrator's change of a whole tree is replayed. -/
theorem attrs_replay_admin : (adminClassTree.attrLeader 1 (superuser true) setClass2).status = .ok
      ∧ (∀ i ∈ [rootId, 2, 3], ((adminClassTree.attrLeader 1 (superuser true) setClass2).state.nodes
        i).map FsNode.sclassid = some 2)
      ∧ adminClassTree.ReplaysAttrs
        (adminClassTree.attrLeader 1 (superuser true) setClass2) :=
  ⟨by decide, by decide,
    (attrs_replay_iff adminClassTree 1 (superuser true) setClass2 (by decide)).mpr (.inl rfl)⟩

/-- Without the privilege the leader changes nothing, answers OK for a recursive request and
logs one node not permitted; the replica changes the node and finds other counters. -/
theorem attrs_replay_mismatch :
    (adminClassMaster.attrLeader 1 (superuser false) setClass2).status = .ok
      ∧ ¬ adminClassMaster.ReplaysAttrs
        (adminClassMaster.attrLeader 1 (superuser false) setClass2) := by
  refine ⟨by decide, fun h => ?_⟩
  obtain ⟨t, ht, _⟩ := h
  have hnone : (replay attrApply adminClassMaster
      (adminClassMaster.attrLeader 1 (superuser false) setClass2).log).isSome = false := by decide
  rw [ht] at hnone
  cases hnone

end Master
end MfsMaster
