/-
  MfsMaster.Client.Sustained
  **INODES KEPT OPEN BY A CLIENT** (`sustained_inodes.c`).

  In every round the client collects the inodes its processes use, and at the end of the round it
  tells the master the difference to the round before.  With an inode its parent is kept open,
  where the parent is known.

      sustained_balanced   — in runs in which a known parent stays known, the notices say what
                             the list says
      sustained_leak       — a parent that is not known any more is opened a second time
-/
import MfsMaster.Lib.Replay
import Mathlib.Data.List.Count

namespace MfsMaster.Sustained

/-! ## §1. The lists and the notices. -/

/-- `sinodes_ino`; the parent 0 is unknown. -/
structure SInode where
  inode : Nat
  parent : Nat
  deriving Repr, DecidableEq

/-- `sinodes_open` and `sinodes_close`. -/
inductive Notice where
  | open (inode : Nat)
  | close (inode : Nat)
  deriving Repr, DecidableEq

structure Client where
  lastlist : List SInode
  currentlist : List SInode
  notices : List Notice

/-- The inodes an entry keeps open. -/
def SInode.kept (r : SInode) : List Nat :=
  r.inode :: if r.parent ≠ 0 then [r.parent] else []

/-- `sinodes_process_inode`; `parent` is the answer of `sparents_get`. -/
def sinodesProcessInode (inode parent : Nat) : List SInode → List SInode
  | [] => [⟨inode, parent⟩]
  | ril :: list =>
    if ril.inode < inode then ril :: sinodesProcessInode inode parent list
    else if inode = ril.inode then
      (if parent ≠ 0 then { ril with parent := parent } else ril) :: list
    else ⟨inode, parent⟩ :: ril :: list

/-- An inode of both lists: what is told of its parent, and its entry afterwards. -/
def sameInode (rill ricl : SInode) : List Notice × SInode :=
  if rill.parent ≠ ricl.parent then
    let ricl' := if rill.parent ≠ 0 ∧ ricl.parent = 0 then { ricl with parent := rill.parent }
      else ricl
    ((if rill.parent ≠ 0 ∧ ricl.parent ≠ 0 then [.close rill.parent] else [])
      ++ (if ricl'.parent ≠ 0 then [.open ricl'.parent] else []), ricl')
  else ([], ricl)

/-- The loop of `sinodes_end`: the notices, and the current list afterwards. -/
def endLoop : List SInode → List SInode → List Notice × List SInode
  | [], [] => ([], [])
  | rill :: last, [] =>
    let r := endLoop last []
    (rill.kept.reverse.map .close ++ r.1, r.2)
  | [], ricl :: current =>
    let r := endLoop [] current
    (ricl.kept.map .open ++ r.1, ricl :: r.2)
  | rill :: last, ricl :: current =>
    if rill.inode < ricl.inode then
      let r := endLoop last (ricl :: current)
      (rill.kept.reverse.map .close ++ r.1, r.2)
    else if ricl.inode < rill.inode then
      let r := endLoop (rill :: last) current
      (ricl.kept.map .open ++ r.1, ricl :: r.2)
    else
      let m := sameInode rill ricl
      let r := endLoop last current
      (m.1 ++ r.1, m.2 :: r.2)
termination_by last current => last.length + current.length

/-- What happens in a round. -/
inductive Event where
  | processInode (inode parent : Nat)
  | sinodesEnd

def step (s : Client) : Event → Client
  | .processInode inode parent =>
    { s with currentlist := sinodesProcessInode inode parent s.currentlist }
  | .sinodesEnd =>
    let r := endLoop s.lastlist s.currentlist
    { lastlist := r.2, currentlist := [], notices := s.notices ++ r.1 }

def start : Client := { lastlist := [], currentlist := [], notices := [] }

/-! ## §2. The balance. -/

/-- How often an inode occurs in a list, as inode or as parent. -/
def occurrences (list : List SInode) (i : Nat) : Nat := (list.flatMap SInode.kept).count i

/-- **The notices say what the list of the last round says.** -/
def Client.Balanced (s : Client) : Prop :=
  ∀ i, s.notices.count (.open i) = s.notices.count (.close i) + occurrences s.lastlist i

/-- **The condition**: at the end of a round, an inode that is in the list with an unknown parent
was not in the last one with a known parent. -/
def ParentsKnown (s : Client) : Event → Prop
  | .processInode _ _ => True
  | .sinodesEnd => ∀ rill ∈ s.lastlist, ∀ ricl ∈ s.currentlist, rill.inode = ricl.inode →
    rill.parent ≠ 0 → ricl.parent ≠ 0

instance (s : Client) : (e : Event) → Decidable (ParentsKnown s e)
  | .processInode _ _ => isTrue trivial
  | .sinodesEnd => inferInstanceAs (Decidable (∀ _ ∈ _, ∀ _ ∈ _, _))

variable {rill ricl : SInode} {i : Nat}

theorem occurrences_cons {list : List SInode} :
    occurrences (ricl :: list) i = ricl.kept.count i + occurrences list i := by
  unfold occurrences
  rw [List.flatMap_cons, List.count_append]

theorem count_opens (l : List Nat) (i : Nat) :
    (l.map Notice.open).count (.open i) = l.count i ∧ (l.map Notice.open).count (.close i) = 0 := by
  refine ⟨List.count_map_of_injective l _ (fun _ _ h => Notice.open.inj h) i, ?_⟩
  rw [List.count_eq_zero]
  simp

theorem count_closes (l : List Nat) (i : Nat) :
    (l.reverse.map Notice.close).count (.close i) = l.count i
      ∧ (l.reverse.map Notice.close).count (.open i) = 0 := by
  rw [List.count_map_of_injective _ _ (fun _ _ h => Notice.close.inj h), List.count_reverse,
    List.count_eq_zero]
  simp

/-- An inode of both lists. -/
theorem sameInode_balanced (hinode : rill.inode = ricl.inode)
    (hknown : rill.parent ≠ 0 → ricl.parent ≠ 0) (i : Nat) :
    (sameInode rill ricl).1.count (.open i) + rill.kept.count i
      = (sameInode rill ricl).1.count (.close i) + (sameInode rill ricl).2.kept.count i := by
  unfold sameInode SInode.kept
  rw [hinode]
  by_cases hsame : rill.parent = ricl.parent
  · simp [hsame]
  by_cases hlast : rill.parent = 0
  · have hricl : ricl.parent ≠ 0 := fun h => hsame (hlast.trans h.symm)
    simp [hlast, hricl, hricl.symm, List.count_cons]
  · simp [hsame, hlast, hknown hlast, List.count_cons]
    omega

/-- The loop of `sinodes_end` tells the difference of the lists. -/
theorem endLoop_balanced {last current : List SInode}
    (hknown : ∀ rill ∈ last, ∀ ricl ∈ current, rill.inode = ricl.inode →
      rill.parent ≠ 0 → ricl.parent ≠ 0) (i : Nat) :
    (endLoop last current).1.count (.open i) + occurrences last i
      = (endLoop last current).1.count (.close i) + occurrences (endLoop last current).2 i := by
  fun_induction endLoop last current with
  | case1 => rfl
  | case2 rill last r ih =>
    have hrest := ih nofun
    have hclose := count_closes rill.kept i
    simp only [r, List.count_append, occurrences_cons]
    omega
  | case3 ricl current r ih =>
    have hrest := ih nofun
    have hopen := count_opens ricl.kept i
    simp only [r, List.count_append, occurrences_cons]
    omega
  | case4 rill last ricl current _ r ih =>
    have hrest := ih (List.forall_mem_cons.mp hknown).2
    have hclose := count_closes rill.kept i
    simp only [r, List.count_append, occurrences_cons] at hrest ⊢
    omega
  | case5 rill last ricl current _ _ r ih =>
    have hrest := ih fun rill h ricl h' => hknown rill h ricl (List.mem_cons_of_mem _ h')
    have hopen := count_opens ricl.kept i
    simp only [r, List.count_append, occurrences_cons] at hrest ⊢
    omega
  | case6 rill last ricl current hle hge m r ih =>
    have hrest := ih fun rill h ricl h' =>
      hknown rill (List.mem_cons_of_mem _ h) ricl (List.mem_cons_of_mem _ h')
    have hinode : rill.inode = ricl.inode := by omega
    have hsame := sameInode_balanced hinode
      (hknown rill List.mem_cons_self ricl List.mem_cons_self hinode) i
    simp only [m, r, List.count_append, occurrences_cons]
    omega

/-- **Step lemma.** -/
theorem Client.Balanced.step {s : Client} {e : Event} (h : s.Balanced) (hknown : ParentsKnown s e) :
    (step s e).Balanced := by
  cases e with
  | processInode inode parent => exact h
  | sinodesEnd =>
    intro i
    have hold := h i
    have hloop := endLoop_balanced hknown i
    unfold Sustained.step
    simp only [List.count_append]
    omega

/-- **In every run in which known parents stay known, the notices are in balance.** -/
theorem sustained_balanced (es : List Event) (hknown : Lib.StepsMeet step ParentsKnown start es) :
    (Lib.run step start es).Balanced :=
  Lib.run_invariant (fun _ _ h hc => h.step hc) es start (fun _ => rfl) hknown

/-- Inode 5 in two rounds; its parent is first inode 3, and then moved to inode 4. -/
def movedParent : List Event :=
  [.processInode 5 3, .sinodesEnd, .processInode 5 4, .sinodesEnd]

theorem sustained_balanced_moved :
    (Lib.run step start movedParent).Balanced
      ∧ (Lib.run step start movedParent).notices = [.open 5, .open 3, .close 3, .open 4] :=
  ⟨sustained_balanced movedParent (by decide +kernel), by decide +kernel⟩

/-- Inode 5 in two rounds; in the second one its parent is not known. -/
def forgottenParent : List Event :=
  [.processInode 5 3, .sinodesEnd, .processInode 5 0, .sinodesEnd]

/-- **The parent is opened twice and is in the list once.** -/
theorem sustained_leak :
    (Lib.run step start forgottenParent).notices = [.open 5, .open 3, .open 3]
      ∧ (Lib.run step start forgottenParent).lastlist = [⟨5, 3⟩]
      ∧ ¬ (Lib.run step start forgottenParent).Balanced := by
  refine ⟨by decide +kernel, by decide +kernel, fun h => ?_⟩
  exact absurd (h 3) (by decide +kernel)

end MfsMaster.Sustained
