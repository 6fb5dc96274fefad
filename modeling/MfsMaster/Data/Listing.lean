/-
  MfsMaster.Data.Listing
  **LISTING A DIRECTORY IN PARTS** (`filesystem.c`, `matoclserv.c`).

  A client reads a directory in parts.  Each answer carries the number of the next edge, and
  the next request names it.  So that the edge need not be searched, the master keeps the edges
  at which listings stopped in a table (`edgeid_ptr_hashtab`), one table for all sessions: a
  request whose number is in the table goes on at that edge, whatever inode it names.

      readdirLoop            — the loop of `fsnodes_readdirsize` and `fsnodes_readdirdata`
      Lister.fsReaddirSize   — `fs_readdir_size`

  Main results:
      part_of_edgeAt(_none)  — what a successful call hands over, table or not
-/
import Mathlib
import MfsMaster.Data.Write

namespace MfsMaster

/-! ## §1. Numbers of edges and the table of edges. -/

/-- `EDGEID_MAX`. -/
def edgeidMax : UInt64 := 0x7FFFFFFFFFFFFFFF

/-- `EDGEID_HASHSIZE`. -/
def edgeidHashsize : Nat := 65536

/-- `e->edgeid`.  In a listing 0 stands for `.`, 1 for `..` and `EDGEID_MAX` for the end. -/
structure EdgeIds where
  id : FsEdge → UInt64
  lower : ∀ e, 1 < id e
  upper : ∀ e, id e < edgeidMax

/-- `edgeid_id_hashtab` and `edgeid_ptr_hashtab`. -/
structure EdgeidTab where
  ids : Nat → UInt64
  ptrs : Nat → Option FsEdge

variable {e : FsEdge} {nedgeid : UInt64} {p : Nat}

namespace EdgeidTab

/-- `fsnodes_edgeid_init`. -/
def init : EdgeidTab :=
  { ids := fun _ => 0, ptrs := fun _ => none }

/-- `fsnodes_edgeid_insert`. -/
def insert (tab : EdgeidTab) (edgeid : UInt64) (e : FsEdge) : EdgeidTab :=
  let hashid := edgeid.toNat % edgeidHashsize
  { ids := fun h => if h = hashid then edgeid else tab.ids h
    ptrs := fun h => if h = hashid then some e else tab.ptrs h }

/-- `fsnodes_edgeid_find`. -/
def find (tab : EdgeidTab) (edgeid : UInt64) : Option FsEdge :=
  let hashid := edgeid.toNat % edgeidHashsize
  if tab.ids hashid = edgeid then tab.ptrs hashid else none

end EdgeidTab

/-! ## §2. The loop of a listing. -/

/-- A line of a listing. -/
inductive DirLine where
  | self
  | parent
  | child (e : FsEdge)
  deriving Repr, DecidableEq

/-- The length of the name of a line. -/
def DirLine.nleng : DirLine → Nat
  | .self => 1
  | .parent => 2
  | .child e => e.name.length

/-- The number that goes with the edge a listing has come to. -/
def EdgeIds.next (ids : EdgeIds) : List FsEdge → UInt64
  | [] => edgeidMax
  | e :: _ => ids.id e

/-- The loop of `fsnodes_readdirsize` and `fsnodes_readdirdata`: the lines, and `nedgeid` and `e`
at the end.  `e` is given with the edges that `nextchild` leads to. -/
def readdirLoop (ids : EdgeIds) (children : List FsEdge) :
    Nat → UInt64 → List FsEdge → List DirLine × UInt64 × List FsEdge
  | 0, nedgeid, e => ([], nedgeid, e)
  | maxentries + 1, nedgeid, e =>
    if edgeidMax ≤ nedgeid then ([], nedgeid, e)
    else if nedgeid = 0 then
      let r := readdirLoop ids children maxentries 1 e
      (.self :: r.1, r.2)
    else
      let line := if nedgeid = 1 then some .parent else e.head?.map .child
      let e := if nedgeid = 1 then children else e.tail
      let r := readdirLoop ids children maxentries (ids.next e) e
      (line.toList ++ r.1, r.2)

section Loop

variable {ids : EdgeIds} {children : List FsEdge} (maxentries : Nat)

/-- The edge at which the loop stops is one it started with or one of the directory. -/
theorem mem_of_mem_readdirLoop {x : FsEdge} (nedgeid : UInt64) (e : List FsEdge)
    (h : x ∈ (readdirLoop ids children maxentries nedgeid e).2.2) : x ∈ e ∨ x ∈ children := by
  induction maxentries generalizing nedgeid e with
  | zero => exact .inl h
  | succ maxentries ih =>
    unfold readdirLoop at h
    split at h
    · exact .inl h
    split at h
    · exact ih 1 e h
    split at h
    · rcases ih _ _ h with hx | hx <;> exact .inr hx
    rcases ih _ _ h with hx | hx
    · exact .inl (List.mem_of_mem_tail hx)
    · exact .inr hx

end Loop

/-! ## §3. The two calls. -/

/-- The leader with the numbers of its edges and the table of edges. -/
structure Lister where
  sys : System
  ids : EdgeIds
  tab : EdgeidTab

/-- What a request `CLTOMA_FUSE_READDIR` asks for. -/
structure ListRequest where
  cred : Cred
  inode : Nat
  withattr : Bool
  attrmode : Nat
  maxentries : Nat
  nedgeid : UInt64

/-- What `fs_readdir_size` hands to `fs_readdir_data`: `dnode`, `dedge` with the edges after it,
and `dbuffsize`. -/
structure ListPart where
  dnode : Option Nat
  dedge : List FsEdge
  dbuffsize : Nat
  deriving Repr, DecidableEq

/-- `attrmode` as the loops get it. -/
def ListRequest.attrs (q : ListRequest) : Nat := if q.withattr then q.attrmode else 0

/-- `ATTR_RECORD_SIZE`. -/
def attrRecordSize : Nat := 36

/-- `fsnodes_readdirsize`: the bytes of a listing. -/
def linesSize (attrmode : Nat) (lines : List DirLine) : Nat :=
  let attrsize := if attrmode = 0 then 1 else if attrmode = 1 then 35 else attrRecordSize
  (lines.map fun l => attrsize + 5 + l.nleng).sum

namespace Lister

/-- The start of the master: no listing has stopped anywhere. -/
def start (sys : System) (ids : EdgeIds) : Lister :=
  { sys := sys, ids := ids, tab := .init }

/-- The edge a request goes on at, as far as the table knows. -/
def edgeAt (l : Lister) (nedgeid : UInt64) : Option FsEdge :=
  if nedgeid = 0 ∨ nedgeid = 1 then none else l.tab.find nedgeid

/-- An edge with the edges that `nextchild` leads to. -/
def siblings (l : Lister) (e : FsEdge) : List FsEdge :=
  (l.sys.fs.edges.filter fun e' => e'.parent == e.parent).dropWhile fun e' => e' != e

/-- The entries of `dnode`. -/
def entries (l : Lister) (dnode : Option Nat) : List FsEdge :=
  match dnode with
  | none => []
  | some p => l.sys.fs.children p

/-- The part of `fs_readdir_size` for a number that is not in the table: the directory, and where
its listing starts. -/
def findDir (l : Lister) (ses : Session) (q : ListRequest) : Except Status (Nat × List FsEdge) := do
  let p ← require (l.sys.fs.fsnodesNodeFindExt ses.rootinode ses.flags q.inode) .enoent
  refuse (p.2.type != .directory) .enotdir
  refuse (q.nedgeid == 0 && !l.sys.fs.fsnodesAccessExt p.1 p.2 q.cred
    (if q.withattr then Master.modeMaskR ||| Master.modeMaskX else Master.modeMaskR)
    ses.flags) .eacces
  return (p.1, if q.nedgeid = 0 then []
    else (l.sys.fs.children p.1).dropWhile fun e => l.ids.id e < q.nedgeid)

/-- `fs_readdir_size`. -/
def fsReaddirSize (l : Lister) (ses : Session) (q : ListRequest) : Except Status ListPart := do
  let (p, e) ← match l.edgeAt q.nedgeid with
    | some e => pure (e.parent, l.siblings e)
    | none => (fun r => (some r.1, r.2)) <$> l.findDir ses q
  let r := linesSize q.attrs
    (readdirLoop l.ids (l.entries p) q.maxentries q.nedgeid e).1
  refuse (0xFFFF0000 < r) .erange
  return { dnode := p, dedge := e, dbuffsize := r }

end Lister

/-! ## §4. What a successful call hands over. -/

variable {part : ListPart}

namespace Lister

variable (l : Lister) (ses : Session) (q : ListRequest)

/-- **The table is in order**: it holds edges of the tree under their numbers. -/
def InOrder : Prop :=
  ∀ hashid e, l.tab.ptrs hashid = some e →
    l.tab.ids hashid = l.ids.id e ∧ e ∈ l.sys.fs.edges ∧ e.parent ≠ none

variable {l q}

theorem InOrder.found (h : l.InOrder) (hfind : l.tab.find nedgeid = some e) :
    nedgeid = l.ids.id e ∧ e ∈ l.sys.fs.edges ∧ e.parent ≠ none := by
  unfold EdgeidTab.find at hfind
  dsimp only at hfind
  split at hfind
  · next hid =>
    obtain ⟨hnum, hrest⟩ := h _ e hfind
    exact ⟨hid.symm.trans hnum, hrest⟩
  · cases hfind

theorem edgeAt_eq_some (h : l.edgeAt nedgeid = some e) :
    nedgeid ≠ 0 ∧ nedgeid ≠ 1 ∧ l.tab.find nedgeid = some e := by
  unfold edgeAt at h
  split at h
  · cases h
  · next hne => exact ⟨fun h0 => hne (.inl h0), fun h1 => hne (.inr h1), h⟩

/-- The directory is the one the request names, when the table does not say otherwise. -/
theorem findDir_eq_ok {e : List FsEdge} (h : l.findDir ses q = .ok (p, e)) :
    (∃ n, l.sys.fs.fsnodesNodeFindExt ses.rootinode ses.flags q.inode = some (p, n)
      ∧ n.type = .directory)
      ∧ e = if q.nedgeid = 0 then []
        else (l.sys.fs.children p).dropWhile fun e => l.ids.id e < q.nedgeid := by
  simp only [findDir, except_bind_eq_ok, require_eq_ok, refuse_eq_ok, exists_const] at h
  obtain ⟨r, hr, htype, _, hret⟩ := h
  cases hret
  exact ⟨⟨r.2, hr, by simpa using htype⟩, rfl⟩

/-- A part of a listing whose number the table knows. -/
theorem part_of_edgeAt (he : l.edgeAt q.nedgeid = some e) (hok : l.fsReaddirSize ses q = .ok part) :
    part.dnode = e.parent ∧ part.dedge = l.siblings e := by
  unfold fsReaddirSize at hok
  rw [he] at hok
  simp only [pure_bind, except_bind_eq_ok, refuse_eq_ok, exists_const] at hok
  obtain ⟨_, hret⟩ := hok
  cases hret
  exact ⟨rfl, rfl⟩

/-- A part of a listing whose number the table does not know. -/
theorem part_of_edgeAt_none
    (he : l.edgeAt q.nedgeid = none) (hok : l.fsReaddirSize ses q = .ok part) :
    ∃ p, part.dnode = some p ∧ l.findDir ses q = .ok (p, part.dedge) := by
  unfold fsReaddirSize at hok
  rw [he] at hok
  cases hdir : l.findDir ses q with
  | error st =>
    rw [hdir] at hok
    cases hok
  | ok r =>
    rw [hdir] at hok
    simp only [except_bind_eq_ok, refuse_eq_ok, exists_const] at hok
    obtain ⟨r', hr', _, hret⟩ := hok
    cases hr'
    cases hret
    exact ⟨r.1, rfl, rfl⟩

end Lister

end MfsMaster
