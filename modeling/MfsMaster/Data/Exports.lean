/-
  MfsMaster.Data.Exports
  **WHAT A SESSION MAY LIST** (`filesystem.c`, `sessions.c`).

  A session exports the tree below a root of its own.  `fsnodes_node_find_ext` keeps a request
  inside the export; a request that goes on at an edge of the table does not ask it.

  Main results:
      sound_run              — the table holds edges of the tree, after every history of listings
      confined_of_find       — what `fsnodes_node_find_ext` lets a session list
      listing_confined_iff   — which listings stay inside the export of their session
-/
import MfsMaster.Data.Requests
import MfsMaster.Fs.Frame
import MfsMaster.Fs.Tree
import MfsMaster.Lib.Replay

namespace MfsMaster

/-! ## §1. Histories of listings. -/

namespace Master

/-- The directories make a tree, all of them are below the root, and 0 is the number of none. -/
structure Rooted (s : Master) : Prop where
  tree : s.DirTree
  below : ∀ d, s.isDir d = true → Lib.Above (dirsOf s.edges) rootId d
  zero : s.isDir 0 = false

/-- The tree is in the edges and the types. -/
theorem Rooted.congr {s t : Master} (h : s.Rooted) (hedges : t.edges = s.edges)
    (htype : ∀ i, t.typeOf i = s.typeOf i) : t.Rooted := by
  have hdir : ∀ i, t.isDir i = s.isDir i := fun i => by unfold isDir; rw [htype]
  refine ⟨⟨?_, ?_, ?_, ?_⟩, ?_, (hdir 0).trans h.zero⟩ <;> simp only [hedges, hdir]
  · exact h.tree.top
  · exact h.tree.parent
  · exact h.tree.hung
  · exact h.tree.chains
  · exact h.below

end Master

/-- `sessions_create_session` and `sessions_change_session`: whatever flags an export gives, the
session does not get `SESFLAG_METARESTORE`. -/
def sessionsCreateSession (rootinode : Nat) (sesflags : UInt8) : Session :=
  ClientSession.session
    { rootinode := rootinode, sesflags := sesflags &&& ~~~sesflagMetarestore }

theorem sessionsCreateSession_plain (rootinode : Nat) (sesflags : UInt8) :
    (sessionsCreateSession rootinode sesflags).flags.metarestore = false := by
  show ((sesflags &&& ~~~sesflagMetarestore) &&& sesflagMetarestore != 0) = false
  have hzero : (sesflags &&& ~~~sesflagMetarestore) &&& sesflagMetarestore = 0 := by
    rw [UInt8.and_assoc]
    have hmask : ~~~sesflagMetarestore &&& sesflagMetarestore = 0 := by decide
    rw [hmask, UInt8.and_zero]
  rw [hzero]
  rfl

/-- A request of a session with its time and the setting of access times. -/
structure ListEvent where
  ts : UInt32
  mode : AtimeMode
  rootinode : Nat
  sesflags : UInt8
  request : ListRequest

/-- `matoclserv_fuse_readdir`. -/
def Lister.step (l : Lister) (ev : ListEvent) : Lister :=
  let ses := sessionsCreateSession ev.rootinode ev.sesflags
  match l.fsReaddirSize ses ev.request with
  | .error _ => l
  | .ok part => (l.fsReaddirData ev.ts ev.mode ses ev.request part).2.2

variable {ses : Session} {q : ListRequest}

/-- A listing changes no edge and no type. -/
theorem System.fsReaddirData_kept {sys : System} {ts : UInt32} {mode : AtimeMode}
    {p : Nat} : (sys.fsReaddirData ts mode ses p).fs.edges = sys.fs.edges
      ∧ ∀ i, (sys.fsReaddirData ts mode ses p).fs.typeOf i = sys.fs.typeOf i := by
  have htouch : (sys.touchAtime ts p).fs.edges = sys.fs.edges
      ∧ ∀ i, (sys.touchAtime ts p).fs.typeOf i = sys.fs.typeOf i := by
    refine ⟨Master.touched_fsnodesCheckarchmode.only.edges, fun i => ?_⟩
    refine (Master.touched_fsnodesCheckarchmode.kept i).typeOf.trans ?_
    unfold Master.typeOf
    rw [Master.modNode_nodes]
    split
    · cases sys.fs.nodes i <;> rfl
    · rfl
  unfold fsReaddirData
  split
  · exact ⟨rfl, fun _ => rfl⟩
  split
  · exact htouch
  · exact ⟨rfl, fun _ => rfl⟩

namespace Lister

variable {l : Lister}

variable {sys : System} {n : FsNode} {inode : Nat} {e : FsEdge}

theorem inOrder_start {ids : EdgeIds} : (start sys ids).InOrder :=
  fun _ _ h => nomatch h

/-- The edges with which the loop works are edges of the tree. -/
theorem mem_edges_of_part (h : l.InOrder) {part : ListPart}
    (hok : l.fsReaddirSize ses q = .ok part) :
    ∀ e ∈ part.dedge ++ l.entries part.dnode, e ∈ l.sys.fs.edges ∧ e.parent ≠ none := by
  have hentries : ∀ d, ∀ e ∈ l.entries d, e ∈ l.sys.fs.edges ∧ e.parent ≠ none := by
    intro d e he
    cases d with
    | none => cases he
    | some p =>
      obtain ⟨he, hp⟩ := List.mem_filter.mp he
      rw [beq_iff_eq.mp hp]
      exact ⟨he, nofun⟩
  intro e he
  rcases List.mem_append.mp he with he | he
  · cases hedge : l.edgeAt q.nedgeid with
    | some x =>
      rw [(part_of_edgeAt _ hedge hok).2] at he
      obtain ⟨_, _, hne⟩ := h.found (edgeAt_eq_some hedge).2.2
      obtain ⟨he, hp⟩ := List.mem_filter.mp ((List.dropWhile_sublist _).subset he)
      rw [beq_iff_eq.mp hp]
      exact ⟨he, hne⟩
    | none =>
      obtain ⟨p, _, hdir⟩ := part_of_edgeAt_none _ hedge hok
      rw [(findDir_eq_ok ses hdir).2] at he
      split at he
      · cases he
      · exact hentries (some p) e ((List.dropWhile_sublist _).subset he)
  · exact hentries _ e he

/-- **One listing** keeps the tree, and what it puts into the table is an edge of it. -/
theorem inOrder_step (h : l.InOrder) {ev : ListEvent} :
    (l.step ev).InOrder ∧ (l.step ev).sys.fs.edges = l.sys.fs.edges
      ∧ ∀ i, (l.step ev).sys.fs.typeOf i = l.sys.fs.typeOf i := by
  unfold step
  dsimp only
  split
  · exact ⟨h, rfl, fun _ => rfl⟩
  next part hok =>
  have hmem := mem_edges_of_part h hok
  generalize sessionsCreateSession ev.rootinode ev.sesflags = ses
  have hkept : let r := (l.fsReaddirData ev.ts ev.mode ses ev.request part).2.2
      r.sys.fs.edges = l.sys.fs.edges ∧ ∀ i, r.sys.fs.typeOf i = l.sys.fs.typeOf i := by
    unfold fsReaddirData
    cases part.dnode with
    | none => exact ⟨rfl, fun _ => rfl⟩
    | some p => exact System.fsReaddirData_kept
  refine ⟨?_, hkept⟩
  intro hashid e he
  rw [hkept.1]
  revert he
  unfold fsReaddirData
  dsimp only
  cases hrest : (readdirLoop l.ids (l.entries part.dnode) ev.request.maxentries
      ev.request.nedgeid part.dedge).2.2 with
  | nil => exact h hashid e
  | cons x rest =>
    -- the edge at which the loop stopped, or one that was in the table
    show (if hashid = _ then some x else l.tab.ptrs hashid) = some e →
      (if hashid = _ then l.ids.id x else l.tab.ids hashid) = l.ids.id e ∧ _
    split
    · intro hx
      cases hx
      have hstop := mem_of_mem_readdirLoop _ _ _ (hrest ▸ List.mem_cons_self)
      exact ⟨rfl, hmem e (List.mem_append.mpr hstop)⟩
    · exact h hashid e

/-- A table in order over a tree. -/
structure Sound (l : Lister) : Prop where
  order : l.InOrder
  rooted : l.sys.fs.Rooted

/-- **The table is in order** after every history of listings. -/
theorem sound_run (hs : sys.fs.Rooted) (ids : EdgeIds) (evs : List ListEvent) :
    (Lib.run step (start sys ids) evs).Sound := by
  have hstep : ∀ (l : Lister) (ev : ListEvent), l.Sound → (l.step ev).Sound := by
    intro l ev h
    obtain ⟨horder, hedges, htype⟩ := inOrder_step h.order
    exact ⟨horder, h.rooted.congr hedges htype⟩
  exact Lib.run_kept hstep ⟨inOrder_start, hs⟩

/-! ## §2. What a session sees of the tree. -/

/-- The number a request names a directory by: in every session 1 is the root of the export. -/
def named (ses : Session) (inode : Nat) : Nat :=
  if inode = rootId then ses.rootinode else inode

/-- **A listing inside the export**: of the directory that the request names, which is the root
of the export or below it. -/
def Confined (l : Lister) (ses : Session) (inode : Nat) (dnode : Option Nat) : Prop :=
  dnode = some (named ses inode)
    ∧ Lib.Above (dirsOf l.sys.fs.edges) ses.rootinode (named ses inode)

/-- The request starts at `.` or `..`, or its number is not in the table, or the edge found under
it is one of the directory that the request names, and that directory is the root of the session
or passes `fsnodes_isancestor`. -/
def GoesOn (l : Lister) (ses : Session) (inode : Nat) (nedgeid : UInt64) : Prop :=
  nedgeid = 0 ∨ nedgeid = 1 ∨ ∀ e, l.tab.find nedgeid = some e →
    e.parent = some (named ses inode)
      ∧ (ses.rootinode = named ses inode
        ∨ l.sys.fs.fsnodesIsancestor ses.rootinode (named ses inode) = true)

/-- A directory that `fsnodes_node_find_ext` gives is inside the export. -/
theorem confined_of_find (h : l.sys.fs.Rooted) (hses : ses.flags.metarestore = false) {p : Nat}
    (hfind : l.sys.fs.fsnodesNodeFindExt ses.rootinode ses.flags inode = some (p, n))
    (hdir : n.type = .directory) : l.Confined ses inode (some p) := by
  unfold Master.fsnodesNodeFindExt at hfind
  unfold Confined named
  by_cases hroot : ses.rootinode = rootId
  · -- a session that exports everything sees everything, and all of it is below the root
    rw [if_pos (.inr hroot), Option.map_eq_some_iff] at hfind
    obtain ⟨m, hm, hpair⟩ := hfind
    cases hpair
    have hname : (if inode = rootId then ses.rootinode else inode) = inode := by
      split
      · next heq => rw [hroot, heq]
      · rfl
    rw [hname, hroot]
    exact ⟨rfl, h.below inode ((Master.isDir_iff _ hm).mpr hdir)⟩
  · rw [if_neg (by simp [hses, hroot])] at hfind
    by_cases hzero : ses.rootinode = 0
    · -- a session without a root sees the trash only
      rw [if_pos hzero, Option.bind_eq_some_iff] at hfind
      obtain ⟨m, _, hpair⟩ := hfind
      split at hpair
      · next htype =>
        cases hpair
        rw [hdir] at htype
        rcases htype with h | h <;> cases h
      · cases hpair
    · rw [if_neg hzero] at hfind
      split at hfind
      · split at hfind
        · next heq =>
          obtain ⟨m, _, hpair⟩ := Option.map_eq_some_iff.mp hfind
          cases hpair
          rw [if_pos heq]
          exact ⟨rfl, .refl⟩
        · next hne =>
          obtain ⟨m, hm, hpair⟩ := Option.bind_eq_some_iff.mp hfind
          split at hpair
          · next hanc =>
            cases hpair
            rw [if_neg hne]
            have hisdir := (Master.isDir_iff _ hm).mpr hdir
            exact ⟨rfl, (h.tree.eq_or_isancestor_iff hisdir).mp (.inr hanc)⟩
          · cases hpair
      · cases hfind

/-- A cached edge leads into the export exactly when the condition holds for it. -/
theorem goesOn_iff (h : l.Sound) {nedgeid : UInt64} (he : l.edgeAt nedgeid = some e) :
    l.GoesOn ses inode nedgeid ↔ l.Confined ses inode e.parent := by
  obtain ⟨h0, h1, hfind⟩ := edgeAt_eq_some he
  obtain ⟨_, hmem, _⟩ := h.order.found hfind
  constructor
  · rintro (heq | heq | hgo)
    · exact absurd heq h0
    · exact absurd heq h1
    obtain ⟨hp, hanc⟩ := hgo e hfind
    have hdir := h.rooted.tree.parent e hmem _ hp
    exact ⟨hp, (h.rooted.tree.eq_or_isancestor_iff hdir).mp hanc⟩
  · rintro ⟨hp, habove⟩
    refine .inr (.inr fun e' he' => ?_)
    rw [hfind] at he'
    cases he'
    have hdir := h.rooted.tree.parent e hmem _ hp
    exact ⟨hp, (h.rooted.tree.eq_or_isancestor_iff hdir).mpr habove⟩

/-- A request for no entry goes through at every edge of the table. -/
theorem fsReaddirSize_noEntries (he : l.edgeAt q.nedgeid = some e) (hmax : q.maxentries = 0) :
    l.fsReaddirSize ses q
      = .ok { dnode := e.parent, dedge := l.siblings e, dbuffsize := 0 } := by
  unfold fsReaddirSize
  rw [he, hmax]
  rfl

/-- **Which listings stay inside the export.**  After every history of listings, all requests of
a session that name `inode` and `nedgeid` and succeed list the directory they name, inside the
export, exactly when the number is 0 or 1, is not in the table, or is there with an edge of that
directory. -/
theorem listing_confined_iff (sys : System) (hs : sys.fs.Rooted) (ids : EdgeIds)
    (evs : List ListEvent) (rootinode : Nat) (sesflags : UInt8) (inode : Nat) (nedgeid : UInt64) :
    (∀ q : ListRequest, q.inode = inode → q.nedgeid = nedgeid → ∀ part,
      (Lib.run step (start sys ids) evs).fsReaddirSize
          (sessionsCreateSession rootinode sesflags) q = .ok part →
        (Lib.run step (start sys ids) evs).Confined
          (sessionsCreateSession rootinode sesflags) inode part.dnode)
    ↔ (Lib.run step (start sys ids) evs).GoesOn
        (sessionsCreateSession rootinode sesflags) inode nedgeid := by
  have hsound := sound_run hs ids evs
  have hplain := sessionsCreateSession_plain rootinode sesflags
  generalize Lib.run step (start sys ids) evs = l at hsound ⊢
  generalize sessionsCreateSession rootinode sesflags = ses at hplain ⊢
  cases he : l.edgeAt nedgeid with
  | some e =>
    rw [goesOn_iff hsound he]
    constructor
    · intro hall
      let q : ListRequest :=
        { cred := { uid := 0, gids := [] }, inode := inode, withattr := false, attrmode := 0
          maxentries := 0, nedgeid := nedgeid }
      exact hall q rfl rfl _ (fsReaddirSize_noEntries (q := q) he rfl)
    · rintro hconf q rfl rfl part hok
      rw [(part_of_edgeAt _ he hok).1]
      exact hconf
  | none =>
    constructor
    · intro _
      unfold edgeAt at he
      split at he
      · next hstart => exact hstart.imp_right .inl
      refine .inr (.inr fun e hfind => ?_)
      rw [he] at hfind
      cases hfind
    · rintro _ q rfl rfl part hok
      obtain ⟨p, hp, hdir⟩ := part_of_edgeAt_none _ he hok
      obtain ⟨⟨n, hn, htype⟩, _⟩ := findDir_eq_ok ses hdir
      rw [hp]
      exact confined_of_find hsound.rooted hplain hn htype

/-! ## §3. Two exports. -/

/-- The directories `a` and `b` in the root, and the files `f` and `g` in `b`. -/
def exportedEdges : List FsEdge :=
  [⟨some 3, [0x67], 5⟩, ⟨some 3, [0x66], 4⟩, ⟨some rootId, [0x62], 3⟩, ⟨some rootId, [0x61], 2⟩]

def exportedTree : Master :=
  { Master.fsNew 0 .sclassNew [] true 32767 with
    nodes := fun i =>
      if i = 0 then none
      else if i ≤ 3 then some (Master.rootNode 0)
      else if i ≤ 5 then some { Master.rootNode 0 with type := .file, nlink := 1 }
      else none
    edges := exportedEdges }

/-- A new edge gets the number before that of the last one. -/
def exportedIds : EdgeIds where
  id e := match e.child with
    | 2 => edgeidMax - 1
    | 3 => edgeidMax - 2
    | 4 => edgeidMax - 3
    | _ => edgeidMax - 4
  lower e := by split <;> decide
  upper e := by split <;> decide

theorem exportedTree_isDir {d : Nat} (h : exportedTree.isDir d = true) : d = 1 ∨ d = 2 ∨ d = 3 := by
  by_contra hne
  have hfalse : exportedTree.isDir d = false := by
    unfold Master.isDir Master.typeOf exportedTree
    dsimp only
    split
    · rfl
    · rw [if_neg (by omega)]
      split <;> rfl
  rw [hfalse] at h
  cases h

theorem exportedTree_rooted : exportedTree.Rooted := by
  have hroot : Lib.Chain (dirsOf exportedEdges) rootId [rootId] := .top rfl
  have hchain : ∀ d, exportedTree.isDir d = true →
      ∃ l, Lib.Chain (dirsOf exportedEdges) d l ∧ rootId ∈ l := by
    intro d hd
    rcases exportedTree_isDir hd with rfl | rfl | rfl
    · exact ⟨_, hroot, by decide⟩
    · exact ⟨_, .step rfl hroot, by decide⟩
    · exact ⟨_, .step rfl hroot, by decide⟩
  refine ⟨⟨?_, ?_, ?_, ?_⟩, ?_, rfl⟩
  · show ∀ e ∈ exportedEdges, e.child ≠ rootId
    decide
  · show ∀ e ∈ exportedEdges, ∀ p, e.parent = some p → exportedTree.isDir p = true
    have hdirs : ∀ e ∈ exportedEdges, e.parent = some rootId ∨ e.parent = some 3 := by decide
    intro e he p hp
    rcases hdirs e he with h | h <;> rw [h] at hp <;> cases hp <;> rfl
  · show ∀ e ∈ exportedEdges, exportedTree.isDir e.child = true → e.parent ≠ none
    have hhung : ∀ e ∈ exportedEdges, e.parent ≠ none := by decide
    exact fun e he _ => hhung e he
  · intro d hd
    obtain ⟨l, hl, _⟩ := hchain d hd
    exact ⟨l, hl⟩
  · intro d hd
    obtain ⟨l, hl, hmem⟩ := hchain d hd
    exact hl.mem_iff_above.mp hmem

def exportedSystem : System :=
  { fs := exportedTree, swchunks := [], vleng := fun _ => 0, log := [] }

/-- User 0 reads the first `maxentries` lines of the root of an export. -/
def firstLines (rootinode maxentries : Nat) : ListEvent :=
  { ts := 1, mode := .never, rootinode := rootinode, sesflags := 0
    request := { cred := { uid := 0, gids := [0] }, inode := rootId, withattr := false
                 attrmode := 0, maxentries := maxentries, nedgeid := 0 } }

/-- The listing of `b` stopped at `f`. -/
theorem find_after_firstLines :
    (Lib.run step (start exportedSystem exportedIds) [firstLines 3 3]).tab.find (edgeidMax - 3)
      = some ⟨some 3, [0x66], 4⟩ := by
  decide +kernel

/-- User 0 goes on with the root of an export where the listing of `b` stopped. -/
def nextLines : ListRequest :=
  { cred := { uid := 0, gids := [0] }, inode := rootId, withattr := false, attrmode := 0
    maxentries := 10, nedgeid := edgeidMax - 3 }

/-- A session that exports `b` goes on with its own listing. -/
theorem listing_confined_own :
    (Lib.run step (start exportedSystem exportedIds) [firstLines 3 3]).fsReaddirSize
        (sessionsCreateSession 3 0) nextLines
      = .ok { dnode := some 3, dedge := [⟨some 3, [0x66], 4⟩], dbuffsize := 7 }
    ∧ (Lib.run step (start exportedSystem exportedIds) [firstLines 3 3]).Confined
        (sessionsCreateSession 3 0) rootId (some 3) := by
  refine ⟨?part, (listing_confined_iff exportedSystem exportedTree_rooted exportedIds
    [firstLines 3 3] 3 0 rootId (edgeidMax - 3)).mpr (.inr (.inr fun e he => ?_))
    nextLines rfl rfl _ ?part⟩
  · decide +kernel
  rw [find_after_firstLines] at he
  cases he
  exact ⟨rfl, .inl rfl⟩

/-- **A listing outside the export.**  After a session that exports `b` read the first lines of
it, a session that exports `a` asks for its own root with the number at which the other one
stopped, and is given the rest of `b`. -/
theorem listing_of_another_export :
    exportedTree.Rooted
      ∧ (Lib.run step (start exportedSystem exportedIds) [firstLines 3 3]).fsReaddirSize
          (sessionsCreateSession 2 0) nextLines
        = .ok { dnode := some 3, dedge := [⟨some 3, [0x66], 4⟩], dbuffsize := 7 }
      ∧ ¬ (Lib.run step (start exportedSystem exportedIds) [firstLines 3 3]).Confined
          (sessionsCreateSession 2 0) rootId (some 3)
      ∧ ¬ Lib.Above (dirsOf exportedEdges) 2 3 := by
  refine ⟨exportedTree_rooted, by decide +kernel, ?_, ?_⟩
  · intro hconf
    exact absurd hconf.1 (by decide)
  intro habove
  have hway : Lib.Chain (dirsOf exportedEdges) 3 [3, rootId] := .step rfl (.top rfl)
  exact absurd (hway.mem_iff_above.mpr habove) (by decide)

end Lister

end MfsMaster
