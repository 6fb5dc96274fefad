/-
  MfsMaster.Data.ReadOnly
  **WHAT A READ-ONLY SESSION CAN CHANGE.**

  Every function that changes metadata on request asks for `SESFLAG_READONLY` by itself.
  Two of them do not refuse: `fs_amtime_update` does not ask at all, and `fs_readchunk`
  sets the access time for the sessions it should spare.  A read also drops the entries
  of lost servers, and may have missing parts of the chunk made again; the end of an
  operation and a corrected version that come to light there are logged.

      SameMetadata          — nodes, edges, quotas, tables, chunk records and the log
      Request.Harmless      — none of the above happens
      sameMetadata_serve    — one harmless request
      readonly_session_keeps_metadata, readonly_session_changes_times
-/
import MfsMaster.Data.Requests
import MfsMaster.Data.OnlyChunks
import MfsMaster.Data.References

namespace MfsMaster

/-! ## §1. Metadata. -/

/-- The stored part of a chunk record: the version, the files, the flags and the lock. -/
def Chunk.stored (c : Chunk) : Nat × (FHead × Nat) × (Bool × Bool) × UInt32 :=
  (c.version, c.view)

variable {allowRecover : Bool} {c : Chunk} {chunkid : Nat} {mode : AtimeMode}
  {ses : ClientSession} {srv : Servers} {sys : System}

namespace System

/-- Nothing that is stored or logged differs; the copies known of a chunk may. -/
structure SameMetadata (sys sys' : System) : Prop where
  fs : Master.OnlyChunks sys.fs sys'.fs
  chunks : ∀ id, (sys'.fs.chunks id).map Chunk.stored = (sys.fs.chunks id).map Chunk.stored
  log : sys'.log = sys.log

theorem SameMetadata.refl {sys : System} : SameMetadata sys sys :=
  ⟨.refl _, fun _ => rfl, rfl⟩

theorem SameMetadata.trans {a b c : System} (h : SameMetadata a b) (h' : SameMetadata b c) :
    SameMetadata a c :=
  ⟨h.fs.trans h'.fs, fun id => (h'.chunks id).trans (h.chunks id), h'.log.trans h.log⟩

theorem SameMetadata.nodes {sys' : System} (h : SameMetadata sys sys') :
    sys'.fs.nodes = sys.fs.nodes :=
  h.fs.newChunks.nodes

theorem sameMetadata_putChunk {c' : Chunk} (hc : sys.fs.chunks chunkid = some c)
    (hs : c'.stored = c.stored) : SameMetadata sys (sys.modFs (·.putChunk chunkid c')) := by
  refine ⟨Master.onlyChunks_putChunk _ _ _, fun id => ?_, rfl⟩
  show (if id = chunkid then some c' else sys.fs.chunks id).map Chunk.stored = _
  by_cases hid : id = chunkid
  · rw [if_pos hid, hid, hc]
    show some c'.stored = some c.stored
    rw [hs]
  · rw [if_neg hid]

/-! ## §2. Reading a chunk. -/

/-- The entries a reader finds: those of lost servers are dropped while there are any. -/
def onServers (srv : Servers) (c : Chunk) : List SEntry :=
  if srv.disc then c.slist.filter fun s => srv.valid s.csid else c.slist

/-- Dropping the entries of lost servers ends nothing: there are none, or the chunk belongs to a
file and has no operation or one that still waits for a server. -/
def QuietLoss (srv : Servers) (c : Chunk) : Prop :=
  (!srv.disc || c.slist.all fun s => srv.valid s.csid) = true
    ∨ (c.fhead ≠ .few 0
      ∧ (c.operation = .none ∨ (onServers srv c).any (fun s => s.valid.pending) = true))

instance (srv : Servers) (c : Chunk) : Decidable (QuietLoss srv c) :=
  inferInstanceAs (Decidable (_ ∨ _))

theorem chunkRemoveDisconnectedChunks_quiet (h : QuietLoss srv c) :
    ∃ c', chunkRemoveDisconnectedChunks srv c = some (c', []) ∧ c'.stored = c.stored
      ∧ c'.operation = c.operation ∧ c'.slist = onServers srv c := by
  unfold chunkRemoveDisconnectedChunks
  split
  next hall =>
    refine ⟨c, rfl, rfl, rfl, ?_⟩
    unfold onServers
    split
    next hdisc =>
      rw [hdisc] at hall
      exact (List.filter_eq_self.mpr fun s hs => List.all_eq_true.mp hall s hs).symm
    · rfl
  next hall =>
    have hdisc : srv.disc = true := by
      by_contra hno
      exact hall (by simp [hno])
    have hlist : onServers srv c = c.slist.filter fun s => srv.valid s.csid := if_pos hdisc
    obtain ⟨hfiles, hop⟩ := h.resolve_left hall
    have hdel : chunkDeletable srv { c with
        slist := c.slist.filter fun s => srv.valid s.csid, needverincrease := true } = false := by
      have hne : (c.fhead == .few 0) = false := by simpa using hfiles
      simp [chunkDeletable, hne]
    dsimp only
    rw [hdel, if_neg Bool.false_ne_true]
    by_cases hnone : c.operation = .none
    · rw [if_pos hnone]
      exact ⟨_, rfl, rfl, rfl, hlist.symm⟩
    · rw [if_neg hnone, if_pos (hlist ▸ hop.resolve_left hnone)]
      exact ⟨_, rfl, rfl, rfl, hlist.symm⟩

theorem dropDisconnected_quiet (hc : sys.fs.chunks chunkid = some c) (h : QuietLoss srv c) :
    SameMetadata sys (sys.dropDisconnected srv chunkid)
      ∧ ∃ c', (sys.dropDisconnected srv chunkid).fs.chunks chunkid = some c'
        ∧ c'.stored = c.stored ∧ c'.operation = c.operation ∧ c'.slist = onServers srv c := by
  obtain ⟨c', hr, hs, hop, hl⟩ := chunkRemoveDisconnectedChunks_quiet h
  have heq : sys.dropDisconnected srv chunkid = sys.modFs (·.putChunk chunkid c') := by
    unfold dropDisconnected
    rw [hc]
    dsimp only
    rw [hr]
    rfl
  rw [heq]
  exact ⟨sameMetadata_putChunk hc hs, c', if_pos rfl, hs, hop, hl⟩

/-- No parts are made again for the reader: it may not ask for them, the chunk is locked or has an
operation, or its entries are not of that kind. -/
def NoRecovery (srv : Servers) (allowRecover : Bool) (c : Chunk) : Prop :=
  allowRecover = false ∨ srv.now ≤ c.lockedto ∨ c.operation ≠ .none
    ∨ readScan (onServers srv c) ≠ .recoverable

instance (srv : Servers) (allowRecover : Bool) (c : Chunk) :
    Decidable (NoRecovery srv allowRecover c) :=
  inferInstanceAs (Decidable (_ ∨ _ ∨ _ ∨ _))

theorem sameMetadata_chunkReadCheck
    (h : ∀ c, sys.fs.chunks chunkid = some c → QuietLoss srv c ∧ NoRecovery srv allowRecover c) :
    SameMetadata sys (sys.chunkReadCheck srv chunkid allowRecover).2 := by
  cases hc : sys.fs.chunks chunkid with
  | none =>
    -- no such chunk: nothing to drop
    have hdrop : sys.dropDisconnected srv chunkid = sys := by
      unfold dropDisconnected
      rw [hc]
    unfold chunkReadCheck
    dsimp only
    rw [hdrop, hc]
    exact .refl
  | some c =>
    obtain ⟨hquiet, hno⟩ := h c hc
    obtain ⟨hsame, c', hc', hs, hop, hl⟩ := dropDisconnected_quiet hc hquiet
    have hlock : c'.lockedto = c.lockedto := congrArg (fun x => x.2.2.2) hs
    unfold chunkReadCheck
    dsimp only
    rw [hc']
    dsimp only
    split
    · exact hsame
    next hfree =>
    split
    · exact hsame
    next hidle =>
    cases hscan : readScan c'.slist with
    | busy | readable | unreadable => exact hsame
    | recoverable =>
      -- the only branch with a job is the one the condition excludes
      rcases hno with hallow | hlocked | hbusy | hkind
      · rw [hallow]
        exact hsame
      · exact absurd (hlock ▸ hlocked) hfree
      · exact absurd (hop.symm.trans (not_not.mp hidle)) hbusy
      · exact absurd (hl ▸ hscan) hkind

/-! ## §3. Harmless requests. -/

/-- `fs_readchunk` leaves the access time of the file alone. -/
def SparesAtime (srv : Servers) (mode : AtimeMode) (ses : ClientSession) (canmodtime : Bool)
    (n : FsNode) : Prop :=
  ses.sesflags ≠ sesflagReadonly ∨ n.atime = srv.now ∨ canmodtime = false
    ∨ mode.dueFile n srv.now = false

instance (srv : Servers) (mode : AtimeMode) (ses : ClientSession) (canmodtime : Bool)
    (n : FsNode) : Decidable (SparesAtime srv mode ses canmodtime n) :=
  inferInstanceAs (Decidable (_ ∨ _ ∨ _ ∨ _))

/-- A time a client reports is not newer than the one that is stored. -/
def AmtimeEntry.Stale (e : AmtimeEntry) (mode : AtimeMode) (ses : Session) (s : Master) : Prop :=
  ∀ p ∈ s.nodeFindOpened ses true e.inode,
    (p.2.atime < e.atime → mode.dueFile p.2 e.atime = false) ∧ ¬ p.2.mtime < e.mtime

instance (e : AmtimeEntry) (mode : AtimeMode) (ses : Session) (s : Master) :
    Decidable (e.Stale mode ses s) :=
  inferInstanceAs (Decidable (∀ p ∈ s.nodeFindOpened ses true e.inode, _))

/-- The requests of a read-only session that change nothing. -/
def Harmless (ses : ClientSession) (sys : System) (a : Arrival) : Prop :=
  match a.request with
  | .readchunk inode indx canmodtime allowRecover =>
    ∀ n ∈ sys.fs.nodes inode, SparesAtime a.srv a.atimeMode ses canmodtime n
      ∧ ∀ c ∈ sys.fs.chunks (entryAt n indx), QuietLoss a.srv c ∧ NoRecovery a.srv allowRecover c
  | .amtime l => ∀ e ∈ l, e.Stale a.atimeMode ses.session sys.fs
  | _ => True

instance (ses : ClientSession) (sys : System) : (a : Arrival) → Decidable (Harmless ses sys a)
  | ⟨_, _, .readchunk ..⟩ => inferInstanceAs (Decidable (∀ n ∈ _, _ ∧ ∀ c ∈ _, _ ∧ _))
  | ⟨_, _, .amtime l⟩ => inferInstanceAs (Decidable (∀ e ∈ l, _))
  | ⟨_, _, .readdir _ _ _⟩ | ⟨_, _, .readlink _⟩ | ⟨_, _, .opencheck _ _ _⟩ | ⟨_, _, .getattr _ _⟩
  | ⟨_, _, .setattr _⟩ | ⟨_, _, .truncate _ _ _ _ _ _ _⟩ | ⟨_, _, .writeChunk _ _ _ _ _ _⟩
  | ⟨_, _, .writeChunkEnd _ _ _ _⟩ => isTrue trivial

/-! ## §4. One request. -/

/-- The node `fs_readchunk` works on. -/
theorem dataNode_ok {s : Master} {inode indx : Nat} {st : Status} {n : FsNode}
    (h : s.dataNode inode indx st = .ok n) : s.nodes inode = some n := by
  obtain ⟨n', hn', h⟩ := except_bind_eq_ok.mp h
  obtain ⟨_, _, h⟩ := except_bind_eq_ok.mp h
  obtain ⟨_, _, h⟩ := except_bind_eq_ok.mp h
  cases h
  exact require_eq_ok.mp hn'

theorem sameMetadata_fsReadchunk {inode indx : Nat} {canmodtime : Bool}
    (h : ∀ n ∈ sys.fs.nodes inode, SparesAtime srv mode ses canmodtime n
      ∧ ∀ c ∈ sys.fs.chunks (entryAt n indx), QuietLoss srv c ∧ NoRecovery srv allowRecover c) :
    SameMetadata sys (sys.fsReadchunk srv mode ses inode indx canmodtime allowRecover).2 := by
  unfold fsReadchunk
  cases hn : sys.fs.dataNode inode indx .eperm with
  | error st => exact .refl
  | ok n =>
    have hnode := dataNode_ok hn
    obtain ⟨hspare, hchunk⟩ := h n hnode
    dsimp only
    generalize hr : (if 0 < entryAt n indx then
      sys.chunkReadCheck srv (entryAt n indx) allowRecover else (Status.ok, sys)) = r
    have hsame : SameMetadata sys r.2 := by
      rw [← hr]
      split
      · exact sameMetadata_chunkReadCheck hchunk
      · exact .refl
    split
    · exact hsame
    -- the access time is asked for on the node as it still is
    rw [hsame.nodes, hnode]
    dsimp only
    split
    next hset =>
      obtain ⟨hflags, htime, hcan, hdue⟩ := hset
      rcases hspare with hs | hs | hs | hs
      · exact absurd hflags hs
      · exact absurd hs htime
      · rw [hs] at hcan
        cases hcan
      · rw [hs] at hdue
        cases hdue
    · exact hsame

/-- Times that are not newer are not taken over. -/
theorem fsAmtimeUpdate_stale {ts : UInt32} {ses : Session} {l : List AmtimeEntry}
    (h : ∀ e ∈ l, e.Stale mode ses sys.fs) : sys.fsAmtimeUpdate ts mode ses l = sys := by
  refine List.foldlRecOn (motive := (· = sys)) l _ rfl fun t ht e he => ?_
  rw [ht]
  unfold amtimeEntry
  cases hfind : sys.fs.nodeFindOpened ses true e.inode with
  | none => rfl
  | some p =>
    obtain ⟨hatime, hmtime⟩ := h e he p hfind
    have ha : e.newAtime mode p.2 = false := by
      unfold AmtimeEntry.newAtime
      by_cases hlt : p.2.atime < e.atime
      · rw [hatime hlt, Bool.and_false]
      · simp [hlt]
    have hm : e.newMtime p.2 = false := by
      unfold AmtimeEntry.newMtime
      simpa using hmtime
    dsimp only
    rw [ha, hm]
    rfl

theorem fuseTruncate_readonly {client : Nat} {q : LengthRequest}
    (h : q.session.flags.readonly = true) : sys.fuseTruncate srv client q = (.erofs, sys) := by
  have hcheck : sys.lengthCheck q = .error .erofs := by
    unfold lengthCheck
    rw [h]
    rfl
  unfold fuseTruncate fsTrySetlength
  rw [hcheck]
  rfl

/-- **One harmless request** of a read-only session. -/
theorem sameMetadata_serve {a : Arrival} (hro : hasBit ses.sesflags sesflagReadonly = true)
    (h : Harmless ses sys a) : SameMetadata sys (serve ses sys a) := by
  have hflag : ses.session.flags.readonly = true := hro
  obtain ⟨srv, mode, request⟩ := a
  cases request with
  | readchunk inode indx canmodtime allowRecover => exact sameMetadata_fsReadchunk h
  | readdir ids tab q =>
    show SameMetadata sys (sys.fsReaddir srv.now mode ses.session ids tab q).2
    unfold fsReaddir Lister.fsReaddirData fsReaddirData
    rw [hflag]
    -- the listing is sent, the access time stays
    dsimp only
    split
    · exact .refl
    · dsimp only
      split
      · exact .refl
      · split <;> exact .refl
  | readlink inode =>
    show SameMetadata sys (sys.fsReadlink srv.now mode ses.session inode).2
    unfold fsReadlink
    split
    · exact .refl
    · rw [hflag]
      split <;> exact .refl
  | opencheck c inode flags =>
    show SameMetadata sys (sys.fsOpencheck srv.now ses.session c inode flags).2
    unfold fsOpencheck
    cases hopen : opencheckTests sys.fs ses.session c inode flags with
    | error st => exact .refl
    | ok p =>
      -- a read-only session that gets here asked neither to write nor to truncate
      have hmode : hasBit flags (openWrite ||| openTruncate) = false := by
        obtain ⟨_, hopen, _⟩ := except_bind_eq_ok.mp hopen
        rw [hflag] at hopen
        simpa using refuse_eq_ok.mp hopen
      have htrunc : hasBit flags openTruncate = false := hasBit_of_submask (by decide) hmode
      rw [htrunc, Bool.and_false]
      exact .refl
  | getattr inode opened => exact .refl
  | setattr q =>
    have htests : setattrTests sys.fs ses q = .error .erofs := by
      unfold setattrTests
      dsimp only
      rw [hflag]
      rfl
    show SameMetadata sys (sys.fsSetattr srv.now ses q).2
    unfold fsSetattr
    rw [htests]
    exact .refl
  | truncate client c inode flags length noTruncate noSetlength =>
    show SameMetadata sys (sys.fuseTruncate srv client _).2
    rw [fuseTruncate_readonly hflag]
    exact .refl
  | amtime l =>
    show SameMetadata sys (sys.fsAmtimeUpdate srv.now mode ses.session l)
    rw [fsAmtimeUpdate_stale h]
    exact .refl
  | writeChunk client inode indx continueop canmodtime canusereserve =>
    show SameMetadata sys (sys.fuseWriteChunk srv client ses.session .write inode indx continueop
      canmodtime canusereserve).2
    unfold fuseWriteChunk
    rw [if_pos ⟨hflag, rfl⟩]
    exact .refl
  | writeChunkEnd inode length chunkid canmodtime =>
    show SameMetadata sys (sys.fuseWriteChunkEnd srv ses.session inode length chunkid canmodtime).2
    unfold fuseWriteChunkEnd
    rw [if_pos hflag]
    exact .refl

/-! ## §5. Whole sessions. -/

/-- **A read-only session changes no metadata** as long as its requests are harmless: whatever
other flags it has and however the access times are kept, nodes, edges, quotas, chunk tables and
chunk records are those of the start, and nothing is logged. -/
theorem readonly_session_keeps_metadata (ses : ClientSession)
    (hro : hasBit ses.sesflags sesflagReadonly = true) (sys : System) (l : List Arrival)
    (h : Lib.StepsMeet (serve ses) (Harmless ses) sys l) :
    SameMetadata sys (Lib.run (serve ses) sys l) :=
  Lib.run_invariant (fun _ _ hsame hharm => hsame.trans (sameMetadata_serve hro hharm)) l sys
    .refl h

/-- A file with a chunk of two copies, one of them on a server that went away. -/
def readFile : System :=
  newSystem.modFs fun s => { s with
    nodes := fun i => if i = 2 then
        some { Master.rootNode 0 with
          type := .file, mtime := 50, ctime := 50, length := 5, chunktab := [1] }
      else s.nodes i
    chunks := fun c => if c = 1 then
        some { chunkNew with version := 1, fhead := .few 1, sclassid := 1, lockedto := 1
                             slist := [⟨1, .valid, 0, 1⟩, ⟨2, .valid, 0, 1⟩] }
      else none
    nextchunkid := 2 }

/-- What the read-only client asks, and when. -/
def askedAt (now : UInt32) (request : Request) : Arrival :=
  { srv := { oneServer with now := now, disc := true, valid := fun csid => csid == 1 }
    atimeMode := .always, request := request }

/-- A read-only session with a dynamic address reads the file, tries to write to it, and reports
the times it has seen. -/
theorem readonly_session_reads : Lib.StepsMeet (serve ⟨1, 0x03⟩) (Harmless ⟨1, 0x03⟩) readFile
        [askedAt 1000 (.readchunk 2 0 true true), askedAt 1001 (.writeChunk 7 2 0 false true false),
          askedAt 1002 (.amtime [⟨2, 0, 50⟩])]
      ∧ (Lib.run (serve ⟨1, 0x03⟩) readFile
        [askedAt 1000 (.readchunk 2 0 true true), askedAt 1001 (.writeChunk 7 2 0 false true false),
          askedAt 1002 (.amtime [⟨2, 0, 50⟩])]).log = readFile.log := by
  refine ⟨?harmless,
    (readonly_session_keeps_metadata ⟨1, 0x03⟩ (by decide) readFile _ ?harmless).log⟩
  decide

/-- **A read-only session changes the times of a file**: by reading it when it has no other flag,
and by reporting times of its own choice whatever flags it has. -/
theorem readonly_session_changes_times : hasBit 0x01 sesflagReadonly = true
      ∧ ((serve ⟨1, 0x01⟩ readFile (askedAt 1000 (.readchunk 2 0 true true))).log
        = readFile.log ++ [.access 1000 2])
      ∧ (((serve ⟨1, 0x01⟩ readFile (askedAt 1000 (.readchunk 2 0 true true))).fs.nodes 2).map
        FsNode.atime = some 1000)
      ∧ hasBit 0x43 sesflagReadonly = true
      ∧ ((serve ⟨1, 0x43⟩ readFile (askedAt 1000 (.amtime [⟨2, 5, 77⟩]))).log
        = readFile.log ++ [.amtime 1000 2 5 77 77])
      ∧ ((serve ⟨1, 0x43⟩ readFile (askedAt 1000 (.amtime [⟨2, 5, 77⟩]))).fs.nodes 2).map
        FsNode.mtime = some 77 := by
  decide

end System

end MfsMaster
