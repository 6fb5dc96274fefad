/-
  MfsMaster.Session.ExportCheck
  **WHICH LINE OF THE EXPORTS FILE A CLIENT GETS** (`exports.c`).

  One pass over the records keeps a current one and replaces it by the next matching record
  that is better in SOME attribute: it may be worse in an attribute that counts more.

      exportsCheck         — `exports_check`
      ExportRecord.rank    — the order the pass tests for, most important attribute first
      ExportRecord.beats   — the test it makes

  Main results:
      scan_best_iff        — a pass ends at a best element exactly when nothing behind the last
                             best one beats it
      export_rule_best_iff — this, for the records that match the client
-/
import MfsMaster.Data.Requests
import Mathlib.Data.List.DropRight
import Mathlib.Data.List.Induction
import Mathlib.Data.Prod.Lex

namespace MfsMaster

/-! ## §1. A pass of pairwise comparisons. -/

section Scan

variable {α β : Type*} [LinearOrder β] (rank : α → β) (beats : α → α → Bool)

/-- `f=e` where there is no `f` or `e` beats it. -/
def keepBetter (f : Option α) (e : α) : Option α :=
  match f with
  | none => some e
  | some f => some (if beats e f then e else f)

/-- The whole pass. -/
def scan (l : List α) : Option α := l.foldl (keepBetter beats) none

/-- Behind some best element none stands that beats it. -/
def UnbeatenLast (l : List α) : Prop :=
  ∃ pre m post, l = pre ++ m :: post ∧ (∀ e ∈ l, rank e ≤ rank m) ∧ ∀ e ∈ post, beats e m = false

variable {rank beats} {l : List α} {f : α}

theorem scan_append (e : α) : scan beats (l ++ [e]) = keepBetter beats (scan beats l) e := by
  unfold scan
  rw [List.foldl_append]
  rfl

/-- The element a pass ends at is beaten by none behind it. -/
theorem unbeaten_of_scan (h : scan beats l = some f) :
    ∃ pre post, l = pre ++ f :: post ∧ ∀ e ∈ post, beats e f = false := by
  induction l using List.reverseRecOn with
  | nil => cases h
  | append_singleton l e ih =>
    rw [scan_append] at h
    have hlast : e = f → ∃ pre post, l ++ [e] = pre ++ f :: post ∧ ∀ e ∈ post, beats e f = false :=
      fun heq => ⟨l, [], by rw [heq], nofun⟩
    cases hl : scan beats l with
    | none =>
      rw [hl] at h
      exact hlast (Option.some.inj h)
    | some g =>
      rw [hl, keepBetter] at h
      split at h
      · exact hlast (Option.some.inj h)
      next hbeats =>
      cases h
      obtain ⟨pre, post, rfl, hpost⟩ := ih hl
      exact ⟨pre, post ++ [e], by rw [List.append_assoc, List.cons_append],
        List.forall_mem_append.mpr ⟨hpost, List.forall_mem_singleton.mpr (by simpa using hbeats)⟩⟩

variable (hbeats : ∀ e f, rank f < rank e → beats e f = true)
  (hsame : ∀ e f g, rank f = rank g → beats e f = beats e g)
include hbeats hsame

/-- **Where a pass ends.** -/
theorem scan_best_iff :
    (∃ f, scan beats l = some f ∧ ∀ e ∈ l, rank e ≤ rank f) ↔ UnbeatenLast rank beats l := by
  constructor
  · rintro ⟨f, hf, hbest⟩
    obtain ⟨pre, post, hl, hpost⟩ := unbeaten_of_scan hf
    exact ⟨pre, f, post, hl, hbest, hpost⟩
  rintro ⟨pre, m, post, rfl, hbest, hpost⟩
  -- at `m` the pass has an element of this rank
  have hm : ∃ f, keepBetter beats (scan beats pre) m = some f ∧ rank f = rank m := by
    cases hpre : scan beats pre with
    | none => exact ⟨m, rfl, rfl⟩
    | some g =>
      obtain ⟨_, _, rfl, _⟩ := unbeaten_of_scan hpre
      have hg : rank g ≤ rank m := hbest g (by simp)
      show ∃ f, some (if beats m g then m else g) = some f ∧ _
      rcases hg.lt_or_eq with hlt | heq
      · rw [if_pos (hbeats m g hlt)]
        exact ⟨m, rfl, rfl⟩
      split
      · exact ⟨m, rfl, rfl⟩
      · exact ⟨g, rfl, heq⟩
  obtain ⟨f, hf, hrank⟩ := hm
  refine ⟨f, ?_, fun e he => hrank ▸ hbest e he⟩
  -- and keeps it
  unfold scan at hf ⊢
  rw [List.foldl_append, List.foldl_cons, hf]
  refine List.foldlRecOn (motive := (· = some f)) post _ rfl fun g hg e he => ?_
  rw [hg, keepBetter, hsame e f m hrank, hpost e he]
  rfl

end Scan

/-! ## §2. `exports_check`. -/

/-- What a client gets from a record. -/
structure ExportGrant where
  sesflags : UInt8
  umaskval : UInt16
  rootuid : UInt32
  rootgid : UInt32
  mapalluid : UInt32
  mapallgid : UInt32
  sclassgroups : UInt16
  mintrashretention : UInt32
  maxtrashretention : UInt32
  disables : UInt32
  deriving Repr, DecidableEq

/-- `exports`; the path stands without `/` at both ends. -/
structure ExportRecord extends ExportGrant where
  path : List UInt8
  fromip : UInt32
  toip : UInt32
  minversion : UInt32
  passworddigest : List UInt8
  alldirs : Bool
  needpassword : Bool
  forMeta : Bool
  deriving Repr, DecidableEq

/-- The arguments of `exports_check`; no path stands for the meta file system. -/
structure ExportClient where
  ip : UInt32
  version : UInt32
  path : Option (List UInt8)
  rndcode : Option (List UInt8)
  passcode : Option (List UInt8)
  deriving Repr, DecidableEq

/-- The answers of `exports_check`. -/
inductive ExportAnswer where
  | ok (grant : ExportGrant)
  | nopassword
  | badpassword
  | eacces
  deriving Repr, DecidableEq

def ExportGrant.readonly (g : ExportGrant) : Bool := hasBit g.sesflags sesflagReadonly

def ExportGrant.admin (g : ExportGrant) : Bool := hasBit g.sesflags sesflagAdmin

/-- The path up to its end, without slashes at both ends. -/
def trimPath (path : List UInt8) : List UInt8 :=
  ((path.dropWhile (· == 47)).takeWhile (· != 0)).rdropWhile (· == 47)

section Check

variable (md5 : List UInt8 → List UInt8) (cl : ExportClient)

/-- The codes of the client, where it has both and the first is not all zeros. -/
def ExportClient.codes : Option (List UInt8 × List UInt8) := do
  let rndcode ← cl.rndcode
  let passcode ← cl.passcode
  if rndcode.any (· != 0) then some (rndcode, passcode) else none

namespace ExportRecord

variable (e f : ExportRecord)

/-- The address, the version and the path of the client are those of the record. -/
def covers : Bool :=
  cl.ip ≥ e.fromip && cl.ip ≤ e.toip && cl.version ≥ e.minversion
    && match cl.path with
      | none => e.forMeta
      | some path =>
        let p := trimPath path
        !e.forMeta &&
          if e.path.length = 0 then p.length = 0 || e.alldirs
          else p == e.path || (e.alldirs && p.length > e.path.length
            && p.getD e.path.length 0 == 47 && p.take e.path.length == e.path)

/-- The password of the record, where it needs one, is the client's. -/
def passes : Bool :=
  !e.needpassword || match cl.codes with
    | none => false
    | some (rndcode, passcode) =>
      md5 (rndcode.take 16 ++ e.passworddigest ++ rndcode.drop 16) == passcode

/-- The chain of tests by which `e` takes the place of `f`. -/
def beats : Bool :=
  if !e.readonly && f.readonly then true
  else if e.rootuid == 0 && f.rootuid != 0 then true
  else if e.admin && !f.admin then true
  else if e.needpassword && !f.needpassword then true
  else e.path.length > f.path.length

/-- The attributes the chain tests, the first one counts most. -/
def rank : Bool ×ₗ Bool ×ₗ Bool ×ₗ Bool ×ₗ Nat :=
  toLex (!e.readonly, toLex (e.rootuid == 0, toLex (e.admin, toLex (e.needpassword,
    e.path.length))))

variable {e f}

theorem beats_of_rank (h : f.rank < e.rank) : e.beats f = true := by
  unfold rank at h
  simp only [Prod.Lex.toLex_lt_toLex, Bool.lt_iff] at h
  unfold beats
  grind

theorem beats_congr {g : ExportRecord} (h : f.rank = g.rank) : e.beats f = e.beats g := by
  unfold rank at h
  simp only [EmbeddingLike.apply_eq_iff_eq, Prod.mk.injEq] at h
  obtain ⟨hro, hroot, hadmin, hpass, hpath⟩ := h
  unfold beats
  rw [Bool.not_inj hro, bne, bne, hroot, hadmin, hpass, hpath]

theorem readonly_of_rank (h : e.rank ≤ f.rank) (he : e.readonly = false) : f.readonly = false := by
  unfold rank at h
  simp only [Prod.Lex.toLex_le_toLex, he] at h
  cases hf : f.readonly with
  | false => rfl
  | true =>
    rw [hf] at h
    rcases h with hlt | heq
    · exact absurd hlt (by simp)
    · exact absurd heq.1 (by simp)

end ExportRecord

/-- One turn of the loop: the current record, and whether a password was missing. -/
def exportsTurn (r : Option ExportRecord × Bool) (e : ExportRecord) : Option ExportRecord × Bool :=
  if e.covers cl then
    if e.passes md5 cl then
      (keepBetter ExportRecord.beats r.1 e, r.2)
    else (r.1, true)
  else r

variable (records : List ExportRecord)

/-- `exports_check`. -/
def exportsCheck : ExportAnswer :=
  let r := records.foldl (exportsTurn md5 cl) (none, false)
  match r.1 with
  | some f => .ok f.toExportGrant
  | none =>
    if r.2 then if cl.codes.isNone then .nopassword else .badpassword
    else .eacces

/-- The record the answer is taken from. -/
def exportsChosen : Option ExportRecord :=
  (records.foldl (exportsTurn md5 cl) (none, false)).1

/-- The records that match. -/
def exportsMatching : List ExportRecord :=
  records.filter fun e => e.covers cl && e.passes md5 cl

/-! ## §3. The record that is chosen. -/

variable {md5 cl} {records records' : List ExportRecord}

theorem exportsChosen_eq :
    exportsChosen md5 cl records = scan ExportRecord.beats (exportsMatching md5 cl records) := by
  unfold exportsChosen exportsMatching scan
  rw [List.foldl_filter]
  have hloop : ∀ (r : Option ExportRecord × Bool),
      (records.foldl (exportsTurn md5 cl) r).1 = records.foldl (fun f e =>
        if (e.covers cl && e.passes md5 cl) = true then keepBetter ExportRecord.beats f e
        else f) r.1 := by
    induction records with
    | nil => exact fun r => rfl
    | cons e records ih =>
      intro r
      rw [List.foldl_cons, List.foldl_cons, ih]
      congr 1
      unfold exportsTurn
      cases e.covers cl <;> cases e.passes md5 cl <;> rfl
  exact hloop (none, false)

theorem exportsChosen_mem {f : ExportRecord} (h : exportsChosen md5 cl records = some f) :
    f ∈ exportsMatching md5 cl records := by
  rw [exportsChosen_eq] at h
  obtain ⟨pre, post, hl, _⟩ := unbeaten_of_scan h
  rw [hl]
  exact List.mem_append_right _ List.mem_cons_self

theorem exportsCheck_chosen {f : ExportRecord} (h : exportsChosen md5 cl records = some f) :
    exportsCheck md5 cl records = .ok f.toExportGrant := by
  unfold exportsCheck
  dsimp only
  rw [show (records.foldl (exportsTurn md5 cl) (none, false)).1 = some f from h]

/-- The matching records, with none behind the last best one that beats it. -/
abbrev ExportsInOrder (md5 : List UInt8 → List UInt8) (cl : ExportClient)
    (records : List ExportRecord) : Prop :=
  UnbeatenLast ExportRecord.rank ExportRecord.beats (exportsMatching md5 cl records)

theorem chosen_best_iff :
    (∃ f, exportsChosen md5 cl records = some f ∧
      ∀ e ∈ exportsMatching md5 cl records, e.rank ≤ f.rank) ↔ ExportsInOrder md5 cl records := by
  rw [exportsChosen_eq]
  exact scan_best_iff (fun _ _ => ExportRecord.beats_of_rank) fun _ _ _ => ExportRecord.beats_congr

/-- **The best rule.**  When some record matches, the chosen one is a best one exactly when no
matching record behind the last best one beats it in any attribute; then the order of the file
decides only between records of one rank, and a read-only session is given only where no matching
record is read-write. -/
theorem export_rule_best_iff (md5 : List UInt8 → List UInt8) (cl : ExportClient)
    (records : List ExportRecord) :
    (exportsMatching md5 cl records ≠ [] →
      ((∃ f, exportsCheck md5 cl records = .ok f.toExportGrant ∧
        exportsChosen md5 cl records = some f ∧
        ∀ e ∈ exportsMatching md5 cl records, e.rank ≤ f.rank) ↔ ExportsInOrder md5 cl records)) ∧
      (ExportsInOrder md5 cl records →
        (∀ records', records'.Perm records → ExportsInOrder md5 cl records' →
          (exportsChosen md5 cl records').map ExportRecord.rank
            = (exportsChosen md5 cl records).map ExportRecord.rank) ∧
        ∀ g, exportsCheck md5 cl records = .ok g →
          (∃ e ∈ exportsMatching md5 cl records, e.readonly = false) → g.readonly = false) := by
  have hiff := @chosen_best_iff md5 cl records
  refine ⟨fun _ => ⟨fun ⟨f, _, hf⟩ => hiff.mp ⟨f, hf⟩, fun h => ?_⟩,
    fun h => ⟨fun records' hperm h' => ?_, ?_⟩⟩
  · obtain ⟨f, hf⟩ := hiff.mpr h
    exact ⟨f, exportsCheck_chosen hf.1, hf⟩
  · obtain ⟨f, hf, hbest⟩ := hiff.mpr h
    obtain ⟨f', hf', hbest'⟩ := chosen_best_iff.mpr h'
    have hmem : ∀ e, e ∈ exportsMatching md5 cl records' ↔ e ∈ exportsMatching md5 cl records :=
      fun e => (hperm.filter _).mem_iff
    rw [hf, hf', Option.map_some, Option.map_some]
    exact congrArg some (le_antisymm (hbest f' ((hmem f').mp (exportsChosen_mem hf')))
      (hbest' f ((hmem f).mpr (exportsChosen_mem hf))))
  · rintro g hg ⟨e, he, hrw⟩
    obtain ⟨f, hf, hbest⟩ := hiff.mpr h
    rw [exportsCheck_chosen hf] at hg
    cases hg
    exact ExportRecord.readonly_of_rank (hbest e he) hrw

end Check

/-- A record for everybody, with these flags and this user for root. -/
def exportAll (sesflags : UInt8) (rootuid : UInt32) : ExportRecord where
  sesflags := sesflags
  umaskval := 0
  rootuid := rootuid
  rootgid := 0
  mapalluid := 0
  mapallgid := 0
  sclassgroups := 0
  mintrashretention := 0
  maxtrashretention := 0
  disables := 0
  path := []
  fromip := 0
  toip := 0xFFFFFFFF
  minversion := 0
  passworddigest := []
  alldirs := true
  needpassword := false
  forMeta := false

/-- A client that mounts the root and has no password. -/
def rootClient : ExportClient := ⟨0x0A000001, 0x040000, some [47], none, none⟩

/-- With the read-write record last, the session is read-write. -/
theorem export_rule_best_last :
    exportsMatching id rootClient [exportAll sesflagReadonly 65534, exportAll 0 0] ≠ []
      ∧ ∃ f, exportsCheck id rootClient [exportAll sesflagReadonly 65534, exportAll 0 0]
          = .ok f.toExportGrant ∧
        exportsChosen id rootClient [exportAll sesflagReadonly 65534, exportAll 0 0] = some f ∧
        ∀ e ∈ exportsMatching id rootClient [exportAll sesflagReadonly 65534, exportAll 0 0],
          e.rank ≤ f.rank := by
  have hsome :
      exportsMatching id rootClient [exportAll sesflagReadonly 65534, exportAll 0 0] ≠ [] := by
    decide
  refine ⟨hsome, ((export_rule_best_iff id rootClient _).1 hsome).mpr
    ⟨[exportAll sesflagReadonly 65534], exportAll 0 0, [], by decide, fun e he => ?_, nofun⟩⟩
  have hmem : ∀ e ∈ exportsMatching id rootClient [exportAll sesflagReadonly 65534, exportAll 0 0],
      e = exportAll sesflagReadonly 65534 ∨ e = exportAll 0 0 := by decide
  rcases hmem e he with rfl | rfl
  · exact le_of_lt (Prod.Lex.toLex_lt_toLex.mpr (.inl (by decide)))
  · exact le_rfl

/-- A read-write record is followed by a read-only one that does not map root: the session is
read-only. -/
theorem read_write_record_lost :
    (exportAll 0 65534).readonly = false ∧
      exportsMatching id rootClient [exportAll 0 65534, exportAll sesflagReadonly 0]
        = [exportAll 0 65534, exportAll sesflagReadonly 0] ∧
      exportsCheck id rootClient [exportAll 0 65534, exportAll sesflagReadonly 0]
        = .ok (exportAll sesflagReadonly 0).toExportGrant ∧
      (exportAll sesflagReadonly 0).readonly = true := by
  decide

end MfsMaster
