/-
  MfsMaster.Log.Complete
  **WHICH RECORDS REACH THE LOG COMPLETE.**

  `changelog` prints into a buffer of `MAXLOGLINESIZE` characters.  Numbers take a few hundred of
  them at most; everything else is the bytes, groups and expressions of a request, of which the
  request decides the length.  For all but three records that length is tested and small enough.

      length_text_le_data     — a record is at most 700 characters longer than its data
      length_text_lt_iff      — a record is short enough iff its data fit
      record_complete_iff     — and then it is kept whole
      record_complete_shared  — a list for two users
      record_cut_many_users   — a list for 11200 users is accepted and cut
-/
import MfsMaster.Fs.SetAcl
import MfsMaster.Lib.Pack
import MfsMaster.Log.Records

namespace MfsMaster.Log

/-! ## §1. Numbers and data. -/

namespace Field

/-- The characters of a field that its format does not bound. -/
def data : Field → Nat
  | name bytes => 3 * bytes.length
  | inParens bytes => 3 * bytes.length
  | gids gid => 11 * gid.length
  | exprs labelexpr => (labelexpr.map fun e => 2 * e.length + 1).sum
  | _ => 0

theorem bound_le_data (f : Field) : f.bound ≤ 32 + f.data := by
  cases f <;> simp only [bound, data] <;> omega

end Field

namespace Shape

theorem fieldsBound_le_data (l : List Field) :
    fieldsBound l ≤ 33 * l.length + (l.map Field.data).sum := by
  unfold fieldsBound
  induction l with
  | nil => exact Nat.le_refl 0
  | cons f l ih =>
    have hf := f.bound_le_data
    simp only [List.map_cons, List.sum_cons, List.length_cons]
    omega

end Shape

namespace ChangeRecord

variable (ts : UInt32) (r : ChangeRecord)

/-- The characters the data of a record can take. -/
def data : Nat := (((r.shape ts).args ++ (r.shape ts).results).map Field.data).sum

theorem length_name_le : (r.shape ts).name.length ≤ 15 := by
  cases r <;> (dsimp only [shape]; decide)

theorem length_fields_le : (r.shape ts).args.length + (r.shape ts).results.length ≤ 16 := by
  cases r <;> exact Nat.le_of_ble_eq_true rfl

/-- **A record is at most 700 characters longer than its data.** -/
theorem length_text_le_data : (r.text ts).length ≤ 700 + r.data ts := by
  have hname := r.length_name_le ts
  have hfields := r.length_fields_le ts
  have hargs := Shape.fieldsBound_le_data (r.shape ts).args
  have hresults := Shape.fieldsBound_le_data (r.shape ts).results
  have htext := (r.shape ts).length_text_le
  unfold text data
  rw [List.map_append, List.sum_append]
  omega

theorem length_text_lt (h : r.data ts ≤ 199000) : (r.text ts).length < maxLogLineSize := by
  have hlen := r.length_text_le_data ts
  unfold maxLogLineSize
  omega

/-! ## §2. All records. -/

/-- The expressions of a mode take two characters for a byte. -/
theorem exprs_le {m : StorageMode} (h : m.Admitted) :
    (m.labelexpr.map fun e => 2 * e.length + 1).sum ≤ 9 * 257 := by
  obtain ⟨hcnt, hsize⟩ := h
  have hmem : ∀ n ∈ m.labelexpr.map fun e => 2 * e.length + 1, n ≤ 257 := by
    intro n hn
    obtain ⟨e, he, rfl⟩ := List.mem_map.mp hn
    have hlen : e.length = 128 := hsize e he
    omega
  have hsum := List.sum_le_card_nsmul _ 257 hmem
  rw [List.length_map, nsmul_eq_mul] at hsum
  exact Nat.le_trans hsum (Nat.mul_le_mul_right 257 hcnt)

/-- A storage class has four lists of expressions. -/
theorem scset_data_le {sc : SclassData} (h : (scset sc).Admitted) :
    (scset sc).data ts ≤ 199000 := by
  obtain ⟨hname, hdesc, hcreate, hkeep, harch, htrash⟩ := h
  have h1 := exprs_le hcreate
  have h2 := exprs_le hkeep
  have h3 := exprs_le harch
  have h4 := exprs_le htrash
  unfold mfsNameMax at hname hdesc
  unfold data shape SclassData.fields StorageMode.field StorageMode.ecField
  simp only [List.cons_append, List.nil_append, List.map_cons, List.map_nil, List.map_append,
    List.sum_cons, List.sum_nil, List.sum_append, Field.data, Nat.zero_add, Nat.add_zero]
  omega

theorem session_data (ses : SessionData) :
    (ses.fields.map Field.data).sum = 3 * ses.info.length := by
  simp only [SessionData.fields, List.map_cons, List.map_nil, List.sum_cons, List.sum_nil,
    Field.data, Nat.zero_add, Nat.add_zero]

theorem quota_data (q : QuotaData) : (q.fields.map Field.data).sum = 0 := rfl

/-- **A record is short enough iff its data fit.** -/
theorem length_text_lt_iff (h : r.Admitted) : (r.text ts).length < maxLogLineSize ↔ r.Fits ts := by
  have hsetacl : "SETACL".length = 6 := by decide
  have haddattr : "ADDATTR".length = 7 := by decide
  have htrash : "TRASH_RECOVER".length = 13 := by decide
  cases r
  -- the data of three records have no limit, and their lengths are summed up
  case setacl | addattr | trashRecover =>
    unfold text shape Fits
    simp only [Shape.length_text, hsetacl, haddattr, htrash, List.isEmpty_nil, List.isEmpty_cons,
      if_true, if_neg Bool.false_ne_true, Shape.fieldsLength, List.map_cons, List.map_nil,
      List.sum_cons, List.sum_nil, List.length_cons, List.length_nil, List.cons_append,
      List.length_append, Field.text, length_changelogEscapeName, digits]
    exact iff_of_eq (congrArg (· < maxLogLineSize) (by ring))
  -- the length of every other record is bounded by what its request may hold
  all_goals refine iff_of_true (length_text_lt ts _ ?_) trivial
  case scset => exact scset_data_le ts h
  all_goals unfold data shape
  all_goals
    simp only [List.cons_append, List.nil_append, List.append_nil, List.map_append, List.map_cons,
      List.map_nil, List.sum_append, List.sum_cons, List.sum_nil, Field.data, session_data,
      quota_data, Nat.zero_add, Nat.add_zero, Admitted, mfsNameMax, mfsPathMax, mfsGidsMax,
      mfsXattrSizeMax] at h ⊢
  all_goals omega

end ChangeRecord

namespace ChangeRecord

/-- **A record is kept whole iff its data fit.** -/
theorem record_complete_iff (ts : UInt32) (r : ChangeRecord) (h : r.Admitted) :
    changelogKeeps (r.text ts) = r.text ts ↔ r.Fits ts := by
  rw [changelogKeeps_eq_iff, length_text_lt_iff ts r h]

/-- An access list for the users 7 and 8. -/
def listForTwo : ChangeRecord :=
  setacl 1 0o664 1 1 6 6 4 7 2 0 [0, 0, 0, 7, 0, 6, 0, 0, 0, 8, 0, 4]

theorem record_complete_shared :
    listForTwo.Admitted ∧ changelogKeeps (listForTwo.text 5) = listForTwo.text 5 :=
  have hadmitted : listForTwo.Admitted := by unfold listForTwo Admitted; decide
  ⟨hadmitted, (record_complete_iff 5 listForTwo hadmitted).mpr (by unfold listForTwo Fits; decide)⟩

end ChangeRecord

/-! ## §3. Records of access lists. -/

section AccessLists

open Master

/-- A named user or group in `aclblob`. -/
def aclEntry (e : Nat × UInt16) : List UInt8 :=
  Lib.Reader.put32bit (UInt32.ofNat e.1) ++ Lib.Reader.put16bit e.2

/-- `aclblob`: the named users, then the named groups. -/
def aclBlob (acn : AclNode) : List UInt8 :=
  (acn.namedusers ++ acn.namedgroups).flatMap aclEntry

/-- A SETACL record in the changelog. -/
def toChange (r : SetaclRecord) : ChangeRecord :=
  .setacl (UInt32.ofNat r.inode) r.mode (if r.changectime then 1 else 0) r.acltype
    r.list.userperm r.list.groupperm r.list.otherperm r.list.mask
    (UInt16.ofNat r.list.namedusers.length) (UInt16.ofNat r.list.namedgroups.length)
    (aclBlob r.list)

theorem length_aclEntry {e : Nat × UInt16} : (aclEntry e).length = 6 := by
  unfold aclEntry Lib.Reader.put32bit Lib.Reader.put16bit
  rw [List.length_append, Lib.Reader.length_put, Lib.Reader.length_put]

theorem length_blob (acn : AclNode) :
    (aclBlob acn).length = 6 * (acn.namedusers.length + acn.namedgroups.length) := by
  unfold aclBlob
  rw [List.length_flatMap, List.map_congr_left fun e _ => length_aclEntry, List.map_const',
    List.sum_replicate_nat, List.length_append, Nat.mul_comm]

/-- **A request on an access list** logs six bytes for every named user and group; the numbers of
both are read from two bytes. -/
theorem fsSetfacl_admitted {s : Master} {ts : UInt32} {rootinode : Nat} {f : SesFlags}
    {q : SetfaclRequest} {r : SetaclRecord} (hr : (s.fsSetfacl ts rootinode f q).2.2 = some r)
    (husers : q.list.namedusers.length < 65536) (hgroups : q.list.namedgroups.length < 65536) :
    (toChange r).Admitted := by
  -- permissions are filled in, the named users and groups are those of the request
  have hlist : r.list.namedusers = q.list.namedusers
      ∧ r.list.namedgroups = q.list.namedgroups := by
    unfold fsSetfacl at hr
    split at hr
    · cases hr
    · split at hr <;> cases hr <;> exact ⟨rfl, rfl⟩
  show (aclBlob r.list).length = _
  rw [length_blob, hlist.1, hlist.2, UInt16.toNat_ofNat_of_lt' husers,
    UInt16.toNat_ofNat_of_lt' hgroups]

/-! ## §4. A list that is cut. -/

/-- An access list with `n` entries that give nothing to user 0. -/
def listForMany (n : Nat) : AclNode :=
  { AclNode.empty with namedusers := List.replicate n (0, 0) }

/-- The record of such a list for the root directory. -/
def recordForMany (n : Nat) : SetaclRecord := ⟨5, rootId, 0, true, 1, listForMany n⟩

/-- Root sets the list in a new file system. -/
def setForMany (n : Nat) : Status × Master × Option SetaclRecord :=
  (fsNew 0 .sclassNew [] false 32767).fsSetfacl 5 rootId ⟨false, false, false, false⟩
    ⟨rootId, 0, 1, listForMany n⟩

theorem setForMany_accepted {n : Nat} :
    (setForMany n).1 = .ok ∧ (setForMany n).2.2 = some (recordForMany n) := by
  have hremoves : (listForMany n).removes = false := by
    have hperm : ((0 : UInt16) &&& 0 &&& 0 &&& 0 == 0xFFFF) = false := by decide
    show (((0 : UInt16) &&& 0 &&& 0 &&& 0 == 0xFFFF) && _ && _) = false
    rw [hperm, Bool.false_and, Bool.false_and]
  have htests : (fsNew 0 .sclassNew [] false 32767).setfaclTests rootId
      ⟨false, false, false, false⟩ ⟨rootId, 0, 1, listForMany n⟩
        = .ok ((rootId, rootNode 0), .access) := by
    have hfind : (fsNew 0 .sclassNew [] false 32767).fsnodesNodeFindExt rootId
      ⟨false, false, false, false⟩ rootId = some (rootId, rootNode 0) := rfl
    simp only [setfaclTests, hfind, hremoves, refuse, require, aclTypeOf]
    rfl
  have hfilled : (listForMany n).filled (rootNode 0).mode = listForMany n := rfl
  -- the permissions of the list replace those of the directory
  have hmode : setfaclMode .access (listForMany n) (rootNode 0) = 0 := by
    show ((0o777 : UInt16) &&& 0o7000) ||| (((0 &&& (7 : UInt16)) <<< (6 : UInt16))
      ||| ((0 &&& (7 : UInt16)) <<< (3 : UInt16)) ||| (0 &&& (7 : UInt16))) = 0
    decide
  unfold setForMany fsSetfacl
  rw [htests]
  simp only [hremoves, hfilled, hmode]
  exact ⟨rfl, rfl⟩

/-- All its bytes are 0 and are escaped. -/
theorem filter_escapes_blob (n : Nat) :
    (aclBlob (listForMany n)).filter escapes = aclBlob (listForMany n) := by
  refine List.filter_eq_self.mpr ?_
  intro c hc
  obtain ⟨e, he, hc⟩ := List.mem_flatMap.mp hc
  have he : e ∈ List.replicate n (0, 0) := by
    rwa [show (listForMany n).namedgroups = [] from rfl, List.append_nil] at he
  rw [List.eq_of_mem_replicate he, show aclEntry (0, 0) = List.replicate 6 0 from by decide] at hc
  rw [List.eq_of_mem_replicate hc]
  rfl

/-- Every entry takes 18 characters. -/
theorem not_fits_many {n : Nat} (hn : maxLogLineSize ≤ 18 * n) {ts : UInt32} :
    ¬ (toChange (recordForMany n)).Fits ts := by
  intro hfits
  have hblob : (aclBlob (listForMany n)).length = 6 * n := by
    rw [length_blob]
    simp [listForMany, AclNode.empty]
  unfold toChange recordForMany ChangeRecord.Fits at hfits
  dsimp only at hfits
  rw [filter_escapes_blob, hblob] at hfits
  omega

/-- **11200 named users are accepted, and their record is cut.** -/
theorem record_cut_many_users :
    (setForMany 11200).1 = .ok ∧ ∃ r, (setForMany 11200).2.2 = some r
      ∧ changelogKeeps ((toChange r).text 5) ≠ (toChange r).text 5 := by
  obtain ⟨hstatus, hrecord⟩ := setForMany_accepted
  refine ⟨hstatus, recordForMany 11200, hrecord, ?_⟩
  rw [Ne, changelogKeeps_eq_iff]
  intro hlt
  have hadmitted : (toChange (recordForMany 11200)).Admitted := by
    refine fsSetfacl_admitted hrecord ?_ (by decide)
    show (List.replicate 11200 (0, 0)).length < 65536
    rw [List.length_replicate]
    decide
  exact not_fits_many (by decide) ((ChangeRecord.length_text_lt_iff 5 _ hadmitted).mp hlt)

end AccessLists

end MfsMaster.Log
