/-
  MfsMaster.Log.AutoRestore
  **WHICH CHANGELOGS ARE USED** (`changelog_findfirstversion` and `changelog_findlastversion`
  in `changelog.c`, the selection in `meta_loadall`).

  Before the merger starts, the first and the last id of each file are looked up, the last one
  by a scan backwards in blocks.  A file whose last id is below the version, or whose first id
  is 0, is left out.  For a file that does not end with a new line the scan answers 0: a torn
  last line costs all the records of its file.  It also gives up after seven blocks, which is
  more than a line the master writes can have.

  Main results:
    * `findlastversion_torn`     — a file with a torn last line has no last id
    * `findlastversion_last`     — else it has the id of its last line, if that is not too long
    * `LogFile.skip_eq_false_iff` — so the files that are used, by what stands in them
    * `Merger.Catching.turn`     — what the merger has read is applied or could not be parsed
    * `restored_complete_iff`    — the versions a successful restore reaches
-/
import MfsMaster.Log.Merge
import MfsMaster.Log.Text

namespace MfsMaster

/-! ## §1. The first and the last id of a file. -/

/-- The digits at the start of a text as a `uint64_t`, and what follows them. -/
def readNumber (n : Nat) : List UInt8 → Nat × List UInt8
  | [] => (n, [])
  | b :: bs =>
    if 48 ≤ b ∧ b ≤ 57 then readNumber ((n * 10 + (b.toNat - 48)) % 2 ^ 64) bs else (n, b :: bs)

/-- The number a line begins with; 0 where no colon follows it. -/
def lineVersion (text : List UInt8) : Nat :=
  match readNumber 0 text with
  | (v, 58 :: _) => v
  | _ => 0

def findfirstversion (file : List UInt8) : Nat := lineVersion (file.take 50)

/-- The search in a block that begins at `size`, from `buffpos` down: the answer, or the place
of the last new line so far. -/
def scanBlock (fsize size : Nat) (buff : List UInt8) : Nat → Nat → Nat ⊕ Nat
  | 0, lastnewline => .inr lastnewline
  | buffpos + 1, lastnewline =>
    if buff[buffpos]? = some 10 ∨ size + buffpos = 0 then
      if lastnewline = 0 then scanBlock fsize size buff buffpos (size + buffpos)
      else if lastnewline + 1 ≠ fsize then .inl 0
      else .inl (lineVersion (buff.drop (if 0 < size + buffpos then buffpos + 1 else buffpos)))
    else scanBlock fsize size buff buffpos lastnewline

/-- Where a scan stands: what is not read yet, the last new line seen, and the first 32 bytes of
the block behind. -/
structure Scan where
  size : Nat
  lastnewline : Nat
  ahead : List UInt8

/-- One block: the answer, or where the scan stands after it. -/
def scanTurn (file : List UInt8) (s : Scan) : Nat ⊕ Scan :=
  if s.size = 0 ∨ s.size + 200000 ≤ file.length then .inl 0
  else
    let start := s.size - 32768
    let buff := (file.drop start).take (s.size - start) ++ s.ahead
    (scanBlock file.length start buff (s.size - start) s.lastnewline).map id
      fun lastnewline => ⟨start, lastnewline, buff.take 32⟩

def scanBlocks (file : List UInt8) : Nat → Scan → Nat
  | 0, _ => 0
  | fuel + 1, s =>
    match scanTurn file s with
    | .inl lv => lv
    | .inr s => scanBlocks file fuel s

-- every turn lowers `size`
def findlastversion (file : List UInt8) : Nat :=
  scanBlocks file (file.length + 1) ⟨file.length, 0, List.replicate 32 0⟩

variable {file : List UInt8}

/-- A new line that is not the last byte. -/
def Inside (file : List UInt8) (lastnewline : Nat) : Prop :=
  lastnewline = 0 ∨ lastnewline + 1 ≠ file.length

theorem scanBlock_torn (hlast : ∀ p, file[p]? = some 10 → p + 1 ≠ file.length) {size len : Nat}
    {buff : List UInt8} (hbuff : ∀ p < len, buff[p]? = file[size + p]?) {pos lastnewline : Nat}
    (hpos : pos ≤ len) (hin : Inside file lastnewline) :
    scanBlock file.length size buff pos lastnewline = .inl 0 ∨
      ∃ p, scanBlock file.length size buff pos lastnewline = .inr p ∧ Inside file p := by
  induction pos generalizing lastnewline with
  | zero => exact .inr ⟨_, rfl, hin⟩
  | succ pos ih =>
    unfold scanBlock
    split
    · next hhit =>
      split
      · refine ih (by omega) (hhit.symm.imp id fun h => hlast _ ?_)
        rw [← hbuff pos hpos, h]
      next hseen =>
      rw [if_pos (hin.resolve_left hseen)]
      exact .inl rfl
    · exact ih (by omega) hin

/-- A block is a piece of the file. -/
theorem getElem?_block {start size : Nat} (hsize : size ≤ file.length) (ahead : List UInt8) :
    ∀ p < size - start, ((file.drop start).take (size - start) ++ ahead)[p]? = file[start + p]? := by
  intro p hp
  rw [List.getElem?_append_left (by rw [List.length_take, List.length_drop]; omega),
    List.getElem?_take_of_lt hp, List.getElem?_drop]

theorem scanTurn_torn (hlast : ∀ p, file[p]? = some 10 → p + 1 ≠ file.length) {s : Scan}
    (hsize : s.size ≤ file.length) (hin : Inside file s.lastnewline) :
    scanTurn file s = .inl 0 ∨
      ∃ s', scanTurn file s = .inr s' ∧ s'.size ≤ file.length ∧ Inside file s'.lastnewline := by
  unfold scanTurn
  dsimp only
  split
  · exact .inl rfl
  have hstart : s.size - 32768 ≤ s.size := Nat.sub_le _ _
  generalize s.size - 32768 = start at hstart
  obtain h | ⟨p, h, hp⟩ := scanBlock_torn hlast (getElem?_block hsize _) le_rfl hin
  · rw [h]
    exact .inl rfl
  · rw [h]
    exact .inr ⟨_, rfl, hstart.trans hsize, hp⟩

theorem scanBlocks_torn (hlast : ∀ p, file[p]? = some 10 → p + 1 ≠ file.length) {fuel : Nat}
    {s : Scan} (hsize : s.size ≤ file.length) (hin : Inside file s.lastnewline) :
    scanBlocks file fuel s = 0 := by
  induction fuel generalizing s with
  | zero => rfl
  | succ fuel ih =>
    unfold scanBlocks
    obtain h | ⟨s', h, hsize', hin'⟩ := scanTurn_torn hlast hsize hin
    · rw [h]
    · rw [h]
      exact ih hsize' hin'

/-- **A file that does not end with a new line has no last id.** -/
theorem findlastversion_torn (h : file.getLast? ≠ some 10) : findlastversion file = 0 := by
  refine scanBlocks_torn (fun p hp hlen => h ?_) le_rfl (.inl rfl)
  rw [List.getLast?_eq_getElem?, ← hp, ← hlen, Nat.add_sub_cancel]

/-- The file ends with a new line, and its last line follows the new line at `nl` or, with
`nl = 0`, is the whole file. -/
structure LastLine (file : List UInt8) (nl : Nat) : Prop where
  ended : file[file.length - 1]? = some 10
  starts : file[nl]? = some 10 ∨ nl = 0
  before : nl + 1 < file.length
  within : ∀ p, nl < p → p + 1 < file.length → file[p]? ≠ some 10

/-- What a block is cut from: the file and the 32 zeros behind it. -/
def padded (file : List UInt8) : List UInt8 := file ++ List.replicate 32 0

/-- The start of the last line, of which at least 32 bytes are in the buffer. -/
def lineAt (file : List UInt8) (nl k : Nat) : List UInt8 :=
  ((padded file).drop (if 0 < nl then nl + 1 else nl)).take k

section LastLine

variable {nl lv : Nat} (h : LastLine file nl)
include h

/-- From the last new line down to the one before the last line. -/
theorem scanBlock_last {size len pos last : Nat} {buff : List UInt8}
    (hbuff : ∀ p < len, buff[p]? = file[size + p]?) (hsize : size < file.length) (hpos : pos ≤ len)
    (hnl : nl < size + pos) (hend : size + pos ≤ file.length)
    (hlast : last = if size + pos = file.length then 0 else file.length - 1)
    (hlv : size ≤ nl →
      lineVersion (buff.drop ((if 0 < nl then nl + 1 else nl) - size)) = lv) :
    scanBlock file.length size buff pos last
      = if size ≤ nl then .inl lv else .inr (file.length - 1) := by
  have hbefore := h.before
  induction pos generalizing last with
  | zero =>
    rw [if_neg (by omega), hlast, if_neg (by omega)]
    rfl
  | succ pos ih =>
    unfold scanBlock
    rw [hbuff pos hpos]
    by_cases hfirst : size + (pos + 1) = file.length
    · -- the last byte of the file
      rw [hlast, if_pos hfirst, if_pos rfl, show size + pos = file.length - 1 by omega,
        if_pos (.inl h.ended)]
      exact ih (by omega) (by omega) (by omega) (if_neg (by omega)).symm
    rw [if_neg hfirst] at hlast
    by_cases hat : size + pos = nl
    · rw [hat, if_pos h.starts, if_neg (by omega), if_neg (by omega),
        if_pos (show size ≤ nl by omega), ← hlv (by omega)]
      congr 3
      split <;> omega
    · rw [if_neg]
      · exact ih (by omega) (by omega) (by omega) (hlast.trans (if_neg (by omega)).symm)
      rintro (hnew | hzero)
      · exact h.within _ (by omega) (by omega) hnew
      · omega

variable (hlv : ∀ k, 32 ≤ k → lineVersion (lineAt file nl k) = lv) {s : Scan}
  (hnew : s.lastnewline = if s.size = file.length then 0 else file.length - 1)
  (hahead : s.ahead = ((padded file).drop s.size).take 32)
include hlv hnew hahead

/-- One block of a scan that has not come to the last line yet. -/
theorem scanTurn_last (hnl : nl < s.size) (hsize : s.size ≤ file.length)
    (hfar : file.length < s.size + 200000) :
    scanTurn file s =
      if s.size - 32768 ≤ nl then .inl lv
      else .inr ⟨s.size - 32768, file.length - 1,
        ((padded file).drop (s.size - 32768)).take 32⟩ := by
  unfold scanTurn
  dsimp only
  rw [if_neg (by omega)]
  have hlt : s.size - 32768 < s.size := by omega
  generalize s.size - 32768 = start at hlt
  have hadd : start + (s.size - start) = s.size := by omega
  have hbuff := @getElem?_block file start s.size hsize s.ahead
  -- the block and the bytes behind it are one piece of the file
  have hpiece : (file.drop start).take (s.size - start) ++ s.ahead
      = ((padded file).drop start).take (s.size - start + 32) := by
    rw [List.take_add, List.drop_drop, hahead, hadd, padded,
      List.drop_append_of_le_length (show start ≤ file.length by omega),
      List.take_append_of_le_length (by rw [List.length_drop]; omega)]
  rw [hpiece] at hbuff ⊢
  have hline : start ≤ nl → lineVersion ((((padded file).drop start).take
      (s.size - start + 32)).drop ((if 0 < nl then nl + 1 else nl) - start)) = lv := by
    intro hle
    rw [List.drop_take, List.drop_drop, Nat.add_sub_cancel' (by split <;> omega)]
    exact hlv _ (by split <;> omega)
  rw [scanBlock_last h hbuff (by omega) le_rfl (by omega) (by omega) (hadd.symm ▸ hnew) hline]
  split
  · rfl
  · rw [Sum.map_inr, List.take_take, Nat.min_eq_left (by omega)]

theorem scanBlocks_last {fuel k : Nat} (hfuel : s.size < fuel) (hnl : nl < s.size)
    (hsize : file.length = s.size + 32768 * k) :
    scanBlocks file fuel s = if file.length ≤ nl + 7 * 32768 then lv else 0 := by
  induction fuel generalizing s k with
  | zero => omega
  | succ fuel ih =>
    unfold scanBlocks
    by_cases hfar : file.length < s.size + 200000
    · rw [scanTurn_last h hlv hnew hahead hnl (by omega) hfar]
      by_cases hle : s.size - 32768 ≤ nl
      · rw [if_pos hle, if_pos (by omega)]
      · rw [if_neg hle]
        dsimp only
        have hneg := Nat.not_le.mp hle
        generalize hstart : s.size - 32768 = start at hneg
        have hfuel' : start < fuel := by omega
        have hsize' : file.length = start + 32768 * (k + 1) := by omega
        have hne : start ≠ file.length := by omega
        exact ih (if_neg hne).symm rfl hfuel' hneg hsize'
    · rw [if_neg (by omega)]
      unfold scanTurn
      rw [if_pos (.inr (by omega))]

omit hnew hahead in
/-- **The last id is found in the last seven blocks.** -/
theorem findlastversion_last :
    findlastversion file = if file.length ≤ nl + 7 * 32768 then lv else 0 := by
  refine scanBlocks_last h hlv (k := 0) (if_pos rfl).symm ?_ (Nat.lt_succ_self _)
    (Nat.lt_of_succ_lt h.before) rfl
  rw [padded, List.drop_left, List.take_of_length_le (by simp)]

end LastLine

/-! ## §2. Files and their selection. -/

/-- A changelog file: complete lines with rising ids, and what a crash left of the next one. -/
structure LogFile where
  lines : List LogLine
  torn : List UInt8
  rising : lines.Pairwise (·.id < ·.id)
  small : ∀ l ∈ lines, l.id + maxidhole < 2 ^ 63
  whole : ∀ l ∈ lines, 10 ∉ l.text
  unended : 10 ∉ torn

def LogLine.bytes (l : LogLine) : List UInt8 :=
  (Log.decimal l.id).map (·.toNat.toUInt8) ++ [58, 32] ++ l.text ++ [10]

theorem digit_byte {c : Char} (hc : c.isDigit = true) :
    48 ≤ c.toNat ∧ c.toNat ≤ 57 ∧ c.toNat.toUInt8.toNat = c.toNat := by
  have h : 48 ≤ c.toNat ∧ c.toNat ≤ 57 := by
    simpa [Char.isDigit, UInt32.le_iff_toNat_le] using hc
  exact ⟨h.1, h.2, Nat.mod_eq_of_lt (by omega)⟩

theorem readNumber_digits (cs : List Char) (hcs : ∀ c ∈ cs, c.isDigit = true) (n : Nat)
    (rest : List UInt8) : readNumber (n % 2 ^ 64) (cs.map (·.toNat.toUInt8) ++ 58 :: rest)
      = (Nat.ofDigitChars 10 cs n % 2 ^ 64, 58 :: rest) := by
  induction cs generalizing n with
  | nil => rfl
  | cons c cs ih =>
    obtain ⟨hlow, hhigh, hbyte⟩ := digit_byte (hcs c List.mem_cons_self)
    have hdigit : 48 ≤ c.toNat.toUInt8 ∧ c.toNat.toUInt8 ≤ 57 := by
      rw [UInt8.le_iff_toNat_le, UInt8.le_iff_toNat_le, hbyte]
      exact ⟨hlow, hhigh⟩
    rw [List.map_cons, List.cons_append, readNumber, if_pos hdigit, hbyte, Nat.ofDigitChars_cons,
      ← ih fun c hc => hcs c (List.mem_cons_of_mem _ hc)]
    congr 1
    show _ = (10 * n + (c.toNat - 48)) % 2 ^ 64
    omega

/-- The number of a line is read from its first bytes. -/
theorem LogLine.lineVersion_take {l : LogLine} (hl : l.id + maxidhole < 2 ^ 63) {k : Nat}
    (hk : 32 ≤ k) (rest : List UInt8) : lineVersion ((l.bytes ++ rest).take k) = l.id := by
  have hdigits : (Log.decimal l.id).length ≤ 19 :=
    Log.length_toDigits_le (by decide) (by decide) (Nat.lt_of_le_of_lt (Nat.le_add_right _ _)
      (Nat.lt_trans hl (by decide)))
  obtain ⟨m, hm⟩ := Nat.exists_eq_add_of_lt (hdigits.trans_lt (by omega : 19 < k))
  have hbytes : l.bytes ++ rest = (Log.decimal l.id).map (·.toNat.toUInt8) ++
      58 :: 32 :: (l.text ++ 10 :: rest) := by simp [bytes]
  rw [hbytes, List.take_append, List.length_map, hm, Nat.add_assoc, Nat.add_sub_cancel_left,
    List.take_succ_cons,
    List.take_of_length_le (by rw [List.length_map]; omega)]
  have h := readNumber_digits (Log.decimal l.id) (fun c hc =>
    Nat.isDigit_of_mem_toDigits (by decide) (by decide) hc) 0
    ((32 :: (l.text ++ 10 :: rest)).take m)
  rw [show (0 : Nat) % 2 ^ 64 = 0 from rfl, Log.decimal,
    Nat.ofDigitChars_toDigits (by decide) (by decide), Nat.mod_eq_of_lt (by omega)] at h
  rw [lineVersion, Log.decimal, h]
  rfl

theorem lastLine_append {before : List UInt8} {l : LogLine}
    (hbefore : before = [] ∨ before.getLast? = some 10) (hl : 10 ∉ l.text) :
    LastLine (before ++ l.bytes) (before.length - 1) := by
  obtain ⟨body, hbody, hbytes, hpos⟩ :
      ∃ body, 10 ∉ body ∧ l.bytes = body ++ [10] ∧ 0 < body.length := by
    refine ⟨_, ?_, rfl, by simp⟩
    simp only [List.mem_append, List.mem_map, not_or, not_exists, not_and]
    refine ⟨⟨fun c hc heq => ?_, by decide⟩, hl⟩
    obtain ⟨hlow, _, hbyte⟩ :=
      digit_byte (Nat.isDigit_of_mem_toDigits (by decide) (by decide) hc)
    rw [heq] at hbyte
    have hten : 10 = c.toNat := hbyte
    omega
  rw [hbytes]
  refine ⟨?_, ?_, ?_, fun p hp hlt hnew => hbody ?_⟩
  · rw [← List.getLast?_eq_getElem?, ← List.append_assoc, List.getLast?_concat]
  · refine hbefore.symm.imp (fun hlast => ?_) fun hnil => by rw [hnil]; rfl
    rw [List.getLast?_eq_getElem?] at hlast
    rw [List.getElem?_append_left, hlast]
    exact (List.getElem?_eq_some_iff.mp hlast).1
  · simp only [List.length_append, List.length_singleton]
    omega
  · simp only [List.length_append, List.length_singleton] at hlt
    rw [List.getElem?_append_right (by omega), List.getElem?_append_left (by omega)] at hnew
    exact List.mem_of_getElem? hnew

namespace LogFile

def bytes (f : LogFile) : List UInt8 := f.lines.flatMap LogLine.bytes ++ f.torn

/-- The lines `getline` finds: what is left of a torn one is the last. -/
def read (f : LogFile) : List LogLine :=
  f.lines ++ if f.torn = [] then [] else [⟨(readNumber 0 f.torn).1, (readNumber 0 f.torn).2⟩]

/-- `skip` in `meta_loadall`. -/
def skip (metaversion : Nat) (f : LogFile) : Bool :=
  findlastversion f.bytes < metaversion || findfirstversion f.bytes == 0

/-- The ids of the file are found: it ends with a new line, its first id is not 0, and its last
line and the new line before it lie in the last seven blocks of 32768 bytes. -/
structure Readable (f : LogFile) : Prop where
  ended : f.torn = []
  first : ∀ l ∈ f.lines.head?, l.id ≠ 0
  last : ∀ l ∈ f.lines.getLast?, l.bytes.length + min 1 (f.lines.length - 1) ≤ 7 * 32768

theorem skip_of_torn {f : LogFile} {metaversion : Nat} (hv : 0 < metaversion) (h : f.torn ≠ []) :
    f.skip metaversion = true := by
  unfold skip
  rw [findlastversion_torn, decide_eq_true hv, Bool.true_or]
  rw [bytes, List.getLast?_append_of_ne_nil _ h]
  exact fun hlast => f.unended (List.mem_of_getLast? hlast)

variable {f : LogFile} {init : List LogLine} {l : LogLine}

theorem findfirstversion_lines {rest : List LogLine} (h : f.lines = l :: rest) :
    findfirstversion (f.lines.flatMap LogLine.bytes) = l.id := by
  rw [h, List.flatMap_cons, findfirstversion]
  exact LogLine.lineVersion_take (f.small l (h ▸ List.mem_cons_self)) (by decide) _

theorem findlastversion_lines (h : f.lines = init ++ [l]) :
    findlastversion (f.lines.flatMap LogLine.bytes) =
      if l.bytes.length + min 1 init.length ≤ 7 * 32768 then l.id else 0 := by
  have hl : l ∈ f.lines := h ▸ List.mem_append_right _ List.mem_cons_self
  rw [h, List.flatMap_append, List.flatMap_singleton]
  -- the lines before are none, or end with a new line
  have hinit : init.length = 0 ∧ init.flatMap LogLine.bytes = [] ∨
      0 < init.length ∧ (init.flatMap LogLine.bytes).getLast? = some 10 ∧
        1 < (init.flatMap LogLine.bytes).length := by
    rcases List.eq_nil_or_concat' init with rfl | ⟨init, l', rfl⟩
    · exact .inl ⟨rfl, rfl⟩
    · rw [List.flatMap_append, List.flatMap_singleton, LogLine.bytes, ← List.append_assoc,
        List.getLast?_concat]
      refine .inr ⟨?_, rfl, ?_⟩ <;> simp only [List.length_append, List.length_cons] <;> omega
  generalize init.flatMap LogLine.bytes = before at hinit
  have hlast := lastLine_append (l := l) (hinit.imp And.right fun h => h.2.1) (f.whole l hl)
  have hlv : ∀ k, 32 ≤ k →
      lineVersion (lineAt (before ++ l.bytes) (before.length - 1) k) = l.id := by
    intro k hk
    have hdrop : (if 0 < before.length - 1 then before.length - 1 + 1 else before.length - 1)
        = before.length := by
      rcases hinit with ⟨_, rfl⟩ | ⟨_, _, hlen⟩
      · rfl
      · rw [if_pos (by omega)]
        omega
    rw [lineAt, hdrop, padded, List.append_assoc, List.drop_left]
    exact LogLine.lineVersion_take (f.small l hl) hk _
  rw [findlastversion_last hlast hlv, List.length_append]
  congr 1
  rcases hinit with ⟨h0, hnil⟩ | ⟨h0, _, hlen⟩
  · simp [h0, hnil]
  · rw [eq_iff_iff]
    omega

/-- **Which files are left out.** -/
theorem skip_eq_false_iff {metaversion : Nat} (hv : 0 < metaversion) :
    f.skip metaversion = false ↔ f.Readable ∧ ∃ l ∈ f.lines.getLast?, metaversion ≤ l.id := by
  by_cases htorn : f.torn = []
  · unfold skip
    rw [Bool.or_eq_false_iff, decide_eq_false_iff_not, beq_eq_false_iff_ne, bytes, htorn,
      List.append_nil, Nat.not_lt]
    rcases List.eq_nil_or_concat' f.lines with hnil | ⟨init, l, hlines⟩
    · rw [hnil]
      refine ⟨fun h => absurd rfl h.2, ?_⟩
      rintro ⟨_, l, hl, _⟩
      cases hl
    obtain ⟨first, rest, hfirst⟩ : ∃ first rest, f.lines = first :: rest :=
      List.exists_cons_of_ne_nil (by simp [hlines])
    have hlast : f.lines.getLast? = some l := by rw [hlines, List.getLast?_concat]
    have hlen : init.length = f.lines.length - 1 := by simp [hlines]
    rw [findlastversion_lines hlines, findfirstversion_lines hfirst, hlast, hlen]
    constructor
    · rintro ⟨hle, hne⟩
      split at hle
      next hblocks =>
        exact ⟨⟨htorn, by simpa [hfirst] using hne, by simpa [hlast] using hblocks⟩, l, rfl, hle⟩
      · omega
    · rintro ⟨hread, _, ⟨⟩, hle⟩
      rw [if_pos (hread.last l hlast)]
      exact ⟨hle, hread.first first (by rw [hfirst]; rfl)⟩
  · rw [skip_of_torn hv htorn]
    exact ⟨nofun, fun h => absurd h.1.ended htorn⟩

theorem le_last (h : l ∈ f.lines) : ∃ last ∈ f.lines.getLast?, l.id ≤ last.id :=
  ⟨_, List.getLast?_eq_getLast_of_ne_nil (List.ne_nil_of_mem h),
    (f.rising.imp le_of_lt).rel_getLast_of_rel_getLast_getLast h le_rfl⟩

end LogFile

variable {σ : Type} (R : Restorable σ)

/-- The merger on the files that are not left out, after `n` turns. -/
def autoRestore (data : σ) (files : List (Nat × LogFile)) (n : Nat) : Merger σ :=
  (mergerTurn R)^[n] (mergerStart data
    ((files.filter fun f => !f.2.skip (R.version data)).map fun f => (f.1, f.2.read)))

/-! ## §3. One line. -/

/-- Whether a line parses is decided by its text, and a line that is applied raises the version
by one. -/
structure Restorable.Lawful (parses : LogLine → Bool) : Prop where
  parsed : ∀ data l, (R.restoreLine data l).isSome = parses l
  raises : ∀ data l data', R.restoreLine data l = some (data', 0) →
    R.version data' = R.version data + 1

variable {R} {r : Restoring σ} {l : LogLine} {parses : LogLine → Bool} {shfilename : Nat}

/-- What a line did to the version: nothing, because it was below, did not parse or has id 0, or
it was the line of this version. -/
def Caught (parses : LogLine → Bool) (l : LogLine) (version version' : Nat) : Prop :=
  version' = version ∧ (parses l → 0 < l.id → l.id < version) ∨
    version = l.id ∧ version' = l.id + 1 ∧ 0 < l.id ∧ parses l

theorem caught_restoreFile (hR : R.Lawful parses) (hready : r.Ready R l.id)
    (hok : (restoreFile R r shfilename l).2 = 0) :
    (restoreFile R r shfilename l).1.Ready R l.id ∧
      Caught parses l (R.version r.data) (R.version (restoreFile R r shfilename l).1.data) := by
  by_cases h0 : l.id = 0
  · obtain ⟨hnone, hout⟩ := restoreFile_zero hready h0
    rw [hout]
    exact ⟨fun hs => absurd hnone hs, .inl ⟨rfl, fun _ hpos => by omega⟩⟩
  have he := hready.entered h0
  revert hok
  unfold restoreFile
  generalize r.enter R l.id = r' at he
  rw [if_neg (Nat.not_lt.mpr he.lastv_le), he.v]
  split
  · next hbelow =>
    intro _
    have hlt : l.id < R.version r.data := by
      refine hbelow.elim id fun hlast => ?_
      have hs : r'.lastshfn ≠ none := fun hnone => by have := he.first hnone; omega
      exact hlast ▸ (he.later hs).2
    have hdata := congrArg R.version he.data
    exact ⟨fun _ => ⟨he.v.trans hdata.symm, Nat.pos_of_ne_zero h0, he.v ▸ hlt, le_rfl⟩,
      .inl ⟨hdata, fun _ _ => hlt⟩⟩
  split
  · exact nofun
  unfold Restoring.hand
  rw [he.data]
  have hparsed := hR.parsed r.data l
  split
  · next hnone =>
    rw [hnone] at hparsed
    refine fun _ => ⟨fun hs => ?_, .inl ⟨rfl, fun hp => ?_⟩⟩
    · exact ⟨he.v, (he.later hs).1, he.v ▸ (he.later hs).2, he.lastv_le⟩
    · rw [← hparsed] at hp
      cases hp
  · next data status hsome =>
    rw [hsome] at hparsed
    split
    · exact nofun
    next hstatus =>
    have hraise := hR.raises r.data l data (by rw [hsome, Decidable.not_not.mp hstatus])
    split
    · exact nofun
    intro _
    exact ⟨fun _ => ⟨rfl, Nat.pos_of_ne_zero h0, by dsimp only [Restoring.took]; omega,
      le_rfl⟩, .inr ⟨by omega, by dsimp only [Restoring.took]; omega,
        Nat.pos_of_ne_zero h0, hparsed.symm⟩⟩

/-! ## §4. The run. -/

/-- The lines of a file the merger comes to: those before a jump by MAXIDHOLE or more. -/
def readOn (nextid : Nat) : List LogLine → List LogLine
  | [] => []
  | l :: rest =>
    if nextid < l.id ∧ l.id < nextid + maxidhole then l :: readOn l.id rest else []

def reached : List LogLine → List LogLine
  | [] => []
  | l :: rest => l :: readOn l.id rest

theorem mem_of_readOn {ls : List LogLine} {nextid : Nat} (h : l ∈ readOn nextid ls) : l ∈ ls := by
  induction ls generalizing nextid with
  | nil => exact h
  | cons l' rest ih =>
    unfold readOn at h
    split at h
    · exact (List.mem_cons.mp h).elim (· ▸ List.mem_cons_self) fun h => List.mem_cons_of_mem _ (ih h)
    · cases h

theorem mem_of_reached {ls : List LogLine} (h : l ∈ reached ls) : l ∈ ls := by
  cases ls with
  | nil => exact h
  | cons l' rest =>
    exact (List.mem_cons.mp h).elim (· ▸ List.mem_cons_self) fun h =>
      List.mem_cons_of_mem _ (mem_of_readOn h)

theorem readOn_eq {e : HEntry} : readOn e.cur.id e.rest =
    match mergerNextentry e with
    | none => []
    | some e' => reached e'.lines := by
  unfold mergerNextentry
  cases e.rest with
  | nil => rfl
  | cons l rest =>
    show (if e.nextid < l.id ∧ l.id < e.nextid + maxidhole then l :: readOn l.id rest else []) = _
    dsimp only
    split <;> rfl

variable {s : Merger σ} {P : LogLine → Prop} {v : Nat}

/-- The merger will come to the line. -/
def Merger.ComesTo (s : Merger σ) (l : LogLine) : Prop :=
  ∃ e, Heap.Filled s.heapsize s.heap e ∧ l ∈ reached e.lines

theorem Merger.comesTo_iff (hs : Heap.Ordered HEntry.nextid s.heapsize s.heap)
    (hsize : s.heapsize ≠ 0) : s.ComesTo l ↔ l = (s.heap 0).cur ∨ s.moveTop.ComesTo l := by
  obtain ⟨_, hfilled⟩ := Merger.moveTop_spec hs hsize
  constructor
  · rintro ⟨_, ⟨i, hi, rfl⟩, hl⟩
    by_cases h0 : i = 0
    · subst h0
      refine (List.mem_cons.mp hl).imp id fun hl => ?_
      rw [readOn_eq] at hl
      split at hl
      · cases hl
      · next e hnext => exact ⟨e, (hfilled e).mpr (.inr hnext), hl⟩
    · exact .inr ⟨_, (hfilled _).mpr (.inl ⟨i, by omega, hi, rfl⟩), hl⟩
  · rintro (rfl | ⟨e, he, hl⟩)
    · exact ⟨_, ⟨0, by omega, rfl⟩, List.mem_cons_self⟩
    obtain ⟨i, _, hi, rfl⟩ | hnext := (hfilled e).mp he
    · exact ⟨_, ⟨i, hi, rfl⟩, hl⟩
    refine ⟨_, ⟨0, by omega, rfl⟩, List.mem_cons_of_mem _ ?_⟩
    rw [readOn_eq, hnext]
    exact hl

/-- The invariant of a restore that began at version `v` with the lines `P` to come: lines from
the version on are still to come if they parse, and each version passed had its line. -/
structure Merger.Catching (R : Restorable σ) (parses : LogLine → Bool) (P : LogLine → Prop)
    (v : Nat) (s : Merger σ) : Prop where
  ordered : Heap.Ordered HEntry.nextid s.heapsize s.heap
  ready : ∀ e, Heap.Filled s.heapsize s.heap e → s.restoring.Ready R e.nextid
  comes : ∀ l, s.ComesTo l → P l
  waiting : ∀ l, P l → parses l → 0 < l.id → R.version s.restoring.data ≤ l.id → s.ComesTo l
  passed : v ≤ R.version s.restoring.data
  covered : ∀ id, v ≤ id → id < R.version s.restoring.data →
    0 < id ∧ ∃ l, P l ∧ l.id = id ∧ parses l

theorem Merger.Catching.turn (hR : R.Lawful parses) (hs : s.Catching R parses P v)
    (hok : (mergerTurn R s).status = 0) : (mergerTurn R s).Catching R parses P v := by
  revert hok
  unfold mergerTurn
  dsimp only
  split
  · exact fun _ => hs
  next hsize =>
  split
  · next hok =>
    intro _
    obtain ⟨hready, hcaught⟩ := caught_restoreFile hR (hs.ready _ ⟨0, by omega, rfl⟩) hok
    generalize restoreFile R s.restoring (s.heap 0).shfilename (s.heap 0).cur = out at *
    obtain ⟨t, ht⟩ : ∃ t, t = ({ s with restoring := out.1 } : Merger σ) := ⟨_, rfl⟩
    rw [← ht]
    have hordered : Heap.Ordered HEntry.nextid t.heapsize t.heap := ht ▸ hs.ordered
    have hne : t.heapsize ≠ 0 := ht ▸ hsize
    have hcomes : ∀ l, s.ComesTo l ↔ l = (s.heap 0).cur ∨ t.moveTop.ComesTo l := fun l => by
      have h := Merger.comesTo_iff (l := l) hordered hne
      rw [ht] at h ⊢
      exact h
    have hle : ∀ e, Heap.Filled t.moveTop.heapsize t.moveTop.heap e →
        (s.heap 0).nextid ≤ e.nextid := fun e he => by
      have h := Merger.top_le_moveTop hordered hne e he
      rwa [ht] at h
    have hdata : t.moveTop.restoring = out.1 := by rw [(Merger.moveTop_same t).1, ht]
    have hmono : R.version s.restoring.data ≤ R.version out.1.data := by
      unfold Caught at hcaught
      omega
    refine ⟨(Merger.moveTop_spec hordered hne).1, fun e he => ?_,
      fun l hl => hs.comes l ((hcomes l).mpr (.inr hl)), ?_, ?_, ?_⟩
    all_goals rw [hdata]
    · intro hstarted
      obtain ⟨hv, hpos, hlt, hnext⟩ := hready hstarted
      exact ⟨hv, hpos, hlt, hnext.trans (hle e he)⟩
    · intro l hl hp hpos hid
      refine ((hcomes l).mp (hs.waiting l hl hp hpos (hmono.trans hid))).resolve_left ?_
      rintro rfl
      obtain ⟨hsame, hbelow⟩ | ⟨_, hnext, _⟩ := hcaught
      · have := hbelow hp hpos
        omega
      · omega
    · exact hs.passed.trans hmono
    · intro id hv hid
      by_cases hold : id < R.version s.restoring.data
      · exact hs.covered id hv hold
      obtain ⟨hsame, _⟩ | ⟨hver, hnext, hpos, hp⟩ := hcaught
      · omega
      · have heq : (s.heap 0).cur.id = id := by omega
        exact ⟨heq ▸ hpos, _, hs.comes _ ((hcomes _).mpr (.inl rfl)), heq, hp⟩
  · exact fun hok => absurd hok ‹_›

theorem catching_start {data : σ} {files : List (Nat × List LogLine)} :
    (mergerStart data files).Catching R parses (mergerStart data files).ComesTo
      (R.version data) := by
  obtain ⟨hordered, _, hrestoring, _⟩ := mergerStart_spec
  refine ⟨hordered, fun e _ => ?_, fun _ => id, fun _ hl _ _ _ => hl, ?_, fun id hv hid => ?_⟩
  · rw [hrestoring]
    exact fun h => absurd rfl h
  · rw [hrestoring]
  · rw [hrestoring] at hid
    exact absurd hid (Nat.not_lt.mpr hv)

theorem status_of_turn (h : (mergerTurn R s).status = 0) : s.status = 0 := by
  unfold mergerTurn at h
  dsimp only at h
  split at h
  · exact h
  split at h
  · rwa [(Merger.moveTop_same _).2] at h
  · exact absurd h ‹_›

theorem Merger.Catching.run (hR : R.Lawful parses) (hs : s.Catching R parses P v) {n : Nat}
    (hok : ((mergerTurn R)^[n] s).status = 0) : ((mergerTurn R)^[n] s).Catching R parses P v := by
  induction n with
  | zero => exact hs
  | succ n ih =>
    rw [Function.iterate_succ_apply'] at hok ⊢
    exact (ih (status_of_turn hok)).turn hR hok

theorem Merger.Catching.end_iff (hs : s.Catching R parses P v) (hend : s.heapsize = 0) {w : Nat} :
    w ≤ R.version s.restoring.data ↔
      ∀ id, v ≤ id → id < w → 0 < id ∧ ∃ l, P l ∧ l.id = id ∧ parses l := by
  refine ⟨fun h id hv hid => hs.covered id hv (by omega), fun h => ?_⟩
  by_contra hlt
  obtain ⟨hpos, l, hl, hid, hp⟩ := h _ hs.passed (Nat.not_le.mp hlt)
  obtain ⟨_, ⟨i, hi, _⟩, _⟩ := hs.waiting l hl hp (hid ▸ hpos) hid.ge
  omega

/-- **Which records a successful restore applied**: the version reaches `w` exactly when each
record before it stands in a file whose first and last id are found, not behind a jump in that
file, and parses. -/
theorem restored_complete_iff (hR : R.Lawful parses) (files : List (Nat × LogFile)) (data : σ)
    (n : Nat) (hend : (autoRestore R data files n).heapsize = 0)
    (hok : (autoRestore R data files n).status = 0) (w : Nat) :
    w ≤ R.version (autoRestore R data files n).restoring.data ↔
      ∀ id, R.version data ≤ id → id < w → 0 < id ∧
        ∃ f ∈ files, f.2.Readable ∧ ∃ l ∈ reached f.2.lines, l.id = id ∧ parses l := by
  refine ((catching_start.run hR hok).end_iff hend).trans ?_
  obtain ⟨_, hfilled, _⟩ := mergerStart_spec
  have hread : ∀ f : LogFile, f.Readable → f.read = f.lines := fun f h => by
    rw [LogFile.read, if_pos h.ended, List.append_nil]
  constructor
  · intro h id hv hid
    have hzero := (h _ le_rfl (hv.trans_lt hid)).1
    obtain ⟨hpos, l, ⟨e, he, hl⟩, hline⟩ := h id hv hid
    obtain ⟨f, hf, heq⟩ := List.mem_map.mp ((hfilled e).mp he)
    obtain ⟨hf, hskip⟩ := List.mem_filter.mp hf
    have hskip : f.2.skip (R.version data) = false := by simpa using hskip
    have hfound := ((LogFile.skip_eq_false_iff hzero).mp hskip).1
    refine ⟨hpos, f, hf, hfound, l, ?_, hline⟩
    rw [← hread f.2 hfound, (Prod.mk.inj heq).2]
    exact hl
  · intro h id hv hid
    have hzero := (h _ le_rfl (hv.trans_lt hid)).1
    obtain ⟨hpos, f, hf, hfound, l, hl, hline⟩ := h id hv hid
    -- the last id is no lower than this one
    have hskip : f.2.skip (R.version data) = false := by
      refine (LogFile.skip_eq_false_iff hzero).mpr ⟨hfound, ?_⟩
      obtain ⟨last, hlast, hle⟩ := f.2.le_last (mem_of_reached hl)
      exact ⟨last, hlast, hv.trans (hline.1.ge.trans hle)⟩
    rw [← hread f.2 hfound] at hl
    refine ⟨hpos, l, ?_, hline⟩
    cases hlines : f.2.read with
    | nil =>
      rw [hlines] at hl
      cases hl
    | cons first rest =>
      rw [hlines] at hl
      refine ⟨⟨f.1, first, rest⟩, (hfilled _).mpr ?_, hl⟩
      refine List.mem_map.mpr ⟨f, List.mem_filter.mpr ⟨hf, ?_⟩, by rw [hlines]; rfl⟩
      rw [hskip]
      rfl

/-- Two lines, and the start of a third where the flag is set. -/
def twoLines (torn : Bool) : LogFile where
  lines := [⟨5, [65]⟩, ⟨6, [65]⟩]
  torn := if torn then [55] else []
  rising := by decide
  small := by decide
  whole := by decide
  unended := by cases torn <;> decide

theorem countLines_lawful : countLines.Lawful fun _ => true := ⟨fun _ _ => rfl, by
  rintro data l data' h
  cases h
  rfl⟩

theorem restored_complete_iff_whole :
    7 ≤ (autoRestore countLines 5 [(0, twoLines false)] 2).restoring.data ↔
      ∀ id, 5 ≤ id → id < 7 → 0 < id ∧ ∃ f ∈ [(0, twoLines false)], f.2.Readable ∧
        ∃ l ∈ reached f.2.lines, l.id = id ∧ true :=
  restored_complete_iff countLines_lawful [(0, twoLines false)] 5 2 (by decide) (by decide) 7

/-- Records 5 and 6 are complete, and the restore ends without an error at version 5. -/
theorem torn_file_left_out :
    (twoLines true).lines.map LogLine.id = [5, 6] ∧
      (autoRestore countLines 5 [(0, twoLines true)] 0).heapsize = 0 ∧
      (autoRestore countLines 5 [(0, twoLines true)] 0).status = 0 ∧
      (autoRestore countLines 5 [(0, twoLines true)] 0).restoring.data = 5 := by
  decide

end MfsMaster
