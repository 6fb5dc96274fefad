/-
  MfsMaster.Log.Decode
  **READING THE TEXT OF A CHANGELOG RECORD** (`restore.c`).

  The fields of a record are read by macros.  `GETNAME`, `GETPATH` and `GETDATA` undo what
  `changelog_escape_name` writes, `GETARRAYU32` what `changelog_generate_gids` writes, and
  numbers are read by `strtoul`.  The end of the list stands for the NUL behind the line.

      getLoop_escape           — escaped bytes are read back, up to the separator
      arrayLoop_joined         — groups are read back
      changelog_text_lossless  — all fields, and whole lists of arguments
-/
import MfsMaster.Log.Text
import Mathlib.Data.List.TakeWhile

namespace MfsMaster.Log

/-! ## §1. The macros. -/

/-- A digit after `%`. -/
def hexValue (h : Char) : Option Nat :=
  if '0' ≤ h ∧ h ≤ '9' then some (h.toNat - '0'.toNat)
  else if 'A' ≤ h ∧ h ≤ 'F' then some (h.toNat - ('A'.toNat - 10))
  else none

/-- The characters at which no field goes on. -/
def endsLine (c : Char) : Bool := c == '\x00' || c == '\r' || c == '\n'

/-- The loop of `GETNAME`, `GETPATH` and `GETDATA`: the bytes and the rest of the line from the
cursor on.  `room` is the number of bytes that may still be stored, where there is a limit. -/
def getLoop (c : Char) : Option Nat → List Char → Option (List UInt8 × List Char)
  | room, [] => if room = some 0 then some ([], []) else none
  | room, x :: s =>
    if x = c ∨ room = some 0 then some ([], x :: s)
    else if endsLine x then none
    else if x = '%' then
      match s with
      | h1 :: h2 :: s =>
        match hexValue h1, hexValue h2 with
        | some d1, some d2 =>
          (getLoop c (room.map (· - 1)) s).map fun r => (UInt8.ofNat (d1 * 16 + d2) :: r.1, r.2)
        | _, _ => none
      | _ => none
    else (getLoop c (room.map (· - 1)) s).map fun r => (UInt8.ofNat x.toNat :: r.1, r.2)

/-- The bytes in front of the NUL that ends a string. -/
def cString (r : List UInt8 × List Char) : List UInt8 × List Char := (r.1.takeWhile (· != 0), r.2)

/-- `GETNAME`. -/
def getname (c : Char) (s : List Char) : Option (List UInt8 × List Char) :=
  (getLoop c (some 255) s).map cString

/-- `GETPATH`. -/
def getpath (c : Char) (s : List Char) : Option (List UInt8 × List Char) :=
  (getLoop c none s).map cString

/-- `GETDATA`. -/
def getdata (c : Char) (s : List Char) : Option (List UInt8 × List Char) := getLoop c none s

/-- `strtoul` at a digit. -/
def strtoul (s : List Char) : UInt64 × List Char :=
  (UInt64.ofNat (min (Nat.ofDigitChars 10 (s.takeWhile Char.isDigit) 0) (2 ^ 64 - 1)),
    s.dropWhile Char.isDigit)

/-- The loop of `GETARRAYU32`. -/
def arrayLoop : List Char → Option (List UInt32 × List Char)
  | [] => none
  | x :: s =>
    if x = ']' then some ([], s)
    else if endsLine x then none
    else if x.isDigit then
      (arrayLoop (strtoul (x :: s)).2).map fun p => ((strtoul (x :: s)).1.toUInt32 :: p.1, p.2)
    else if x = ',' then arrayLoop s
    else none
termination_by s => s.length
decreasing_by
  · show ((x :: s).dropWhile Char.isDigit).length < s.length + 1
    rw [List.dropWhile_cons_of_pos ‹_›]
    exact Nat.lt_succ_of_le (List.dropWhile_sublist _).length_le
  · exact Nat.lt_succ_self _

/-- `GETARRAYU32`. -/
def getarrayu32 : List Char → Option (List UInt32 × List Char)
  | '[' :: s => arrayLoop s
  | _ => none

/-! ## §2. Reading back. -/

variable {c : Char} {rest : List Char}

theorem hexValue_hexDigit : ∀ n < 16, hexValue (hexDigit n) = some n := by decide

/-- A byte that is not escaped is none of the characters the macros look at. -/
theorem plain_of_not_escapes (b : UInt8) (hb : escapes b = false) :
    Char.ofNat b.toNat ∉ [',', ')', '%'] ∧ endsLine (Char.ofNat b.toNat) = false
      ∧ UInt8.ofNat (Char.ofNat b.toNat).toNat = b := by
  have hall : ∀ n < 256, escapes (UInt8.ofNat n) = false → Char.ofNat n ∉ [',', ')', '%']
      ∧ endsLine (Char.ofNat n) = false ∧ (Char.ofNat n).toNat = n := by
    decide +kernel
  obtain ⟨hsep, hline, hnat⟩ := hall b.toNat b.toNat_lt (by rwa [UInt8.ofNat_toNat])
  exact ⟨hsep, hline, by rw [hnat, UInt8.ofNat_toNat]⟩

/-- **Escaped bytes are read back**, and the cursor is left on the separator. -/
theorem getLoop_escape (hc : c = ',' ∨ c = ')') (name : List UInt8) (room : Option Nat)
    (hroom : ∀ n, room = some n → name.length ≤ n) :
    getLoop c room (changelogEscapeName name ++ c :: rest) = some (name, c :: rest) := by
  induction name generalizing room with
  | nil =>
    show getLoop c room (c :: rest) = _
    unfold getLoop
    rw [if_pos (.inl rfl)]
  | cons b name ih =>
    have hzero : room ≠ some 0 := fun h => absurd (hroom 0 h) (Nat.not_succ_le_zero _)
    have hnext := ih (room.map (· - 1)) fun n hn => by
      obtain ⟨m, hm, rfl⟩ := Option.map_eq_some_iff.mp hn
      exact Nat.le_sub_one_of_lt (hroom m hm)
    show getLoop c room (escapeByte b ++ changelogEscapeName name ++ c :: rest) = _
    rw [List.append_assoc]
    unfold escapeByte
    cases hb : escapes b with
    | true =>
      have hpercent : '%' ≠ c := by rcases hc with rfl | rfl <;> decide
      have hbyte : UInt8.ofNat (b.toNat / 16 * 16 + b.toNat % 16) = b := by
        rw [Nat.div_add_mod', UInt8.ofNat_toNat]
      show getLoop c room ('%' :: hexDigit (b.toNat / 16) :: hexDigit (b.toNat % 16)
        :: (changelogEscapeName name ++ c :: rest)) = _
      unfold getLoop
      rw [if_neg (not_or.mpr ⟨hpercent, hzero⟩), if_neg (by decide), if_pos rfl]
      dsimp only
      rw [hexValue_hexDigit _ (Nat.div_lt_of_lt_mul b.toNat_lt),
        hexValue_hexDigit _ (Nat.mod_lt _ (by decide))]
      dsimp only
      rw [hnext, hbyte]
      rfl
    | false =>
      obtain ⟨hsep, hline, hbyte⟩ := plain_of_not_escapes b hb
      simp only [List.mem_cons, List.not_mem_nil, or_false, not_or] at hsep
      have hne : Char.ofNat b.toNat ≠ c := by
        rcases hc with rfl | rfl
        · exact hsep.1
        · exact hsep.2.1
      show getLoop c room (Char.ofNat b.toNat :: (changelogEscapeName name ++ c :: rest)) = _
      unfold getLoop
      rw [if_neg (not_or.mpr ⟨hne, hzero⟩), hline, if_neg Bool.false_ne_true, if_neg hsep.2.2,
        hnext, hbyte]
      rfl

/-- The digits of a number end at the next character. -/
theorem digits_decimal {n : Nat} {x : Char} (hx : x.isDigit = false) :
    (decimal n ++ x :: rest).takeWhile Char.isDigit = decimal n
      ∧ (decimal n ++ x :: rest).dropWhile Char.isDigit = x :: rest := by
  have hdigits : ∀ y ∈ decimal n, y.isDigit = true := fun y hy =>
    Nat.isDigit_of_mem_toDigits (by decide) (by decide) hy
  rw [List.takeWhile_append_of_pos hdigits, List.dropWhile_append_of_pos hdigits,
    List.takeWhile_cons_of_neg (by simp [hx]), List.dropWhile_cons_of_neg (by simp [hx])]
  exact ⟨List.append_nil _, rfl⟩

theorem ofDigitChars_decimal (n : Nat) : Nat.ofDigitChars 10 (decimal n) 0 = n :=
  Nat.ofDigitChars_toDigits (by decide) (by decide)

theorem arrayLoop_number (g : UInt32) {x : Char} (hx : x.isDigit = false) :
    arrayLoop (decimal g.toNat ++ x :: rest)
      = (arrayLoop (x :: rest)).map fun p => (g :: p.1, p.2) := by
  obtain ⟨htake, hdrop⟩ := digits_decimal hx
  cases hd : decimal g.toNat with
  | nil => exact absurd hd Nat.toDigits_ne_nil
  | cons d ds =>
    have hdigit : d.isDigit = true := Nat.isDigit_of_mem_toDigits (b := 10) (by decide) (by decide)
      (show d ∈ decimal g.toNat from hd ▸ List.mem_cons_self)
    have hend : d ≠ ']' ∧ endsLine d = false := by
      constructor
      · rintro rfl
        cases hdigit
      rw [← Bool.not_eq_true]
      intro hline
      simp only [endsLine, Bool.or_eq_true, beq_iff_eq] at hline
      rcases hline with (rfl | rfl) | rfl <;> cases hdigit
    have hmin : min g.toNat (2 ^ 64 - 1) = g.toNat :=
      Nat.min_eq_left (Nat.le_of_lt (Nat.lt_trans g.toNat_lt (by decide)))
    rw [hd, List.cons_append] at htake hdrop
    rw [List.cons_append, arrayLoop, if_neg hend.1, hend.2, if_neg Bool.false_ne_true,
      if_pos hdigit]
    unfold strtoul
    rw [htake, hdrop, ← hd, ofDigitChars_decimal, hmin]
    simp

/-- **Groups are read back.** -/
theorem arrayLoop_joined (g : UInt32) (gid : List UInt32) :
    arrayLoop (joined ',' ((g :: gid).map fun g => decimal g.toNat) ++ ']' :: rest)
      = some (g :: gid, rest) := by
  induction gid generalizing g with
  | nil =>
    show arrayLoop (decimal g.toNat ++ ']' :: rest) = _
    rw [arrayLoop_number g (by decide), arrayLoop, if_pos rfl]
    rfl
  | cons g' gid ih =>
    have hsplit : joined ',' ((g :: g' :: gid).map fun g => decimal g.toNat) ++ ']' :: rest
        = decimal g.toNat
          ++ ',' :: (joined ',' ((g' :: gid).map fun g => decimal g.toNat) ++ ']' :: rest) := by
      simp [joined]
    rw [hsplit, arrayLoop_number g (by decide), arrayLoop, if_neg (by decide), if_neg (by decide),
      if_neg (by decide), if_pos rfl, ih]
    rfl

/-! ## §3. Whole records. -/

/-- Two fields of one format, which is a number, a character, or read by a macro above. -/
def Field.SameFormat : Field → Field → Prop
  | u8 _, u8 _ => True
  | u16 _, u16 _ => True
  | u32 _, u32 _ => True
  | u64 _, u64 _ => True
  | hash _, hash _ => True
  | octal _, octal _ => True
  | hex16 _, hex16 _ => True
  | hex32 _, hex32 _ => True
  | char _, char _ => True
  | name _, name _ => True
  | gids gid, gids gid' => gid ≠ [] ∧ gid' ≠ []
  | _, _ => False

def isHexDigit (x : Char) : Bool := (hexValue x).isSome

/-- `l` is a run of digits with value `n` in base `b`. -/
def DigitRun (b : Nat) (l : List Char) (n : Nat) : Prop :=
  (∀ x ∈ l, isHexDigit x = true) ∧ l.foldl (fun n x => b * n + (hexValue x).getD 0) 0 = n

section
variable {b m n : Nat} {l l' : List Char}

theorem DigitRun.snoc (h : DigitRun b l n) {x : Char} {d : Nat} (hx : hexValue x = some d) :
    DigitRun b (l ++ [x]) (b * n + d) := by
  refine ⟨List.forall_mem_append.mpr ⟨h.1, List.forall_mem_singleton.mpr ?_⟩, ?_⟩
  · rw [isHexDigit, hx, Option.isSome_some]
  · rw [List.foldl_append, h.2, List.foldl_cons, List.foldl_nil, hx, Option.getD_some]

theorem digitRun_zeros (b k : Nat) : DigitRun b (List.replicate k '0') 0 := by
  induction k with
  | zero => exact ⟨nofun, rfl⟩
  | succ k ih =>
    rw [List.replicate_succ']
    exact ih.snoc (d := 0) rfl

/-- The digits of a number behind zeros. -/
theorem digitRun_toDigits (hb : 1 < b) {f : Char → Char}
    (hf : ∀ d < b, hexValue (f (Nat.digitChar d)) = some d) (k n : Nat) :
    DigitRun b (List.replicate k '0' ++ (Nat.toDigits b n).map f) n := by
  induction n using Nat.strongRecOn with
  | ind n ih =>
    by_cases hn : n < b
    · have hone := (digitRun_zeros b k).snoc (hf n hn)
      rw [Nat.mul_zero, Nat.zero_add] at hone
      rw [Nat.toDigits_of_lt_base hn]
      exact hone
    · have hle := Nat.le_of_not_lt hn
      have hmod := hf _ (Nat.mod_lt n (Nat.lt_trans Nat.zero_lt_one hb))
      have hlast := (ih (n / b) (Nat.div_lt_self (by omega) hb)).snoc hmod
      rw [Nat.div_add_mod] at hlast
      rw [Nat.toDigits_of_base_le hb hle, List.map_append, ← List.append_assoc]
      exact hlast

theorem digitRun_decimal : DigitRun 10 (decimal n) n := by
  have hrun := digitRun_toDigits (b := 10) (f := id) (by decide) (by decide) 0 n
  rw [List.map_id] at hrun
  exact hrun

theorem digitRun_octal (width n : Nat) : DigitRun 8 (padded 8 width n) n :=
  digitRun_toDigits (by decide) (by decide) _ n

theorem digitRun_hex {width : Nat} : DigitRun 16 (padded 16 width n) n :=
  digitRun_toDigits (by decide) (by decide) _ n

/-- A number is known from its text, and where the text ends too. -/
theorem DigitRun.inj (h : DigitRun b l m) (h' : DigitRun b l' n) {s s' : List Char}
    (hc : c = ',' ∨ c = ')') (heq : l ++ c :: s = l' ++ c :: s') : m = n ∧ s = s' := by
  have hsep : ¬ isHexDigit c = true := by rcases hc with rfl | rfl <;> decide
  have htake := congrArg (List.takeWhile isHexDigit) heq
  have hdrop := congrArg (List.dropWhile isHexDigit) heq
  rw [List.takeWhile_append_of_pos h.1, List.takeWhile_append_of_pos h'.1,
    List.takeWhile_cons_of_neg hsep, List.takeWhile_cons_of_neg hsep, List.append_nil,
    List.append_nil] at htake
  rw [List.dropWhile_append_of_pos h.1, List.dropWhile_append_of_pos h'.1,
    List.dropWhile_cons_of_neg hsep, List.dropWhile_cons_of_neg hsep] at hdrop
  refine ⟨?_, (List.cons.inj hdrop).2⟩
  rw [← h.2, ← h'.2, htake]

end

theorem decimal_inj {m n : Nat} {s s' : List Char} (hc : c = ',' ∨ c = ')')
    (h : decimal m ++ c :: s = decimal n ++ c :: s') : m = n ∧ s = s' :=
  digitRun_decimal.inj digitRun_decimal hc h

theorem getarrayu32_gids {gid : List UInt32} (hgid : gid ≠ []) :
    getarrayu32 (changelogGenerateGids gid ++ rest) = some (gid, rest) := by
  cases gid with
  | nil => exact absurd rfl hgid
  | cons g gid =>
    show arrayLoop (joined ',' ((g :: gid).map fun g => decimal g.toNat) ++ [']'] ++ rest) = _
    rw [List.append_assoc]
    exact arrayLoop_joined g gid

/-- A field is known from its text, and where the text ends too. -/
theorem Field.text_inj {f f' : Field} {s s' : List Char} (hf : f.SameFormat f')
    (hc : c = ',' ∨ c = ')') (h : f.text ++ c :: s = f'.text ++ c :: s') : f = f' ∧ s = s' := by
  match f, f', hf with
  | u8 x, u8 y, _ => exact (decimal_inj hc h).imp_left fun h => by rw [UInt8.toNat_inj.mp h]
  | u16 x, u16 y, _ => exact (decimal_inj hc h).imp_left fun h => by rw [UInt16.toNat_inj.mp h]
  | u32 x, u32 y, _ => exact (decimal_inj hc h).imp_left fun h => by rw [UInt32.toNat_inj.mp h]
  | u64 x, u64 y, _ => exact (decimal_inj hc h).imp_left fun h => by rw [UInt64.toNat_inj.mp h]
  | hash x, hash y, _ =>
    have hnum := decimal_inj hc (List.cons.inj h).2
    exact hnum.imp_left fun h => by rw [UInt64.toNat_inj.mp h]
  | octal x, octal y, _ =>
    have hnum := (digitRun_octal 3 _).inj (digitRun_octal 3 _) hc (List.cons.inj h).2
    exact hnum.imp_left fun h => by rw [UInt16.toNat_inj.mp h]
  | hex16 x, hex16 y, _ =>
    have hnum := digitRun_hex.inj digitRun_hex hc (List.cons.inj (List.cons.inj h).2).2
    exact hnum.imp_left fun h => by rw [UInt16.toNat_inj.mp h]
  | hex32 x, hex32 y, _ =>
    have hnum := digitRun_hex.inj digitRun_hex hc (List.cons.inj (List.cons.inj h).2).2
    exact hnum.imp_left fun h => by rw [UInt32.toNat_inj.mp h]
  | char x, char y, _ =>
    obtain ⟨rfl, hrest⟩ := List.cons.inj h
    exact ⟨rfl, (List.cons.inj hrest).2⟩
  | name x, name y, _ =>
    have hget := congrArg (getLoop c none) h
    unfold text at hget
    rw [getLoop_escape hc x none nofun, getLoop_escape hc y none nofun] at hget
    cases hget
    exact ⟨rfl, rfl⟩
  | gids x, gids y, hne =>
    have hget := congrArg getarrayu32 h
    unfold text at hget
    rw [getarrayu32_gids hne.1, getarrayu32_gids hne.2] at hget
    cases hget
    exact ⟨rfl, rfl⟩

theorem args_inj {args args' : List Field} (hargs : List.Forall₂ Field.SameFormat args args')
    {s s' : List Char} (h : joined ',' (args.map Field.text) ++ ')' :: s
      = joined ',' (args'.map Field.text) ++ ')' :: s') : args = args' := by
  induction hargs with
  | nil => rfl
  | @cons f f' args args' hf hargs ih =>
    cases hargs with
    | nil => rw [(Field.text_inj hf (.inr rfl) h).1]
    | cons hg htail =>
      simp only [List.map_cons, joined, List.append_assoc, List.cons_append] at h ih
      obtain ⟨rfl, hrest⟩ := Field.text_inj hf (.inl rfl) h
      rw [ih hrest]

/-- **The text of a record is lossless**, as far as its fields have the formats above: a path
in brackets and the modes, times and expressions of a storage class (`SCSET`) are left out. -/
theorem changelog_text_lossless :
    (∀ (name : List UInt8) (c : Char) (rest : List Char), c = ',' ∨ c = ')' →
      (name.length ≤ 255 → 0 ∉ name →
          getname c (changelogEscapeName name ++ c :: rest) = some (name, c :: rest))
        ∧ (0 ∉ name → getpath c (changelogEscapeName name ++ c :: rest) = some (name, c :: rest))
        ∧ getdata c (changelogEscapeName name ++ c :: rest) = some (name, c :: rest))
      ∧ (∀ (gid : List UInt32) (rest : List Char), gid ≠ [] →
        getarrayu32 (changelogGenerateGids gid ++ rest) = some (gid, rest))
      ∧ ∀ r r' : Shape, r.ts = r'.ts → r.name = r'.name →
        List.Forall₂ Field.SameFormat r.args r'.args → r.text = r'.text → r.args = r'.args := by
  have hstring : ∀ name : List UInt8, 0 ∉ name → ∀ rest : List Char,
      cString (name, rest) = (name, rest) := by
    intro name hname rest
    unfold cString
    rw [List.takeWhile_eq_self_iff.mpr]
    intro b hb
    exact bne_iff_ne.mpr fun h => hname (h ▸ hb)
  refine ⟨fun name c rest hc => ⟨fun hlen hname => ?_, fun hname => ?_,
    getLoop_escape hc name none nofun⟩, fun gid rest => getarrayu32_gids,
    fun r r' hts hname hargs h => ?_⟩
  · unfold getname
    rw [getLoop_escape hc name (some 255) fun n hn => Option.some.inj hn ▸ hlen]
    exact congrArg some (hstring name hname _)
  · unfold getpath
    rw [getLoop_escape hc name none nofun]
    exact congrArg some (hstring name hname _)
  · unfold Shape.text at h
    rw [hts, hname] at h
    simp only [List.append_assoc, List.cons_append] at h
    exact args_inj hargs (List.cons.inj (List.append_cancel_left
      (List.cons.inj (List.append_cancel_left h)).2)).2

end MfsMaster.Log
