/-
  MfsMaster.TimeParser
  **TIME PERIODS AS TEXT** (`timeparser.c`).

  A period is printed as a number of the largest unit that fits into it, with one digit after
  the point, and `~` in front when that is not exact.  The parser reads a number, a decimal
  number with a unit, or numbers with falling units; a string is the list of its characters up
  to the NUL.

      periods_parse_back       — a text without `~` is parsed to the number it was printed for
-/
import Mathlib.Data.Nat.Digits.Lemmas

namespace MfsMaster.TimeParser

/-! ## §1. The parser. -/

/-- `UINT32_MAX`. -/
def uint32Max : Nat := 2 ^ 32 - 1

/-- What the parsers return, with `*ret`; `trap` is a division by zero. -/
inductive Parsed where
  | ok (ret : Nat)
  | unexpectedChar (ret : Char)
  | valueTooBig (ret : Char)
  | trap
  deriving Repr, DecidableEq

/-- `*str`. -/
def cur (str : List Char) : Char := str.headD '\x00'

def skipBlanks (str : List Char) : List Char := str.dropWhile fun c => c == ' ' || c == '\t'

/-- The digits of a number: `cur`, `ndiv` and the rest. -/
def digitsLoop : Nat → Nat → List Char → Nat × Nat × List Char
  | cur, ndiv, [] => (cur, ndiv, [])
  | cur, ndiv, x :: str =>
    if x.isDigit ∧ cur < uint32Max then
      digitsLoop (10 * cur + (x.toNat - '0'.toNat)) (ndiv * 10 % 2 ^ 64) str
    else (cur, ndiv, x :: str)

/-- `mul`, `max` and `cmask` of a unit. -/
structure TimeUnit where
  mul : Nat
  max : Nat
  cmask : UInt8

/-- The letters of the `switch`. -/
def timeUnit (hmode : Bool) (c : Char) : Option TimeUnit :=
  let hour := if hmode then 1 else 3600
  match c with
  | 'w' | 'W' => some ⟨7 * 24 * hour, uint32Max, 0x10⟩
  | 'd' | 'D' => some ⟨24 * hour, 7 * 24 * hour, 0x08⟩
  | 'h' | 'H' => some ⟨hour, 24 * hour, 0x04⟩
  | 'm' | 'M' => if hmode then none else some ⟨60, 3600, 0x02⟩
  | 's' | 'S' => if hmode then none else some ⟨1, 60, 0x01⟩
  | _ => none

/-- The number in front of the unit `c` is taken into `res`. -/
def addTerm (mask : UInt8) (res cur ndiv : Nat) (u : TimeUnit) (c : Char) :
    Except Parsed (UInt8 × Nat) :=
  if mask = 0x80 then
    if ndiv = 0 then .error .trap
    else
      let tenths := cur * u.mul * 10 / ndiv
      .ok (0xC0, res * u.mul + (tenths / 10 + if 5 ≤ tenths % 10 then 1 else 0))
  else if mask = 0 then .ok (u.cmask, cur * u.mul)
  else if mask &&& ((0xC0 : UInt8) ||| (u.cmask <<< 1 - 1)) = 0 then
    if cur * u.mul < u.max then .ok (mask ||| u.cmask, res + cur * u.mul)
    else .error (.valueTooBig c)
  else .error (.unexpectedChar c)

/-- The `switch` behind a number and what follows it.  `error` leaves the loop, also with a
result. -/
def afterNumber (hmode : Bool) (mask : UInt8) (res num ndiv : Nat) :
    List Char → Except Parsed (UInt8 × Nat × List Char)
  | [] => .error (if mask = 0 then .ok num else .unexpectedChar '\x00')
  | c :: str =>
    if c = '.' then
      if mask = 0 then .ok (0x80, num, str) else .error (.unexpectedChar c)
    else
      match timeUnit hmode c with
      | none => .error (.unexpectedChar c)
      | some u =>
        match addTerm mask res num ndiv u c with
        | .error e => .error e
        | .ok (mask, res) =>
          if uint32Max < res then .error (.valueTooBig '\x00')
          else if cur (skipBlanks str) ∈ ['\x00', '\r', '\n'] then .error (.ok res)
          else .ok (mask, res, skipBlanks str)

/-- One turn of the loop of `parse_period_common`. -/
def parseStep (hmode : Bool) (mask : UInt8) (res : Nat) (str : List Char) :
    Except Parsed (UInt8 × Nat × List Char) :=
  if (cur str).isDigit ∧ mask &&& 0xC0 ≠ 0xC0 then
    let num := digitsLoop 0 1 str
    if uint32Max < num.1 then .error (.valueTooBig '\x00')
    else afterNumber hmode mask res num.1 num.2.1 (skipBlanks num.2.2)
  else .error (.unexpectedChar (cur str))

/-- At most `turns` turns of the loop; every one of them takes a digit. -/
def parseLoop (hmode : Bool) : Nat → UInt8 → Nat → List Char → Option Parsed
  | 0, _, _, _ => none
  | turns + 1, mask, res, str =>
    match parseStep hmode mask res str with
    | .error r => some r
    | .ok (mask, res, str) => parseLoop hmode turns mask res str

/-- `parse_period_common`. -/
def parsePeriodCommon (hmode : Bool) (str : List Char) : Option Parsed :=
  parseLoop hmode (str.length + 1) 0 0 (skipBlanks str)

/-- `parse_speriod`. -/
def parseSperiod (str : List Char) : Option Parsed := parsePeriodCommon false str

/-- `parse_hperiod`. -/
def parseHperiod (str : List Char) : Option Parsed := parsePeriodCommon true str

/-! ## §2. The printed text. -/

/-- `snprint_time_common`, without the limit `mleng`; `units` is `timetab` with `timesym`. -/
def snprintTimeCommon (period : Nat) (units : List (Nat × Char)) : List Char :=
  if period = 0 then '0' :: (units.getLast?.map Prod.snd).toList
  else
    match units.find? fun u => u.1 ≤ period with
    | none => []
    | some (timebase, sym) =>
      let p10 := period * 10
      let n := if 1 < timebase then (p10 + timebase / 2) / timebase else p10
      (if n * timebase = p10 then [] else ['~']) ++ Nat.toDigits 10 (n / 10)
        ++ (if n % 10 = 0 then [] else '.' :: Nat.toDigits 10 (n % 10)) ++ [sym]

/-- `snprint_speriod`. -/
def snprintSperiod (period : UInt32) : List Char :=
  snprintTimeCommon period.toNat [(604800, 'w'), (86400, 'd'), (3600, 'h'), (60, 'm'), (1, 's')]

/-- `snprint_hperiod`. -/
def snprintHperiod (period : UInt32) : List Char :=
  snprintTimeCommon period.toNat [(168, 'w'), (24, 'd'), (1, 'h')]

/-! ## §3. Printed periods parse back. -/

variable {hmode : Bool} {c : Char} {rest : List Char} {u : TimeUnit}

/-- A number that fits is read whole; `ndiv` is a power of ten. -/
theorem digitsLoop_append (hc : c.isDigit = false) (rest digits : List Char) (cur ndiv : Nat)
    (hdigits : ∀ d ∈ digits, d.isDigit = true)
    (hfits : Nat.ofDigitChars 10 digits cur ≤ uint32Max) :
    digitsLoop cur ndiv (digits ++ c :: rest) = (Nat.ofDigitChars 10 digits cur,
      digits.foldl (fun n _ => n * 10 % 2 ^ 64) ndiv, c :: rest) := by
  induction digits generalizing cur ndiv with
  | nil =>
    show digitsLoop cur ndiv (c :: rest) = _
    unfold digitsLoop
    rw [if_neg (by simp [hc])]
    rfl
  | cons d digits ih =>
    obtain ⟨hd, hdigits⟩ := List.forall_mem_cons.mp hdigits
    rw [Nat.ofDigitChars_cons] at hfits
    have hcur : cur < uint32Max := by
      have hvalue := hfits
      rw [Nat.ofDigitChars_eq_ofDigitChars_zero] at hvalue
      have hpow := Nat.le_mul_of_pos_left (10 * cur + (d.toNat - '0'.toNat))
        (Nat.pow_pos (n := digits.length) (show 0 < 10 by decide))
      unfold uint32Max at *
      omega
    rw [List.cons_append, digitsLoop, if_pos ⟨hd, hcur⟩, ih _ _ hdigits hfits]
    rfl

/-- A printed number begins with a digit. -/
theorem toDigits_head (n : Nat) : ∃ d ds, Nat.toDigits 10 n = d :: ds ∧ d.isDigit = true := by
  obtain ⟨d, ds, h⟩ := List.exists_cons_of_ne_nil (Nat.toDigits_ne_nil (n := n) (b := 10))
  have hd : d ∈ Nat.toDigits 10 n := h ▸ List.mem_cons_self
  exact ⟨d, ds, h, Nat.isDigit_of_mem_toDigits (by decide) (by decide) hd⟩

/-- A turn that begins with a printed number. -/
theorem parseStep_number {mask : UInt8} {res n : Nat} (hmask : mask &&& 0xC0 ≠ 0xC0)
    (hn : n ≤ uint32Max) (hc : c.isDigit = false) (hblank : c ≠ ' ' ∧ c ≠ '\t') :
    parseStep hmode mask res (Nat.toDigits 10 n ++ c :: rest)
      = afterNumber hmode mask res n
        ((Nat.toDigits 10 n).foldl (fun n _ => n * 10 % 2 ^ 64) 1) (c :: rest) := by
  have hdigits : ∀ d ∈ Nat.toDigits 10 n, d.isDigit = true := fun d hd =>
    Nat.isDigit_of_mem_toDigits (by decide) (by decide) hd
  have hvalue : Nat.ofDigitChars 10 (Nat.toDigits 10 n) 0 = n :=
    Nat.ofDigitChars_toDigits (by decide) (by decide)
  have hnum := fun rest => digitsLoop_append hc rest _ 0 1 hdigits (hvalue.symm ▸ hn)
  have hhead : (cur (Nat.toDigits 10 n ++ c :: rest)).isDigit = true := by
    obtain ⟨d, ds, h, hd⟩ := toDigits_head n
    rw [h]
    exact hd
  unfold parseStep
  rw [if_pos ⟨hhead, hmask⟩, hnum, hvalue]
  dsimp only
  rw [if_neg (Nat.not_lt.mpr hn)]
  unfold skipBlanks
  rw [List.dropWhile_cons_of_neg (by simp [hblank])]

theorem timeUnit_letter (hu : timeUnit hmode c = some u) :
    c.isDigit = false ∧ (c ≠ ' ' ∧ c ≠ '\t') ∧ c ≠ '.' := by
  have hmem : c ∈ ['w', 'W', 'd', 'D', 'h', 'H', 'm', 'M', 's', 'S'] := by
    by_contra hno
    unfold timeUnit at hu
    split at hu <;> simp_all
  have hall : ∀ c ∈ ['w', 'W', 'd', 'D', 'h', 'H', 'm', 'M', 's', 'S'],
      c.isDigit = false ∧ (c ≠ ' ' ∧ c ≠ '\t') ∧ c ≠ '.' := by simp
  exact hall c hmem

/-- The unit at the end of a text. -/
theorem afterNumber_last {mask mask' : UInt8} {res res' num ndiv : Nat}
    (hu : timeUnit hmode c = some u) (hdot : c ≠ '.')
    (hterm : addTerm mask res num ndiv u c = .ok (mask', res')) (hfits : res' ≤ uint32Max) :
    afterNumber hmode mask res num ndiv [c] = .error (.ok res') := by
  rw [afterNumber, if_neg hdot, hu]
  dsimp only
  rw [hterm]
  dsimp only
  rw [if_neg (Nat.not_lt.mpr hfits), if_pos (by decide)]

theorem skipBlanks_toDigits (n : Nat) (str : List Char) :
    skipBlanks (Nat.toDigits 10 n ++ str) = Nat.toDigits 10 n ++ str := by
  obtain ⟨d, ds, h, hd⟩ := toDigits_head n
  rw [h]
  refine List.dropWhile_cons_of_neg fun hblank => ?_
  rw [Bool.or_eq_true, beq_iff_eq, beq_iff_eq] at hblank
  rcases hblank with rfl | rfl <;> cases hd

/-- A number of tenths of a unit, printed and parsed. -/
theorem parse_tenths (hu : timeUnit hmode c = some u) (hmul : 0 < u.mul) {n period : Nat}
    (hexact : n * u.mul = period * 10) (hfits : period ≤ uint32Max) :
    parsePeriodCommon hmode (Nat.toDigits 10 (n / 10)
        ++ (if n % 10 = 0 then [] else '.' :: Nat.toDigits 10 (n % 10)) ++ [c])
      = some (.ok period) := by
  obtain ⟨hdigit, hblank, hdot⟩ := timeUnit_letter hu
  have hparts : n / 10 * u.mul * 10 + n % 10 * u.mul = period * 10 := by
    rw [← hexact]
    conv_rhs => rw [← Nat.div_add_mod n 10]
    ring
  have hwhole : n / 10 ≤ uint32Max := by
    have := Nat.le_mul_of_pos_right (n / 10) hmul
    omega
  unfold parsePeriodCommon
  rw [List.append_assoc, skipBlanks_toDigits]
  by_cases hzero : n % 10 = 0
  · rw [hzero, Nat.zero_mul, Nat.add_zero] at hparts
    have hterm : ∀ ndiv, addTerm 0 0 (n / 10) ndiv u c = .ok (u.cmask, period) := fun ndiv => by
      unfold addTerm
      rw [if_neg (by decide), if_pos rfl, Nat.mul_right_cancel (by decide) hparts]
    rw [if_pos hzero, List.nil_append, parseLoop,
      parseStep_number (by decide) hwhole hdigit hblank, afterNumber_last hu hdot (hterm _) hfits]
  · have hdec : Nat.toDigits 10 (n % 10) = [Nat.digitChar (n % 10)] :=
      Nat.toDigits_of_lt_base (Nat.mod_lt n (by decide))
    have hterm : addTerm 0x80 (n / 10) (n % 10) 10 u c = .ok (0xC0, period) := by
      have htenths : n % 10 * u.mul * 10 / 10 = (period - n / 10 * u.mul) * 10 := by omega
      unfold addTerm
      rw [if_pos rfl, if_neg (by decide)]
      dsimp only
      rw [htenths, Nat.mul_div_cancel _ (by decide), Nat.mul_mod_left, if_neg (by decide)]
      congr
      omega
    have hsecond := @parseStep_number hmode c [] 0x80 (n / 10) (n % 10) (by decide)
      (by unfold uint32Max; omega) hdigit hblank
    rw [hdec] at hsecond ⊢
    have hturns : (Nat.toDigits 10 (n / 10) ++ '.' :: ([Nat.digitChar (n % 10)] ++ [c])).length
        = (Nat.toDigits 10 (n / 10)).length + 2 + 1 := by simp
    rw [if_neg hzero, List.cons_append, hturns, parseLoop,
      parseStep_number (by decide) hwhole (by decide) (by decide), afterNumber, if_pos rfl,
      if_pos rfl]
    dsimp only
    rw [parseLoop, hsecond]
    have hlast := afterNumber_last hu hdot hterm hfits
    rw [show List.foldl _ 1 [Nat.digitChar (n % 10)] = 10 from rfl, hlast]

/-- **Printed periods parse back**: for all periods that are printed without `~`. -/
theorem snprint_parses_back (units : List (Nat × Char)) {last : Char}
    (hunits : ∀ p ∈ units, 0 < p.1 ∧ (timeUnit hmode p.2).map TimeUnit.mul = some p.1)
    (hlast : units.getLast? = some (1, last)) {period : Nat} (hfits : period ≤ uint32Max)
    (hhead : (snprintTimeCommon period units).head? ≠ some '~') :
    parsePeriodCommon hmode (snprintTimeCommon period units) = some (.ok period) := by
  have hone : (1, last) ∈ units := List.mem_of_getLast? hlast
  unfold snprintTimeCommon at hhead ⊢
  by_cases hzero : period = 0
  · obtain ⟨u, hu, hmul⟩ := Option.map_eq_some_iff.mp (hunits _ hone).2
    rw [if_pos hzero, hlast]
    exact parse_tenths (n := 0) hu (by omega) (by rw [hzero, Nat.zero_mul]) hfits
  rw [if_neg hzero] at hhead ⊢
  cases hfind : units.find? fun u => u.1 ≤ period with
  | none =>
    have hno := List.find?_eq_none.mp hfind _ hone
    simp at hno
    omega
  | some p =>
    obtain ⟨timebase, sym⟩ := p
    obtain ⟨hpos, hmap⟩ := hunits _ (List.mem_of_find?_eq_some hfind)
    obtain ⟨u, hu, rfl⟩ := Option.map_eq_some_iff.mp hmap
    rw [hfind] at hhead
    dsimp only at hhead ⊢
    generalize (if 1 < u.mul then (period * 10 + u.mul / 2) / u.mul else period * 10) = n
      at hhead ⊢
    by_cases hexact : n * u.mul = period * 10
    · rw [if_pos hexact, List.nil_append]
      exact parse_tenths hu hpos hexact hfits
    · rw [if_neg hexact] at hhead
      exact absurd rfl hhead

/-- **Printed periods parse back.** -/
theorem periods_parse_back :
    (∀ period : UInt32, (snprintSperiod period).head? ≠ some '~' →
        parseSperiod (snprintSperiod period) = some (.ok period.toNat))
      ∧ ∀ period : UInt16, (snprintHperiod period.toUInt32).head? ≠ some '~' →
        parseHperiod (snprintHperiod period.toUInt32) = some (.ok period.toNat) := by
  constructor
  · intro period hhead
    exact snprint_parses_back _ (by decide) rfl (Nat.le_sub_one_of_lt period.toNat_lt) hhead
  · intro period hhead
    have hfits : period.toUInt32.toNat ≤ uint32Max := Nat.le_sub_one_of_lt period.toUInt32.toNat_lt
    exact UInt16.toNat_toUInt32 period ▸ snprint_parses_back _ (by decide) rfl hfits hhead

/-- An hour, and an hour and a half. -/
theorem periods_parse_back_hours :
    snprintSperiod 3600 = ['1', 'h'] ∧ parseSperiod ['1', 'h'] = some (.ok 3600)
      ∧ snprintSperiod 5400 = ['1', '.', '5', 'h']
      ∧ parseSperiod ['1', '.', '5', 'h'] = some (.ok 5400) := by
  have hour : snprintSperiod 3600 = ['1', 'h'] := by decide
  have hourAndHalf : snprintSperiod 5400 = ['1', '.', '5', 'h'] := by decide
  have hback := periods_parse_back.1 3600 (by decide)
  have hback' := periods_parse_back.1 5400 (by decide)
  rw [hour] at hback
  rw [hourAndHalf] at hback'
  exact ⟨hour, hback, hourAndHalf, hback'⟩

end MfsMaster.TimeParser
