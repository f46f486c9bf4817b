import Mathlib.Data.FinEnum
import Mathlib.Data.Nat.Digits.Lemmas

/-!
Decimal text in the prelude: `u64_to_decimal` and `i64_to_decimal` write it into a buffer of 32
bytes, the `parse_*` functions read it from a byte string. Every sum, difference, product, cast and
index is checked.
-/

namespace Gruel.Decimal

inductive Stop
  | panic (message : String)
  | overflow
  | outOfBounds
  deriving DecidableEq, Repr

abbrev Buffer := Vector UInt8 32

def unsigned (bits value : Nat) : Except Stop Nat :=
  if value < 2 ^ bits then .ok value else .error .overflow

def signed (bits : Nat) (value : Int) : Except Stop Int :=
  if -2 ^ (bits - 1) ≤ value ∧ value < 2 ^ (bits - 1) then .ok value else .error .overflow

def minus (left right : Nat) : Except Stop Nat :=
  if right ≤ left then .ok (left - right) else .error .overflow

def read (buf : Buffer) (index : Nat) : Except Stop UInt8 :=
  if inside : index < 32 then .ok buf[index] else .error .outOfBounds

def write (buf : Buffer) (index : Nat) (byte : UInt8) : Except Stop Buffer :=
  if inside : index < 32 then .ok (buf.set index byte) else .error .outOfBounds

def zeroedItoaBuf : Buffer := .replicate 32 0

/-- `while v != 0`: the digits of `v` from index `i` on, the last one first. -/
def writeDigits (v i : Nat) (tmp : Buffer) : Except Stop (Nat × Buffer) :=
  if v = 0 then .ok (i, tmp)
  else do
    let d ← unsigned 8 (v % 10)
    let byte ← unsigned 8 (d + 48)
    let tmp ← write tmp i (.ofNat byte)
    let i ← unsigned 64 (i + 1)
    writeDigits (v / 10) i tmp

/-- `while j < count`: what is read for `j` goes to index `j + offset`. -/
def copyDigits (source : Nat → Except Stop UInt8) (offset count j : Nat) (buf : Buffer) : Except Stop Buffer :=
  if j < count then do
    let byte ← source j
    let index ← unsigned 64 (j + offset)
    let buf ← write buf index byte
    let _ ← unsigned 64 (j + 1)
    copyDigits source offset count (j + 1) buf
  else .ok buf
termination_by count - j

def u64ToDecimal (value : Nat) (buf : Buffer) : Except Stop (Nat × Buffer) :=
  if value = 0 then do
    let buf ← write buf 0 48
    .ok (1, buf)
  else do
    let (n, tmp) ← writeDigits value 0 zeroedItoaBuf
    let reversed := fun j => do
      let last ← minus n 1
      let index ← minus last j
      read tmp index
    let buf ← copyDigits reversed 0 n 0 buf
    .ok (n, buf)

def magnitude (value : Int) : Except Stop Nat := do
  let i64Min ← signed 64 (-9223372036854775807 - 1)
  if value = i64Min then .ok 9223372036854775808
  else do
    let negated ← signed 64 (-value)
    unsigned 64 negated.toNat

def i64ToDecimal (value : Int) (buf : Buffer) : Except Stop (Nat × Buffer) :=
  if 0 ≤ value then do
    let m ← unsigned 64 value.toNat
    u64ToDecimal m buf
  else do
    let buf ← write buf 0 45
    let mag ← magnitude value
    let (digits, tmp) ← u64ToDecimal mag zeroedItoaBuf
    let buf ← copyDigits (read tmp) 1 digits 0 buf
    let written ← unsigned 64 (digits + 1)
    .ok (written, buf)

def parseError : Stop := .panic "parse error"

/-- The loop of `parse_u64_inner` on the bytes from index `i` on. -/
def parseDigits : List UInt8 → Nat → Except Stop Nat
  | [], acc => .ok acc
  | b :: rest, acc =>
    if b < 48 ∨ b > 57 then .error parseError
    else do
      let digitByte ← minus b.toNat 48
      if acc > 1844674407370955161 ∨ (acc = 1844674407370955161 ∧ digitByte > 5) then
        .error parseError
      else do
        let scaled ← unsigned 64 (acc * 10)
        let acc ← unsigned 64 (scaled + digitByte)
        parseDigits rest acc

def parseU64 (bytes : List UInt8) : Except Stop Nat :=
  if bytes.length = 0 then .error parseError else parseDigits bytes 0

def parseI64 : List UInt8 → Except Stop Int
  | [] => .error parseError
  | first :: rest => do
    let negative := first = 45
    let start := if negative then 1 else 0
    if start ≥ (first :: rest).length then .error parseError
    else do
      let mag ← parseU64 ((first :: rest).drop start)
      if negative then
        if mag > 9223372036854775808 then .error parseError
        else if mag = 9223372036854775808 then signed 64 (-9223372036854775807 - 1)
        else do
          let v ← signed 64 mag
          signed 64 (-v)
      else if mag > 9223372036854775807 then .error parseError
      else signed 64 mag

def parseI32 (bytes : List UInt8) : Except Stop Int := do
  let v ← parseI64 bytes
  if v < -2147483648 ∨ v > 2147483647 then .error parseError else signed 32 v

def parseU32 (bytes : List UInt8) : Except Stop Nat := do
  let v ← parseU64 bytes
  if v > 4294967295 then .error parseError else unsigned 32 v

/-- `[0-9]+` -/
def Numeral (bytes : List UInt8) : Prop := bytes ≠ [] ∧ ∀ byte ∈ bytes, 48 ≤ byte ∧ byte ≤ 57

instance (bytes : List UInt8) : Decidable (Numeral bytes) := inferInstanceAs (Decidable (_ ∧ _))

def valueFrom (acc : Nat) (bytes : List UInt8) : Nat :=
  bytes.foldl (fun value byte => value * 10 + (byte.toNat - 48)) acc

def plainValue (bytes : List UInt8) : Option Nat :=
  if Numeral bytes then some (valueFrom 0 bytes) else none

/-- The value of a text of the form `-?[0-9]+`. -/
def signedValue : List UInt8 → Option Int
  | [] => none
  | first :: rest =>
    if first = 45 then (plainValue rest).map fun value : Nat => -(value : Int)
    else (plainValue (first :: rest)).map fun value : Nat => (value : Int)

/-- A value of the type is returned; anything else panics. -/
def accepted {α : Type} (fits : α → Prop) [DecidablePred fits] : Option α → Except Stop α
  | some value => if fits value then .ok value else .error (.panic "parse error")
  | none => .error (.panic "parse error")

/-- The numeral of a number that has no leading zero. -/
def Canonical (bytes : List UInt8) (number : Nat) : Prop :=
  plainValue bytes = some number ∧ (bytes.head? = some 48 → bytes = [48])

def CanonicalSigned (bytes : List UInt8) (number : Int) : Prop :=
  if 0 ≤ number then Canonical bytes number.natAbs
  else ∃ digits, bytes = 45 :: digits ∧ Canonical digits number.natAbs

theorem ok_bind {α β : Type} (value : α) (next : α → Except Stop β) : (Except.ok value >>= next) = next value := rfl

theorem unsigned_ok {bits value : Nat} (fits : value < 2 ^ bits) : unsigned bits value = .ok value := if_pos fits

theorem minus_ok {left right : Nat} (fits : right ≤ left) : minus left right = .ok (left - right) := if_pos fits

theorem signed_ok {bits : Nat} {value : Int} (low : -2 ^ (bits - 1) ≤ value)
    (high : value < 2 ^ (bits - 1)) : signed bits value = .ok value := if_pos ⟨low, high⟩

theorem write_take (buf : Buffer) {index : Nat} (inside : index < 32) (byte : UInt8) :
    ∃ after, write buf index byte = .ok after ∧ after.toList.take (index + 1) = buf.toList.take index ++ [byte] := by
  refine ⟨_, dif_pos inside, ?_⟩
  have length : index < (buf.toList.set index byte).length := by simpa using inside
  rw [Vector.toList_set, List.take_succ_eq_append_getElem length, List.getElem_set_self,
    List.take_set_of_le (Nat.le_refl index)]

def digitBytes (number : Nat) : List UInt8 := (Nat.digits 10 number).map fun d => .ofNat (d + 48)

theorem writeDigits_take (v i : Nat) (tmp : Buffer) (room : i + (digitBytes v).length ≤ 32) :
    ∃ after, writeDigits v i tmp = .ok (i + (digitBytes v).length, after) ∧
      after.toList.take (i + (digitBytes v).length) = tmp.toList.take i ++ digitBytes v := by
  induction v using Nat.strongRecOn generalizing i tmp with
  | ind v ih =>
    rw [writeDigits]
    by_cases zero : v = 0
    · subst zero
      exact ⟨tmp, rfl, (List.append_nil _).symm⟩
    · have positive : 0 < v := Nat.pos_of_ne_zero zero
      have split : digitBytes v = .ofNat (v % 10 + 48) :: digitBytes (v / 10) := by
        rw [digitBytes, Nat.digits_def' (by decide) positive, List.map_cons, digitBytes]
      rw [split, List.length_cons] at room ⊢
      obtain ⟨middle, written, start⟩ := write_take tmp (show i < 32 by omega) (.ofNat (v % 10 + 48))
      obtain ⟨after, rest, taken⟩ := ih (v / 10) (by omega) (i + 1) middle (by omega)
      have next : i + 1 + (digitBytes (v / 10)).length = i + ((digitBytes (v / 10)).length + 1) := by
        omega
      rw [next] at rest taken
      refine ⟨after, ?_, ?_⟩
      · rw [if_neg zero, unsigned_ok (by omega), ok_bind, unsigned_ok (by omega), ok_bind, written,
          ok_bind, unsigned_ok (by omega)]
        exact rest
      · rw [taken, start, List.append_assoc]
        rfl

theorem copyDigits_take {source : Nat → Except Stop UInt8} {bytes : List UInt8} {offset : Nat}
    (reads : ∀ j (inside : j < bytes.length), source j = .ok bytes[j])
    (room : bytes.length + offset ≤ 32) (j : Nat) (buf : Buffer) (started : j ≤ bytes.length) :
    ∃ after, copyDigits source offset bytes.length j buf = .ok after ∧
      after.toList.take (bytes.length + offset) = buf.toList.take (j + offset) ++ bytes.drop j := by
  induction left : bytes.length - j generalizing j buf with
  | zero =>
    have atEnd : j = bytes.length := by omega
    subst atEnd
    refine ⟨buf, ?_, ?_⟩
    · rw [copyDigits, if_neg (Nat.lt_irrefl _)]
    · rw [List.drop_length, List.append_nil]
  | succ left ih =>
    have inside : j < bytes.length := by omega
    obtain ⟨middle, written, start⟩ :=
      write_take buf (show j + offset < 32 by omega) bytes[j]
    obtain ⟨after, rest, taken⟩ := ih (j + 1) middle (by omega) (by omega)
    refine ⟨after, ?_, ?_⟩
    · rw [copyDigits, if_pos inside, reads j inside]
      rw [ok_bind, unsigned_ok (by omega), ok_bind, written, ok_bind, unsigned_ok (by omega)]
      exact rest
    · rw [taken, Nat.add_right_comm, start, List.append_assoc, List.singleton_append, List.getElem_cons_drop]

theorem read_of_take {tmp : Buffer} {bytes : List UInt8}
    (taken : tmp.toList.take bytes.length = bytes) (fits : bytes.length ≤ 32) {index : Nat}
    (inside : index < bytes.length) : read tmp index = .ok bytes[index] := by
  rw [read, dif_pos (by omega)]
  have same : bytes[index]? = tmp.toList[index]? := by
    rw [← taken, List.getElem?_take_of_lt (by simpa using inside)]
  rw [List.getElem?_eq_getElem inside, List.getElem?_eq_getElem (by simp; omega)] at same
  rw [Option.some.inj same, Vector.getElem_toList]

/-- What `u64_to_decimal` writes. -/
def numeral (number : Nat) : List UInt8 :=
  if number = 0 then [48] else (digitBytes number).reverse

theorem digitBytes_length {number : Nat} (small : number < 2 ^ 64) : (digitBytes number).length ≤ 20 := by
  rw [digitBytes, List.length_map, Nat.digits_length_le_iff (by decide)]
  exact Nat.lt_trans small (by decide)

theorem numeral_length {number : Nat} (small : number < 2 ^ 64) : (numeral number).length ≤ 20 := by
  unfold numeral
  split
  · decide
  · rw [List.length_reverse]
    exact digitBytes_length small

theorem u64ToDecimal_take {value : Nat} (small : value < 2 ^ 64) (buf : Buffer) :
    ∃ after, u64ToDecimal value buf = .ok ((numeral value).length, after) ∧
      after.toList.take (numeral value).length = numeral value := by
  by_cases zero : value = 0
  · obtain ⟨after, written, taken⟩ := write_take buf (show 0 < 32 by decide) 48
    subst zero
    exact ⟨after, by simp [u64ToDecimal, written]; rfl, taken⟩
  · have short := digitBytes_length small
    have isReversed : numeral value = (digitBytes value).reverse := if_neg zero
    have length : (numeral value).length = (digitBytes value).length := by
      rw [isReversed, List.length_reverse]
    obtain ⟨tmp, digits, start⟩ := writeDigits_take value 0 zeroedItoaBuf (by omega)
    rw [Nat.zero_add, List.take_zero, List.nil_append] at start
    have reads : ∀ j (inside : j < (numeral value).length), (do
          let last ← minus (digitBytes value).length 1
          let index ← minus last j
          read tmp index) = .ok (numeral value)[j] := by
      intro j inside
      rw [minus_ok (by omega), ok_bind, minus_ok (by omega), ok_bind, read_of_take start (by omega) (by omega)]
      simp [isReversed, List.getElem_reverse]
    obtain ⟨after, copied, taken⟩ := @copyDigits_take _ _ 0 reads (by omega) 0 buf (Nat.zero_le _)
    refine ⟨after, ?_, ?_⟩
    · rw [u64ToDecimal, if_neg zero, digits, ok_bind]
      rw [length] at copied ⊢
      simp [copied, ok_bind]
    · simpa using taken

/-- What `i64_to_decimal` writes. -/
def signedNumeral (number : Int) : List UInt8 :=
  if 0 ≤ number then numeral number.natAbs else 45 :: numeral number.natAbs

theorem magnitude_eq {value : Int} (low : -2 ^ 63 ≤ value) (negative : value < 0) :
    magnitude value = .ok value.natAbs := by
  rw [magnitude, signed_ok (by decide) (by decide), ok_bind]
  split
  · exact congrArg Except.ok (by omega)
  · have same : (-value).toNat = value.natAbs := by omega
    rw [signed_ok (by omega) (by omega), ok_bind, same, unsigned_ok (by omega)]

theorem i64ToDecimal_take {value : Int} (low : -2 ^ 63 ≤ value) (high : value < 2 ^ 63) (buf : Buffer) :
    ∃ after, i64ToDecimal value buf = .ok ((signedNumeral value).length, after) ∧
      after.toList.take (signedNumeral value).length = signedNumeral value := by
  have small : value.natAbs < 2 ^ 64 := by omega
  by_cases plain : 0 ≤ value
  · have same : value.toNat = value.natAbs := by omega
    rw [i64ToDecimal, if_pos plain, signedNumeral, if_pos plain, same, unsigned_ok small, ok_bind]
    exact u64ToDecimal_take small buf
  · have short := numeral_length small
    obtain ⟨signed, written, start⟩ := write_take buf (show 0 < 32 by decide) 45
    obtain ⟨tmp, digits, taken⟩ := u64ToDecimal_take small zeroedItoaBuf
    obtain ⟨after, copied, all⟩ := @copyDigits_take (read tmp) (numeral value.natAbs) 1
      (fun j inside => read_of_take taken (by omega) inside) (by omega) 0 signed (Nat.zero_le _)
    rw [i64ToDecimal, if_neg plain, signedNumeral, if_neg plain, written, ok_bind,
      magnitude_eq low (by omega), ok_bind, digits, ok_bind]
    refine ⟨after, ?_, ?_⟩
    · simp only [copied, ok_bind]
      rw [unsigned_ok (by omega), ok_bind, List.length_cons]
    · rw [List.length_cons, all, Nat.zero_add, start]
      rfl

theorem valueFrom_cons (acc : Nat) (byte : UInt8) (rest : List UInt8) :
    valueFrom acc (byte :: rest) = valueFrom (acc * 10 + (byte.toNat - 48)) rest := by
  rw [valueFrom, List.foldl_cons, valueFrom]

theorem valueFrom_concat (acc : Nat) (bytes : List UInt8) (byte : UInt8) :
    valueFrom acc (bytes ++ [byte]) = valueFrom acc bytes * 10 + (byte.toNat - 48) := by
  rw [valueFrom, List.foldl_append, List.foldl_cons, List.foldl_nil, valueFrom]

theorem valueFrom_mono (acc : Nat) (bytes : List UInt8) : acc ≤ valueFrom acc bytes := by
  induction bytes generalizing acc with
  | nil => exact Nat.le_refl acc
  | cons byte rest restMono =>
    have step := restMono (acc * 10 + (byte.toNat - 48))
    rw [valueFrom_cons]
    omega

theorem valueFrom_reverse (digits : List Nat) (small : ∀ d ∈ digits, d < 10) :
    valueFrom 0 (digits.map fun d => UInt8.ofNat (d + 48)).reverse = Nat.ofDigits 10 digits := by
  induction digits with
  | nil => rfl
  | cons d rest restValue =>
    have digit : (UInt8.ofNat (d + 48)).toNat - 48 = d := by
      have bound := small d List.mem_cons_self
      rw [UInt8.toNat_ofNat', Nat.mod_eq_of_lt (by omega), Nat.add_sub_cancel]
    have value := restValue fun d member => small d (List.mem_cons_of_mem _ member)
    rw [List.map_cons, List.reverse_cons, valueFrom_concat, value, digit, Nat.ofDigits_cons]
    exact (Nat.add_comm _ _).trans (congrArg (d + ·) (Nat.mul_comm _ _))

theorem numeral_canonical (number : Nat) : Canonical (numeral number) number := by
  by_cases zero : number = 0
  · subst zero
    exact ⟨by simp [numeral, plainValue, Numeral, valueFrom], fun _ => rfl⟩
  · have isReversed : numeral number = (digitBytes number).reverse := if_neg zero
    have digits : Nat.digits 10 number ≠ [] := Nat.digits_ne_nil_iff_ne_zero.mpr zero
    have isNumeral : Numeral (numeral number) := by
      rw [isReversed]
      refine ⟨by simpa [digitBytes] using digits, fun byte member => ?_⟩
      obtain ⟨d, isDigit, rfl⟩ := List.mem_map.mp (List.mem_reverse.mp member)
      have small : d < 10 := Nat.digits_lt_base (by decide) isDigit
      interval_cases d <;> decide
    refine ⟨?_, fun leading => ?_⟩
    · rw [plainValue, if_pos isNumeral, isReversed, digitBytes,
        valueFrom_reverse _ fun d => Nat.digits_lt_base (by decide), Nat.ofDigits_digits]
    · rw [isReversed, List.head?_reverse, digitBytes, List.getLast?_map,
        List.getLast?_eq_getLast_of_ne_nil digits] at leading
      have small := Nat.digits_lt_base (by decide) (List.getLast_mem digits)
      have nonzero := Nat.getLast_digit_ne_zero 10 zero
      have isZero := Option.some.inj leading
      generalize (Nat.digits 10 number).getLast digits = last at small nonzero isZero
      interval_cases last <;> first | exact absurd rfl nonzero | exact absurd isZero (by decide)

theorem signedNumeral_canonical (number : Int) : CanonicalSigned (signedNumeral number) number := by
  unfold CanonicalSigned signedNumeral
  split
  · exact numeral_canonical _
  · exact ⟨_, rfl, numeral_canonical _⟩

theorem signedValue_plain {bytes : List UInt8} {value : Nat} (plain : plainValue bytes = some value) :
    signedValue bytes = some (value : Int) := by
  have numeral : Numeral bytes := by
    by_contra other
    rw [plainValue, if_neg other] at plain
    cases plain
  cases bytes with
  | nil => exact absurd rfl numeral.1
  | cons first rest =>
    have digit := numeral.2 first List.mem_cons_self
    rw [signedValue, if_neg (by rintro rfl; exact absurd digit.1 (by decide)), plain]
    rfl

theorem CanonicalSigned.value {bytes : List UInt8} {number : Int}
    (canonical : CanonicalSigned bytes number) : signedValue bytes = some number := by
  unfold CanonicalSigned at canonical
  split at canonical
  · rw [signedValue_plain canonical.1]
    exact congrArg some (by omega)
  · obtain ⟨digits, rfl, canonical⟩ := canonical
    rw [signedValue, if_pos rfl, canonical.1, Option.map_some]
    exact congrArg some (by omega)

theorem parseDigits_eq (bytes : List UInt8) (acc : Nat) (small : acc < 2 ^ 64) : parseDigits bytes acc =
      if (∀ byte ∈ bytes, 48 ≤ byte ∧ byte ≤ 57) ∧ valueFrom acc bytes < 2 ^ 64 then
        .ok (valueFrom acc bytes) else .error parseError := by
  induction bytes generalizing acc with
  | nil => rw [if_pos ⟨by simp, small⟩, parseDigits, valueFrom, List.foldl_nil]
  | cons byte rest restEq =>
    rw [parseDigits, valueFrom_cons]
    by_cases digit : 48 ≤ byte ∧ byte ≤ 57
    · have low : 48 ≤ byte.toNat := UInt8.le_iff_toNat_le.mp digit.1
      have high : byte.toNat ≤ 57 := UInt8.le_iff_toNat_le.mp digit.2
      rw [if_neg (by simpa using digit), minus_ok low, ok_bind]
      by_cases fits : acc * 10 + (byte.toNat - 48) < 2 ^ 64
      · rw [if_neg (by omega), unsigned_ok (by omega), ok_bind, unsigned_ok fits, ok_bind]
        simp [restEq _ fits, digit]
      · have larger := valueFrom_mono (acc * 10 + (byte.toNat - 48)) rest
        rw [if_pos (by omega), if_neg fun both => by omega]
    · rw [if_pos (by simpa [imp_iff_not_or] using digit), if_neg fun both => digit ?_]
      exact both.1 byte List.mem_cons_self

theorem parseU64_eq (bytes : List UInt8) : parseU64 bytes = accepted (· < 2 ^ 64) (plainValue bytes) := by
  rw [parseU64, parseDigits_eq bytes 0 (by decide), plainValue]
  by_cases empty : bytes = []
  · subst empty
    rfl
  · rw [if_neg (by simpa using empty)]
    by_cases digits : ∀ byte ∈ bytes, 48 ≤ byte ∧ byte ≤ 57
    · rw [if_pos (show Numeral bytes from ⟨empty, digits⟩), accepted]
      by_cases fits : valueFrom 0 bytes < 2 ^ 64
      · rw [if_pos fits, if_pos ⟨digits, fits⟩]
      · rw [if_neg fits, if_neg fun both => fits both.2]
        rfl
    · rw [if_neg fun both => digits both.1, if_neg fun numeral : Numeral bytes => digits numeral.2]
      rfl

theorem accepted_bind {α β : Type} {fits : α → Prop} {smaller : β → Prop} [DecidablePred fits]
    [DecidablePred smaller] {value : Option α} {next : α → Except Stop β} (read : α → β)
    (within : ∀ value, smaller (read value) → fits value)
    (narrows : ∀ value, fits value → next value =
      if smaller (read value) then .ok (read value) else .error parseError) :
    (accepted fits value >>= next) = accepted smaller (value.map read) := by
  cases value with
  | none => rfl
  | some value =>
    rw [Option.map_some, accepted, accepted]
    by_cases fitting : fits value
    · rw [if_pos fitting, ok_bind, narrows value fitting]
      rfl
    · rw [if_neg fitting, if_neg fun small => fitting (within value small)]
      rfl

theorem parseU32_eq (bytes : List UInt8) : parseU32 bytes = accepted (· < 2 ^ 32) (plainValue bytes) := by
  have narrowed := @accepted_bind _ _ (· < 2 ^ 64) (· < 2 ^ 32) _ _ (plainValue bytes)
    (fun v => if v > 4294967295 then .error parseError else unsigned 32 v) id
    (fun value small => Nat.lt_trans small (by decide)) fun value _ => by
      by_cases fits : value < 2 ^ 32
      · rw [if_neg (by omega), unsigned_ok fits, id, if_pos fits]
      · rw [if_pos (by omega), id, if_neg fits]
  rwa [Option.map_id_fun, id, ← parseU64_eq] at narrowed

theorem parseI64_eq (bytes : List UInt8) :
    parseI64 bytes = accepted (fun value => -2 ^ 63 ≤ value ∧ value < 2 ^ 63) (signedValue bytes) := by
  cases bytes with
  | nil => rfl
  | cons first rest =>
    rw [parseI64, signedValue]
    by_cases isMinus : first = 45
    · simp only [if_pos isMinus, List.drop_one, List.tail_cons, parseU64_eq]
      by_cases empty : rest = []
      · subst empty
        rfl
      · rw [if_neg (by simpa using empty)]
        refine accepted_bind (fun value : Nat => -(value : Int)) (fun value within => by omega) ?_
        intro value _
        by_cases fits : value ≤ 2 ^ 63
        · have inRange : -2 ^ 63 ≤ -(value : Int) ∧ -(value : Int) < 2 ^ 63 := by omega
          rw [if_neg (by omega), if_pos inRange]
          split
          · exact congrArg Except.ok (by omega)
          · rw [signed_ok (by omega) (by omega), ok_bind, signed_ok (by omega) (by omega)]
        · rw [if_pos (by omega), if_neg (by omega)]
    · simp only [if_neg isMinus, List.drop_zero, parseU64_eq]
      refine accepted_bind (fun value : Nat => (value : Int)) (fun value within => by omega) ?_
      intro value _
      by_cases fits : value < 2 ^ 63
      · rw [if_neg (by omega), if_pos (by omega), signed_ok (by omega) (by omega)]
      · rw [if_pos (by omega), if_neg (by omega)]

theorem parseI32_eq (bytes : List UInt8) :
    parseI32 bytes = accepted (fun value => -2 ^ 31 ≤ value ∧ value < 2 ^ 31) (signedValue bytes) := by
  have narrowed := @accepted_bind _ _ (fun v : Int => -2 ^ 63 ≤ v ∧ v < 2 ^ 63)
    (fun v : Int => -2 ^ 31 ≤ v ∧ v < 2 ^ 31) _ _ (signedValue bytes)
    (fun v => if v < -2147483648 ∨ v > 2147483647 then .error parseError else signed 32 v) id
    (fun value small => by simp only [id] at small; omega) fun value _ => by
      by_cases fits : -2 ^ 31 ≤ value ∧ value < 2 ^ 31
      · rw [if_neg (by omega), signed_ok fits.1 fits.2, id, if_pos fits]
      · rw [if_pos (by omega), id, if_neg fits]
  rwa [Option.map_id_fun, id, ← parseI64_eq] at narrowed

/-- Formatting stays in the buffer and writes the canonical numeral, which parses back; parsing
returns the value of every text that has one within the type, and panics on every other. -/
theorem decimal_exact : (∀ (value : UInt64) (buf : Buffer), ∃ count after,
      u64ToDecimal value.toNat buf = .ok (count, after) ∧ count ≤ 32 ∧
      Canonical (after.toList.take count) value.toNat ∧
      parseU64 (after.toList.take count) = .ok value.toNat) ∧
    (∀ (value : Int64) (buf : Buffer), ∃ count after, i64ToDecimal value.toInt buf = .ok (count, after) ∧ count ≤ 32 ∧
      CanonicalSigned (after.toList.take count) value.toInt ∧
      parseI64 (after.toList.take count) = .ok value.toInt) ∧
    ∀ bytes, parseU64 bytes = accepted (· < 2 ^ 64) (plainValue bytes) ∧
      parseU32 bytes = accepted (· < 2 ^ 32) (plainValue bytes) ∧
      parseI64 bytes = accepted (fun value => -2 ^ 63 ≤ value ∧ value < 2 ^ 63) (signedValue bytes) ∧
      parseI32 bytes = accepted (fun value => -2 ^ 31 ≤ value ∧ value < 2 ^ 31) (signedValue bytes) := by
  refine ⟨fun value buf => ?_, fun value buf => ?_, fun bytes =>
    ⟨parseU64_eq bytes, parseU32_eq bytes, parseI64_eq bytes, parseI32_eq bytes⟩⟩
  · have small := value.toNat_lt
    have short := numeral_length small
    have canonical := numeral_canonical value.toNat
    obtain ⟨after, written, taken⟩ := u64ToDecimal_take small buf
    refine ⟨_, after, written, by omega, ?_⟩
    rw [taken, parseU64_eq, canonical.1]
    exact ⟨canonical, if_pos small⟩
  · have low := value.le_toInt
    have high := value.toInt_lt
    have short := numeral_length (show value.toInt.natAbs < 2 ^ 64 by omega)
    have canonical := signedNumeral_canonical value.toInt
    obtain ⟨after, written, taken⟩ := i64ToDecimal_take low high buf
    refine ⟨_, after, written, ?_, ?_⟩
    · unfold signedNumeral
      split
      · omega
      · rw [List.length_cons]
        omega
    · rw [taken, parseI64_eq, canonical.value]
      exact ⟨canonical, if_pos ⟨low, high⟩⟩

end Gruel.Decimal
