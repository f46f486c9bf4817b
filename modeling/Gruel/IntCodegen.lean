import Gruel.IntCodegenCore

/-!
For which operands the emitted integer code computes the language's result.
-/

namespace Gruel

namespace IntCodegen

open LlvmInts
open Arith (bits isSignedType read encode fits wrap Val)

attribute [local simp] translateBin languageBin runBin BinDefined

variable {ty : Ty}

theorem encode_read (ty : Ty) (pattern : BitVec (bits ty)) : encode ty (read ty pattern) = pattern := by
  unfold encode Arith.read
  split
  · exact BitVec.ofInt_toInt
  · rw [BitVec.ofInt_natCast, BitVec.ofNat_toNat, BitVec.setWidth_eq]

theorem encode_toNat (ty : Ty) (pattern : BitVec (bits ty)) : encode ty pattern.toNat = pattern := by
  rw [encode, BitVec.ofInt_natCast, BitVec.ofNat_toNat, BitVec.setWidth_eq]

theorem read_eq_wrap_iff {pattern : BitVec (bits ty)} {value : Int} :
    read ty pattern = wrap ty value ↔ pattern = encode ty value := by
  constructor
  · intro same
    rw [← encode_read ty pattern, same, wrap, encode_read]
  · rintro rfl
    rfl

theorem read_injective {lhs rhs : BitVec (bits ty)} : read ty lhs = read ty rhs ↔ lhs = rhs := by
  constructor
  · intro same
    rw [← encode_read ty lhs, same, encode_read]
  · rintro rfl
    rfl

theorem sign_cases (ty : Ty) : isSignedType ty = true ∧ ty.isSigned = true ∧ signLost ty = false ∨
      isSignedType ty = false ∧ ty.isSigned = true ∧ signLost ty = true ∨
      isSignedType ty = false ∧ ty.isSigned = false ∧ signLost ty = false := by
  cases ty <;> simp [isSignedType, Ty.isSigned, signLost]

theorem read_signed (signed : ty.isSigned = true) (pattern : BitVec (bits ty)) : read ty pattern = pattern.toInt := by
  rw [Arith.read, if_pos signed]

theorem read_unsigned (unsigned : ty.isSigned = false) (pattern : BitVec (bits ty)) :
    read ty pattern = pattern.toNat := by
  rw [Arith.read, unsigned]
  rfl

theorem one_lt_bits (ty : Ty) : 1 < bits ty := by
  have wide := Arith.eight_le_bits ty
  omega

theorem read_eq_zero_iff {pattern : BitVec (bits ty)} : read ty pattern = 0 ↔ pattern = 0 := by
  have zero : read ty (0 : BitVec (bits ty)) = 0 := by
    unfold Arith.read
    split <;> simp
  rw [← zero, read_injective]

section Operators

variable {ty : Ty} (lhs rhs : BitVec (bits ty))

theorem encode_add : encode ty (read ty lhs + read ty rhs) = lhs + rhs := by
  rw [encode, BitVec.ofInt_add]
  exact congrArg₂ (· + ·) (encode_read ty lhs) (encode_read ty rhs)

theorem encode_sub : encode ty (read ty lhs - read ty rhs) = lhs - rhs := by
  rw [encode, Arith.ofInt_sub]
  exact congrArg₂ (· - ·) (encode_read ty lhs) (encode_read ty rhs)

theorem encode_mul : encode ty (read ty lhs * read ty rhs) = lhs * rhs := by
  rw [encode, BitVec.ofInt_mul]
  exact congrArg₂ (· * ·) (encode_read ty lhs) (encode_read ty rhs)

theorem encode_tdiv_signed (signed : ty.isSigned = true) :
    encode ty ((read ty lhs).tdiv (read ty rhs)) = lhs.sdiv rhs := by
  apply BitVec.eq_of_toInt_eq
  rw [encode, BitVec.toInt_ofInt, BitVec.toInt_sdiv, read_signed signed, read_signed signed]

theorem encode_tdiv_unsigned (unsigned : ty.isSigned = false) :
    encode ty ((read ty lhs).tdiv (read ty rhs)) = lhs / rhs := by
  rw [read_unsigned unsigned, read_unsigned unsigned, ← Int.ofNat_tdiv, ← BitVec.toNat_udiv, encode_toNat]

theorem encode_tmod_signed (signed : ty.isSigned = true) :
    encode ty ((read ty lhs).tmod (read ty rhs)) = lhs.srem rhs := by
  rw [read_signed signed, read_signed signed, ← BitVec.toInt_srem]
  exact BitVec.ofInt_toInt

theorem encode_tmod_unsigned (unsigned : ty.isSigned = false) :
    encode ty ((read ty lhs).tmod (read ty rhs)) = lhs % rhs := by
  rw [read_unsigned unsigned, read_unsigned unsigned, ← Int.ofNat_tmod, ← BitVec.toNat_umod, encode_toNat]

theorem isMin_iff (signed : ty.isSigned = true) :
    lhs = BitVec.intMin (bits ty) ↔ read ty lhs = -2 ^ (bits ty - 1) := by
  rw [read_signed signed, ← BitVec.toInt_intMin_of_pos (Arith.bits_pos ty), BitVec.toInt_inj]

theorem isNegOne_iff (signed : ty.isSigned = true) : rhs = -1 ↔ read ty rhs = -1 := by
  have negOne : (-1 : BitVec (bits ty)).toInt = -1 := by
    change (-1#(bits ty)).toInt = -1
    rw [BitVec.neg_one_eq_allOnes, BitVec.toInt_allOnes, if_pos (Arith.bits_pos ty)]
  rw [read_signed signed, ← BitVec.toInt_inj, negOne]

theorem signedOverflow_iff (signed : ty.isSigned = true) : lhs = BitVec.intMin (bits ty) ∧ rhs = -1 ↔
      read ty lhs = -2 ^ (bits ty - 1) ∧ read ty rhs = -1 := by
  rw [isMin_iff lhs signed, isNegOne_iff rhs signed]

theorem buildDivZeroCheck_some {width : Nat} (divisor : BitVec width) :
    buildDivZeroCheck (some divisor) = if divisor = 0 then .panics else .returns () := by
  simp [buildDivZeroCheck, IntPredicate.holds]

theorem runBin_division_iff {op : BinOp} (division : op = .div ∨ op = .mod) :
    runBin op ty lhs rhs = languageBin op ty (read ty lhs) (read ty rhs) ↔
      BinDefined op ty (read ty lhs) (read ty rhs) := by
  rcases division with rfl | rfl
  all_goals
    simp only [runBin, translateBin, buildDivZeroCheck_some, languageBin, BinDefined, read_eq_zero_iff]
    by_cases zero : rhs = 0
    · simp [zero]
    simp only [zero, if_false, Behaviour.returns_bind, false_or, buildDiv, buildRem]
    rcases sign_cases ty with ⟨known, signed, kept⟩ | ⟨unknown, signed, lost⟩ | ⟨unknown, unsigned, kept⟩
    · simp only [known, kept, if_true, sdiv_some, srem_some, zero, false_or,
        signedOverflow_iff lhs rhs signed, true_implies, Bool.false_eq_true, false_implies, and_true]
      split
      · next overflow => simp [overflow]
      · next defined =>
          simp only [Behaviour.returns_bind, Behaviour.pure_eq, Emitted.observe_int, wrap,
            encode_tdiv_signed lhs rhs signed, encode_tmod_signed lhs rhs signed, true_iff]
          exact defined
    · simp only [unknown, lost, Bool.false_eq_true, if_false, udiv_some, urem_some, zero,
        Behaviour.returns_bind, Behaviour.pure_eq, Emitted.observe_int, false_implies,
        true_implies, true_and, Behaviour.returns.injEq, Val.int.injEq, read_eq_wrap_iff,
        encode_tdiv_signed lhs rhs signed, encode_tmod_signed lhs rhs signed]
      first
      | rw [udiv_eq_sdiv_iff (one_lt_bits ty) zero, read_signed signed, read_signed signed]
      | rw [urem_eq_srem_iff (one_lt_bits ty) zero, read_signed signed, read_signed signed]
    · simp only [unknown, kept, Bool.false_eq_true, if_false, udiv_some, urem_some, zero,
        Behaviour.returns_bind, Behaviour.pure_eq, Emitted.observe_int, false_implies, and_true,
        Behaviour.returns.injEq, Val.int.injEq, read_eq_wrap_iff,
        encode_tdiv_unsigned lhs rhs unsigned, encode_tmod_unsigned lhs rhs unsigned]

theorem holds_ordering_iff : ((orderingPredicate .slt .ult ty).holds lhs rhs = decide (read ty lhs < read ty rhs) ↔
      (signLost ty = true → (read ty lhs < 0 ↔ read ty rhs < 0))) ∧
    ((orderingPredicate .sle .ule ty).holds lhs rhs = decide (read ty lhs ≤ read ty rhs) ↔
      (signLost ty = true → (read ty lhs < 0 ↔ read ty rhs < 0))) := by
  rcases sign_cases ty with ⟨known, signed, kept⟩ | ⟨unknown, signed, lost⟩ | ⟨unknown, unsigned, kept⟩
  · simp [orderingPredicate, known, kept, IntPredicate.holds, read_signed signed,
      BitVec.slt_eq_decide, BitVec.sle_eq_decide]
  · simp only [orderingPredicate, unknown, lost, IntPredicate.holds, read_signed signed,
      Bool.false_eq_true, if_false, true_implies, ← BitVec.slt_eq_decide, ← BitVec.sle_eq_decide]
    exact ⟨ult_eq_slt_iff (Arith.bits_pos ty), ule_eq_sle_iff (Arith.bits_pos ty)⟩
  · simp [orderingPredicate, unknown, kept, IntPredicate.holds, read_unsigned unsigned,
      BitVec.ult_eq_decide, BitVec.ule_eq_decide]

theorem holds_swap_lt : (orderingPredicate .sgt .ugt ty).holds lhs rhs =
    (orderingPredicate .slt .ult ty).holds rhs lhs := by
  unfold orderingPredicate
  split <;> rfl

theorem holds_swap_le : (orderingPredicate .sge .uge ty).holds lhs rhs =
    (orderingPredicate .sle .ule ty).holds rhs lhs := by
  unfold orderingPredicate
  split <;> rfl

theorem toNat_lt_bits_iff : rhs.toNat < bits ty ↔ 0 ≤ read ty rhs ∧ read ty rhs < bits ty := by
  rw [← encode_read ty rhs, Arith.toNat_encode_lt_iff (Arith.fits_read rhs), encode_read]

theorem toNat_amount (small : rhs.toNat < bits ty) : (read ty rhs % bits ty).toNat = rhs.toNat := by
  obtain ⟨nonneg, below⟩ := (toNat_lt_bits_iff rhs).mp small
  rw [Int.emod_eq_of_lt nonneg below]
  have pattern := Arith.toNat_encode nonneg (Arith.fits_read rhs)
  rw [encode_read] at pattern
  omega

theorem encode_shl (amount : Nat) : encode ty (read ty lhs * 2 ^ amount) = lhs <<< amount := by
  rw [encode, ← Arith.shiftLeft_ofInt]
  change encode ty (read ty lhs) <<< amount = lhs <<< amount
  rw [encode_read]

theorem encode_shr_signed (signed : ty.isSigned = true) (amount : Nat) :
    encode ty (read ty lhs / 2 ^ amount) = lhs.sshiftRight amount := by
  have quotient : read ty lhs / 2 ^ amount = (lhs.sshiftRight amount).toInt := by
    rw [BitVec.toInt_sshiftRight, Int.shiftRight_eq_div_pow, read_signed signed]
    norm_cast
  rw [quotient]
  exact BitVec.ofInt_toInt

theorem encode_shr_unsigned (unsigned : ty.isSigned = false) (amount : Nat) :
    encode ty (read ty lhs / 2 ^ amount) = lhs >>> amount := by
  have quotient : read ty lhs / 2 ^ amount = (lhs >>> amount).toNat := by
    rw [BitVec.toNat_ushiftRight, Nat.shiftRight_eq_div_pow, read_unsigned unsigned]
    norm_cast
  rw [quotient, encode_toNat]

theorem runBin_shl_iff : runBin .shl ty lhs rhs = languageBin .shl ty (read ty lhs) (read ty rhs) ↔
    BinDefined .shl ty (read ty lhs) (read ty rhs) := by
  simp only [runBin, translateBin, shl_some, languageBin, BinDefined, ← toNat_lt_bits_iff,
    Behaviour.pure_eq, Behaviour.returns_bind]
  by_cases small : rhs.toNat < bits ty
  · simp [small, Emitted.observe_int, toNat_amount rhs small, wrap, encode_shl]
  · simp [small]

theorem runBin_shr_iff : runBin .shr ty lhs rhs = languageBin .shr ty (read ty lhs) (read ty rhs) ↔
    BinDefined .shr ty (read ty lhs) (read ty rhs) := by
  simp only [runBin, translateBin, ashr_some, lshr_some, languageBin, BinDefined, ← and_assoc,
    ← toNat_lt_bits_iff, Behaviour.pure_eq, Behaviour.returns_bind]
  by_cases small : rhs.toNat < bits ty
  · have noAmount : read ty rhs = 0 ↔ rhs.toNat = 0 := by
      rw [read_eq_zero_iff, ← BitVec.toNat_inj]
      rfl
    simp only [small, if_true, true_and, toNat_amount rhs small, noAmount]
    rcases sign_cases ty with ⟨known, signed, kept⟩ | ⟨unknown, signed, lost⟩ | ⟨unknown, unsigned, kept⟩
    · simp [known, kept, wrap, encode_shr_signed lhs signed]
    · simp only [unknown, lost, Bool.false_eq_true, if_false, Emitted.observe_int, true_implies,
        Behaviour.returns.injEq, Val.int.injEq, read_eq_wrap_iff, encode_shr_signed lhs signed]
      rw [ushiftRight_eq_sshiftRight_iff (Arith.bits_pos ty), read_signed signed]
    · simp [unknown, kept, wrap, encode_shr_unsigned lhs unsigned]
  · simp [small]

/-- The emitted operator gives the language's result exactly where it is defined. -/
theorem runBin_iff (op : BinOp) : runBin op ty lhs rhs = languageBin op ty (read ty lhs) (read ty rhs) ↔
      BinDefined op ty (read ty lhs) (read ty rhs) := by
  cases op
  case div => exact runBin_division_iff lhs rhs (.inl rfl)
  case mod => exact runBin_division_iff lhs rhs (.inr rfl)
  case shl => exact runBin_shl_iff lhs rhs
  case shr => exact runBin_shr_iff lhs rhs
  case lt =>
    rw [BinDefined, ← (holds_ordering_iff lhs rhs).1]
    simp
  case gt =>
    rw [BinDefined, iff_comm (a := read ty lhs < 0), ← (holds_ordering_iff rhs lhs).1]
    simp [holds_swap_lt]
  case le =>
    rw [BinDefined, ← (holds_ordering_iff lhs rhs).2]
    simp
  case ge =>
    rw [BinDefined, iff_comm (a := read ty lhs < 0), ← (holds_ordering_iff rhs lhs).2]
    simp [holds_swap_le]
  case add => simp [wrap, encode_add]
  case sub => simp [wrap, encode_sub]
  case mul => simp [wrap, encode_mul]
  case eq =>
    simp [IntPredicate.holds, read_injective, beq_eq_decide]
  case ne =>
    simp [IntPredicate.holds, read_injective, beq_eq_decide]
  all_goals simp [encode_read]

end Operators

theorem pow_bits (ty : Ty) : 2 ^ bits ty = 2 * 2 ^ (bits ty - 1) := two_pow_eq (Arith.bits_pos ty)

theorem fits_signed {ty : Ty} (signed : ty.isSigned = true) (value : Int) :
    fits ty value ↔ -((2 ^ (bits ty - 1) : Nat) : Int) ≤ value ∧ value < (2 ^ (bits ty - 1) : Nat) := by
  rw [fits, if_pos signed]
  exact Iff.rfl

theorem fits_unsigned {ty : Ty} (unsigned : ty.isSigned = false) (value : Int) :
    fits ty value ↔ 0 ≤ value ∧ value < 2 * (2 ^ (bits ty - 1) : Nat) := by
  have power : (2 : Int) ^ bits ty = 2 * (2 ^ (bits ty - 1) : Nat) := by exact_mod_cast pow_bits ty
  rw [fits, unsigned, power]
  exact Iff.rfl

theorem half_le_of_lt {narrow wide : Nat} (positive : 0 < narrow) (less : narrow < wide) :
    2 * 2 ^ (narrow - 1) ≤ 2 ^ (wide - 1) := by
  rw [← two_pow_eq positive]
  exact Nat.pow_le_pow_right (by decide) (by omega)

section Casts

variable {fromTy ty : Ty} (value : BitVec (bits fromTy))
variable {number result : Int} {narrow : Nat}

theorem languageCast_returns_iff : (.returns result : Behaviour Int) = languageCast ty number ↔
      fits ty number ∧ result = number := by
  unfold languageCast
  by_cases inRange : fits ty number <;> simp [inRange]

theorem checked_eq_languageCast_iff {check : Prop} [Decidable check] (same : fits ty number → result = number) :
    (if check then .returns result else .panics : Behaviour Int) = languageCast ty number ↔
      (check ↔ fits ty number) := by
  unfold languageCast
  by_cases passes : check <;> by_cases inRange : fits ty number <;> simp [passes, inRange, same]

theorem read_setWidth (notWider : bits ty ≤ bits fromTy) (inRange : fits ty (read fromTy value)) :
    read ty (value.setWidth (bits ty)) = read fromTy value := by
  have encoded := Arith.setWidth_ofInt notWider (read fromTy value)
  change (encode fromTy (read fromTy value)).setWidth (bits ty) = encode ty (read fromTy value) at encoded
  rw [encode_read] at encoded
  rw [encoded, Arith.read_encode inRange]

theorem signExtend_setWidth_eq_iff (less : narrow < bits fromTy) (positive : 0 < narrow) :
    value = (value.setWidth narrow).signExtend (bits fromTy) ↔
      -((2 ^ (narrow - 1) : Nat) : Int) ≤ value.toInt ∧ value.toInt < (2 ^ (narrow - 1) : Nat) := by
  have truncated : (value.setWidth narrow).toInt = value.toInt.bmod (2 ^ narrow) := by
    rw [← BitVec.signExtend_eq_setWidth_of_le _ (by omega), BitVec.toInt_signExtend, Nat.min_eq_left (by omega)]
  rw [← BitVec.toInt_inj, BitVec.toInt_signExtend_of_le (by omega), truncated]
  constructor
  · intro same
    rw [same, ← truncated]
    exact ⟨BitVec.le_toInt _, BitVec.toInt_lt⟩
  · rintro ⟨_, _⟩
    have double := two_pow_eq positive
    exact (Int.bmod_eq_of_le (by omega) (by omega)).symm

theorem setWidth_setWidth_eq_iff (less : narrow < bits fromTy) :
    value = (value.setWidth narrow).setWidth (bits fromTy) ↔ value.toNat < 2 ^ narrow := by
  rw [← BitVec.toNat_inj, BitVec.toNat_setWidth_of_le (by omega), BitVec.toNat_setWidth]
  constructor
  · intro same
    rw [same]
    exact Nat.mod_lt _ (Nat.two_pow_pos narrow)
  · intro below
    exact (Nat.mod_eq_of_lt below).symm

theorem sext_exact_iff (wider : bits fromTy < bits ty) (fromSigned : fromTy.isSigned = true) :
    fits ty value.toInt ∧ read ty (value.signExtend (bits ty)) = value.toInt ↔
      0 ≤ value.toInt ∨ ty.isSigned = true := by
  have room := half_le_of_lt (Arith.bits_pos fromTy) wider
  have number : (value.signExtend (bits ty)).toInt = value.toInt :=
    BitVec.toInt_signExtend_of_le (Nat.le_of_lt wider)
  have source := halves (Arith.bits_pos fromTy) value
  by_cases signed : ty.isSigned = true
  · simp only [read_signed signed, number, fits_signed signed, signed, or_true, and_true, iff_true]
    omega
  · rw [Bool.not_eq_true] at signed
    have target := halves (Arith.bits_pos ty) (value.signExtend (bits ty))
    simp only [read_unsigned signed, fits_unsigned signed, signed, Bool.false_eq_true, or_false]
    omega

theorem zext_exact_iff (wider : bits fromTy < bits ty) (number : Int)
    (seen : number = value.toNat ∨ number = value.toInt) :
    fits ty number ∧ read ty (value.setWidth (bits ty)) = number ↔ 0 ≤ number := by
  have room := half_le_of_lt (Arith.bits_pos fromTy) wider
  have pattern : (value.setWidth (bits ty)).toNat = value.toNat :=
    BitVec.toNat_setWidth_of_le (Nat.le_of_lt wider)
  have source := halves (Arith.bits_pos fromTy) value
  have target := halves (Arith.bits_pos ty) (value.setWidth (bits ty))
  by_cases signed : ty.isSigned = true
  · rw [read_signed signed, fits_signed signed]
    omega
  · rw [Bool.not_eq_true] at signed
    rw [read_unsigned signed, fits_unsigned signed]
    omega

theorem read_cases (ty : Ty) (pattern : BitVec (bits ty)) :
    read ty pattern = pattern.toNat ∨ read ty pattern = pattern.toInt := by
  unfold Arith.read
  split
  · exact .inr rfl
  · exact .inl rfl

theorem runIntCast_widening_iff (wider : bits fromTy < bits ty) :
    runIntCast fromTy ty value = languageCast ty (read fromTy value) ↔ CastExact fromTy ty (read fromTy value) := by
  simp only [runIntCast, translateIntCast, CastExact, wider, if_true, Behaviour.pure_eq, Behaviour.returns_bind]
  by_cases known : isSignedType fromTy = true
  · have signed := Arith.isSigned_of_isSignedType known
    simp only [known, if_true, sext_some, observeCast, true_and, languageCast_returns_iff, read_signed signed]
    exact sext_exact_iff value wider signed
  · simp only [known, Bool.false_eq_true, if_false, zext_some, observeCast, false_and, or_false,
      languageCast_returns_iff]
    exact zext_exact_iff value wider _ (read_cases fromTy value)

theorem runIntCast_narrowing (narrower : bits ty < bits fromTy) : runIntCast fromTy ty value =
      if value = (if isSignedType ty then (value.setWidth (bits ty)).signExtend (bits fromTy)
        else (value.setWidth (bits ty)).setWidth (bits fromTy))
      then .returns (read ty (value.setWidth (bits ty))) else .panics := by
  have notWider : ¬ bits fromTy < bits ty := by omega
  simp only [runIntCast, translateIntCast, notWider, narrower, if_true, if_false]
  split <;> simp only [trunc_some, sext_some, zext_some, icmp_some, condBranch_ofBool, IntPredicate.holds,
      beq_iff_eq] <;>
    split <;> rfl

theorem runIntCast_narrowing_iff (narrower : bits ty < bits fromTy) :
    runIntCast fromTy ty value = languageCast ty (read fromTy value) ↔ CastExact fromTy ty (read fromTy value) := by
  have room := half_le_of_lt (Arith.bits_pos ty) narrower
  have notWider : ¬ bits fromTy < bits ty := by omega
  have source := halves (Arith.bits_pos fromTy) value
  have powFrom : (2 : Int) ^ bits fromTy = 2 * (2 ^ (bits fromTy - 1) : Nat) := by
    exact_mod_cast pow_bits fromTy
  have powTo : (2 : Int) ^ bits ty = 2 * (2 ^ (bits ty - 1) : Nat) := by
    exact_mod_cast pow_bits ty
  have powHalf : (2 : Int) ^ (bits ty - 1) = (2 ^ (bits ty - 1) : Nat) := by norm_cast
  rw [runIntCast_narrowing value narrower,
    checked_eq_languageCast_iff (read_setWidth value (Nat.le_of_lt narrower)), CastExact,
    if_neg notWider, if_pos narrower, powFrom, powTo, powHalf]
  rcases sign_cases ty with ⟨known, signed, -⟩ | ⟨unknown, signed, -⟩ | ⟨unknown, unsigned, -⟩
  · simp only [known, if_true, signExtend_setWidth_eq_iff value narrower (Arith.bits_pos ty), fits_signed signed]
    by_cases fromSigned : fromTy.isSigned = true
    · simp [read_signed fromSigned, fromSigned]
    · rw [Bool.not_eq_true] at fromSigned
      simp only [read_unsigned fromSigned, fromSigned, Bool.false_eq_true, false_or]
      omega
  · simp only [unknown, signed, Bool.false_eq_true, if_false, if_true,
      setWidth_setWidth_eq_iff value narrower, fits_signed signed, pow_bits ty]
    rcases read_cases fromTy value with number | number <;> rw [number] <;> omega
  · simp only [unknown, unsigned, Bool.false_eq_true, if_false,
      setWidth_setWidth_eq_iff value narrower, fits_unsigned unsigned, pow_bits ty, iff_true]
    rcases read_cases fromTy value with number | number <;> rw [number] <;> omega

theorem toNat_maxSigned (fromTy : Ty) : (BitVec.ofNat (bits fromTy) ((2 ^ 63 - 1) >>> (64 - bits fromTy))).toNat =
      2 ^ (bits fromTy - 1) - 1 := by
  have double := pow_bits fromTy
  have positive := Nat.two_pow_pos (bits fromTy - 1)
  rw [Arith.shiftRight_eq, BitVec.toNat_ofNat]
  exact Nat.mod_eq_of_lt (by omega)

theorem runIntCast_same_signs (sameWidth : bits fromTy = bits ty) (signs : isSignedType fromTy = isSignedType ty) :
    runIntCast fromTy ty value = .returns (read ty (value.setWidth (bits ty))) := by
  simp only [runIntCast, translateIntCast, sameWidth, Nat.lt_irrefl, if_false, signs, if_true]
  rfl

theorem runIntCast_sign_change (sameWidth : bits fromTy = bits ty) (signs : isSignedType fromTy ≠ isSignedType ty) :
    runIntCast fromTy ty value = if (isSignedType fromTy = true → 0 ≤ value.toInt) ∧
        (isSignedType fromTy = false → value.toNat ≤ 2 ^ (bits fromTy - 1) - 1)
      then .returns (read ty (value.setWidth (bits ty))) else .panics := by
  have notWider : ¬ bits fromTy < bits ty := by omega
  have notNarrower : ¬ bits ty < bits fromTy := by omega
  simp only [runIntCast, translateIntCast, notWider, notNarrower, if_false, signs]
  cases known : isSignedType fromTy
  · simp only [Bool.false_and, Bool.false_eq_true, if_false, icmp_some, condBranch_ofBool,
      IntPredicate.holds, BitVec.ule_eq_decide, toNat_maxSigned, decide_eq_true_eq, false_implies,
      true_implies, true_and]
    split <;> rfl
  · have unknown : isSignedType ty = false := by
      rw [known] at signs
      simpa using Ne.symm signs
    have zero : (0 : BitVec (bits fromTy)).toInt = 0 := BitVec.toInt_zero
    simp only [unknown, Bool.not_false, Bool.and_true, if_true, icmp_some, condBranch_ofBool,
      IntPredicate.holds, BitVec.sle_eq_decide, decide_eq_true_eq, false_implies,
      true_implies, and_true, Bool.true_eq_false, zero]
    split <;> rfl

theorem runIntCast_sameWidth_iff (sameWidth : bits fromTy = bits ty) :
    runIntCast fromTy ty value = languageCast ty (read fromTy value) ↔ CastExact fromTy ty (read fromTy value) := by
  have notWider : ¬ bits fromTy < bits ty := by omega
  have notNarrower : ¬ bits ty < bits fromTy := by omega
  have sameRead := @read_setWidth fromTy ty value (Nat.le_of_eq sameWidth.symm)
  have source := halves (Arith.bits_pos fromTy) value
  have sameHalf : 2 ^ (bits fromTy - 1) = 2 ^ (bits ty - 1) := by rw [sameWidth]
  have toSigned : isSignedType ty = true → ty.isSigned = true := Arith.isSigned_of_isSignedType
  rw [CastExact, if_neg notWider, if_neg notNarrower]
  by_cases signs : isSignedType fromTy = isSignedType ty
  · rw [if_pos signs, runIntCast_same_signs value sameWidth signs, languageCast_returns_iff]
    have sameSign : fromTy.isSigned = ty.isSigned → fits ty (read fromTy value) := by
      intro same
      have inRange := Arith.fits_read value
      rwa [fits, same, sameWidth] at inRange
    constructor
    · rintro ⟨inRange, -⟩
      exact .inr inRange
    · rintro (same | inRange)
      · exact ⟨sameSign same, sameRead (sameSign same)⟩
      · exact ⟨inRange, sameRead inRange⟩
  · rw [if_neg signs, runIntCast_sign_change value sameWidth signs, checked_eq_languageCast_iff sameRead]
    rcases sign_cases fromTy with ⟨fromKnown, fromSigned, -⟩ | ⟨fromUnknown, fromSigned, -⟩ |
      ⟨fromUnknown, fromUnsigned, -⟩
    · simp only [fromKnown, fromSigned, read_signed fromSigned, true_implies, Bool.true_eq_false,
        false_implies, and_true]
      by_cases signed : ty.isSigned = true
      · simp only [signed, fits_signed signed, ne_eq, not_true, false_or]
        omega
      · rw [Bool.not_eq_true] at signed
        simp only [signed, fits_unsigned signed, ne_eq, Bool.true_eq_false, not_false_eq_true, true_or, iff_true]
        omega
    · have signed : ty.isSigned = true := toSigned (by simpa [fromUnknown] using signs)
      simp only [fromUnknown, fromSigned, signed, read_signed fromSigned, fits_signed signed,
        true_implies, Bool.false_eq_true, false_implies, true_and, ne_eq, not_true, false_or]
      omega
    · have signed : ty.isSigned = true := toSigned (by simpa [fromUnknown] using signs)
      simp only [fromUnknown, fromUnsigned, signed, read_unsigned fromUnsigned, fits_signed signed,
        true_implies, Bool.false_eq_true, false_implies, true_and, ne_eq, not_false_eq_true,
        true_or, iff_true]
      omega

/-- The emitted cast gives the language's result exactly where it is exact. -/
theorem runIntCast_iff : runIntCast fromTy ty value = languageCast ty (read fromTy value) ↔
    CastExact fromTy ty (read fromTy value) := by
  rcases Nat.lt_trichotomy (bits fromTy) (bits ty) with wider | same | narrower
  · exact runIntCast_widening_iff value wider
  · exact runIntCast_sameWidth_iff value same
  · exact runIntCast_narrowing_iff value narrower

end Casts

namespace IntSample

/-- The emitted operators miss a shift by more than the width, a quotient that overflows and
the sign of a C integer. -/
theorem operators_miss : runBin .shl .i32 1 33 = .undefined ∧ runBin .div .i32 (BitVec.intMin 32) (-1) = .undefined ∧
      runBin .lt .cInt (-1) 0 = .returns (.bool false) ∧
      languageBin .lt .cInt (-1) 0 = .returns (.bool true) ∧
      ¬ ∀ (op : BinOp) (ty : Ty) (lhs rhs : BitVec (bits ty)), ty.isInteger = true →
        runBin op ty lhs rhs = languageBin op ty (read ty lhs) (read ty rhs) := by
  refine ⟨by decide, by decide, by decide, by decide, ?_⟩
  intro all
  have shifted := all .shl .i32 1 33 rfl
  exact absurd shifted (by decide)

/-- A negative number is widened to an unsigned type, and a large unsigned one narrowed to a
negative one. -/
theorem casts_miss : runIntCast .i8 .u32 (-1) = .returns 4294967295 ∧ languageCast .u32 (-1) = .panics ∧
      runIntCast .u32 .i8 0xFFFFFFFF = .returns (-1) ∧
      ¬ ∀ (fromTy ty : Ty) (value : BitVec (bits fromTy)), fromTy.isInteger = true →
        ty.isInteger = true → runIntCast fromTy ty value = languageCast ty (read fromTy value) := by
  refine ⟨by decide, by decide, by decide, ?_⟩
  intro all
  have widened := all .i8 .u32 (-1) rfl rfl
  exact absurd widened (by decide)

end IntSample

end IntCodegen

end Gruel
