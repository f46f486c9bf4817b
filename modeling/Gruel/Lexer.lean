import Gruel.LexerCore
import Mathlib.Data.List.TakeWhile

/-!
What the lexer picks at each position, and runs as lists of pieces that cover the source.
-/

namespace Gruel

namespace Lexer

open CharText

attribute [local simp] Pattern.longest SkipPattern.longest

variable {accepts : Char → Bool}

theorem literally_eq_some {expected text : List Char} {length : Nat} (found : literally expected text = some length) :
    length = expected.length ∧ ∃ rest, text = expected ++ rest := by
  unfold literally at found
  split at found
  case isTrue isPrefix =>
      cases found
      obtain ⟨rest, rfl⟩ := List.isPrefixOf_iff_prefix.mp isPrefix
      exact ⟨rfl, rest, rfl⟩
  case isFalse => cases found

theorem literally_append (expected rest : List Char) :
    literally expected (expected ++ rest) = some expected.length := by
  unfold literally
  rw [if_pos (List.isPrefixOf_iff_prefix.mpr ⟨rest, rfl⟩)]

theorem atLeastOne_eq_some {length taken : Nat} (found : atLeastOne length = some taken) :
    taken = length ∧ 0 < taken := by
  unfold atLeastOne at found
  split at found
  case isTrue => cases found
  case isFalse positive =>
      cases found
      exact ⟨rfl, Nat.pos_of_ne_zero positive⟩

theorem take_runLength (accepts : Char → Bool) (text : List Char) :
    text.take (runLength accepts text) = text.takeWhile accepts :=
  List.prefix_iff_eq_take.mp (List.takeWhile_prefix accepts) |>.symm

def Takes (property : Char → Prop) (text : List Char) (length : Nat) : Prop :=
  ∀ char ∈ text.take length, property char

theorem Takes.add {property : Char → Prop} {text : List Char} {first second : Nat}
    (here : Takes property text first) (behind : Takes property (text.drop first) second) :
    Takes property text (first + second) := by
  intro char member
  rw [List.take_add, List.mem_append] at member
  exact member.elim (here char) (behind char)

theorem Takes.cons {property : Char → Prop} {char : Char} {text : List Char} {length : Nat}
    (head : property char) (tail : Takes property text length) :
    Takes property (char :: text) (1 + length) := by
  rw [Nat.add_comm]
  intro other member
  rcases List.mem_cons.mp member with rfl | inTail
  · exact head
  · exact tail other inTail

theorem takes_runLength {property : Char → Prop}
    (implied : ∀ char, accepts char = true → property char) (text : List Char) :
    Takes property text (runLength accepts text) := by
  intro char member
  rw [take_runLength] at member
  exact implied char (List.mem_takeWhile_imp member)

def Plain (char : Char) : Prop := char ≠ '/' ∧ char ≠ '"' ∧ char ≠ '\''

instance (char : Char) : Decidable (Plain char) := inferInstanceAs (Decidable (_ ∧ _))

theorem plain_of_accepts (slash : accepts '/' = false) (double : accepts '"' = false)
    (single : accepts '\'' = false) : ∀ char, accepts char = true → Plain char := by
  intro char _
  refine ⟨?_, ?_, ?_⟩ <;> rintro rfl <;> simp_all

theorem plain_of_isDigit : ∀ char : Char, char.isDigit = true → Plain char :=
  plain_of_accepts rfl rfl rfl

theorem signedDigits_plain {text : List Char} {length : Nat}
    (found : signedDigits text = some length) : Takes Plain text length := by
  cases text with
  | nil => cases found
  | cons char chars =>
    simp only [signedDigits] at found
    split at found
    case isTrue sign =>
        obtain ⟨_, taken, rfl⟩ := Option.map_eq_some_iff.mp found
        obtain ⟨rfl, -⟩ := atLeastOne_eq_some taken
        refine Takes.cons ?_ (takes_runLength plain_of_isDigit chars)
        rcases sign with rfl | rfl <;> decide
    case isFalse =>
        obtain ⟨rfl, -⟩ := atLeastOne_eq_some found
        exact takes_runLength plain_of_isDigit _

theorem exponentPart_plain {text : List Char} {length : Nat}
    (found : exponentPart text = some length) : Takes Plain text length := by
  cases text with
  | nil => cases found
  | cons char chars =>
    simp only [exponentPart] at found
    split at found
    case isTrue letter =>
        obtain ⟨_, taken, rfl⟩ := Option.map_eq_some_iff.mp found
        refine Takes.cons ?_ (signedDigits_plain taken)
        rcases letter with rfl | rfl <;> decide
    case isFalse => cases found

theorem fractionPart_plain {text : List Char} {length : Nat}
    (found : fractionPart text = some length) : Takes Plain text length := by
  cases text with
  | nil => cases found
  | cons char chars =>
    simp only [fractionPart] at found
    split at found
    case isTrue point =>
        obtain ⟨_, taken, rfl⟩ := Option.map_eq_some_iff.mp found
        obtain ⟨rfl, -⟩ := atLeastOne_eq_some taken
        subst point
        rw [Nat.add_assoc]
        refine Takes.cons (by decide) (.add (takes_runLength plain_of_isDigit chars) ?_)
        cases exponent : exponentPart (chars.drop (runLength Char.isDigit chars)) with
        | none => simp [Takes]
        | some more => exact exponentPart_plain exponent
    case isFalse => cases found

theorem plain_fixed : ∀ text ∈ fixedTokens, text ≠ "/" → ∀ char ∈ text.toList, Plain char := by
  have all : fixedTokens.all (fun text =>
      text == "/" || text.toList.all fun char => decide (Plain char)) = true := by decide
  intro text member notSlash char inText
  have checked := List.all_eq_true.mp all text member
  rw [Bool.or_eq_true, beq_iff_eq] at checked
  rcases checked with isSlash | plain
  · exact absurd isSlash notSlash
  · exact of_decide_eq_true (List.all_eq_true.mp plain char inText)

theorem fixed_ne_nil : ∀ text ∈ fixedTokens, text.toList ≠ [] := by
  decide

def Pattern.TakesPlain : Pattern → Prop
  | .skip .blanks | .fraction | .exponent | .int | .ident | .atImport => True
  | .fixed token => token.text ≠ "/"
  | .skip _ | .lineDoc | .string | .charLit => False

theorem plain_of_longest {pattern : Pattern} (plain : pattern.TakesPlain) {text : List Char}
    {length : Nat} (found : pattern.longest text = some length) : Takes Plain text length := by
  cases pattern with
  | skip skipped =>
    cases skipped with
    | blanks =>
      obtain ⟨rfl, -⟩ := atLeastOne_eq_some found
      exact takes_runLength (plain_of_accepts rfl rfl rfl) text
    | slashRun | lineComment | bareComment => exact plain.elim
  | fixed token =>
    obtain ⟨rfl, rest, rfl⟩ := literally_eq_some found
    intro char member
    rw [List.take_left] at member
    exact plain_fixed token.text token.listed plain char member
  | fraction =>
    simp only [Pattern.longest, Option.bind_eq_bind, Option.bind_eq_some_iff, Option.some.injEq] at found
    obtain ⟨digits, taken, more, fraction, rfl⟩ := found
    obtain ⟨rfl, -⟩ := atLeastOne_eq_some taken
    exact (takes_runLength plain_of_isDigit text).add (fractionPart_plain fraction)
  | exponent =>
    simp only [Pattern.longest, Option.bind_eq_bind, Option.bind_eq_some_iff, Option.some.injEq] at found
    obtain ⟨digits, taken, more, exponent, rfl⟩ := found
    obtain ⟨rfl, -⟩ := atLeastOne_eq_some taken
    exact (takes_runLength plain_of_isDigit text).add (exponentPart_plain exponent)
  | int =>
    obtain ⟨rfl, -⟩ := atLeastOne_eq_some found
    exact takes_runLength plain_of_isDigit text
  | ident =>
    cases text with
    | nil => cases found
    | cons char chars =>
      simp only [Pattern.longest, Option.ite_none_right_eq_some, Option.some.injEq] at found
      obtain ⟨start, rfl⟩ := found
      have head : Plain char := plain_of_accepts rfl rfl rfl char start
      exact .cons head (takes_runLength (plain_of_accepts rfl rfl rfl) chars)
  | atImport =>
    obtain ⟨rfl, rest, rfl⟩ := literally_eq_some found
    intro char member
    have all : "@import".toList.all (fun char => decide (Plain char)) = true := by decide
    exact of_decide_eq_true (List.all_eq_true.mp all char member)
  | lineDoc | string | charLit => exact plain.elim

theorem length_takeWhile_mono {other : Char → Bool}
    (implied : ∀ char, accepts char = true → other char = true) (text : List Char) :
    (text.takeWhile accepts).length ≤ (text.takeWhile other).length := by
  induction text with
  | nil => exact Nat.le_refl _
  | cons char text ih =>
    simp only [List.takeWhile_cons]
    cases accepted : accepts char with
    | false => simp
    | true =>
      rw [implied char accepted]
      exact Nat.succ_le_succ ih

theorem slashes_le_restOfLine (text : List Char) : runLength (· == '/') text ≤ (restOfLine text).length := by
  refine length_takeWhile_mono (fun char slash => ?_) text
  rw [eq_of_beq slash]
  rfl

theorem lineComment_eq_some {text : List Char} {length : Nat}
    (found : SkipPattern.lineComment.longest text = some length) :
    length = (restOfLine text).length ∧
      ∃ char rest, text = '/' :: '/' :: char :: rest ∧ char ≠ '/' ∧ char ≠ '\n' := by
  simp only [SkipPattern.longest] at found
  split at found
  case h_1 reach char chars slashes behind =>
      obtain ⟨-, rest, rfl⟩ := literally_eq_some slashes
      subst behind
      split at found
      case isTrue => cases found
      case isFalse other =>
          cases found
          exact ⟨rfl, char, chars, rfl, not_or.mp other⟩
  case h_2 => cases found

theorem longest_pos {pattern : Pattern} {text : List Char} {length : Nat}
    (found : pattern.longest text = some length) : 0 < length := by
  cases pattern with
  | skip skipped =>
    cases skipped with
    | blanks => exact (atLeastOne_eq_some found).2
    | slashRun =>
      simp only [Pattern.longest, SkipPattern.longest, Option.ite_none_right_eq_some, Option.some.injEq] at found
      obtain ⟨slashes, rfl⟩ := found
      exact Nat.lt_of_lt_of_le (by decide) (Nat.le_trans slashes (slashes_le_restOfLine text))
    | lineComment =>
      obtain ⟨rfl, char, _, rfl, -⟩ := lineComment_eq_some found
      simp [restOfLine]
    | bareComment =>
      rw [(literally_eq_some found).1]
      decide
  | fixed token =>
    rw [(literally_eq_some found).1]
    exact List.length_pos_iff.mpr (fixed_ne_nil token.text token.listed)
  | fraction | exponent =>
    simp only [Pattern.longest, Option.bind_eq_bind, Option.bind_eq_some_iff, Option.some.injEq] at found
    obtain ⟨digits, taken, more, -, rfl⟩ := found
    obtain ⟨rfl, positive⟩ := atLeastOne_eq_some taken
    exact Nat.add_pos_left positive _
  | int => exact (atLeastOne_eq_some found).2
  | ident =>
    cases text with
    | nil => cases found
    | cons char chars =>
      simp only [Pattern.longest, Option.ite_none_right_eq_some, Option.some.injEq] at found
      obtain ⟨-, rfl⟩ := found
      exact Nat.add_pos_left Nat.one_pos _
  | atImport | lineDoc | string | charLit =>
    rw [(literally_eq_some found).1]
    decide

theorem mem_patterns (pattern : Pattern) : pattern ∈ patterns := by
  cases pattern with
  | skip skipped => cases skipped <;> simp [patterns]
  | fixed token =>
    exact List.mem_append_right _ (List.mem_map.mpr ⟨⟨token.text, token.listed⟩, List.mem_attach _ _, rfl⟩)
  | _ => simp [patterns]

def Picks (text : List Char) (pattern : Pattern) (length : Nat) : Prop :=
  LongestMatch.pick Pattern.longest Pattern.priority text patterns = some (pattern, length)

namespace Picks

variable {text : List Char} {pattern : Pattern} {length : Nat}

theorem longest (picks : Picks text pattern length) : pattern.longest text = some length :=
  (LongestMatch.pick_spec picks).2.1

theorem pos (picks : Picks text pattern length) : 0 < length := longest_pos picks.longest

theorem le (picks : Picks text pattern length) {other : Pattern} {reach : Nat}
    (found : other.longest text = some reach) : reach ≤ length :=
  LongestMatch.pick_le picks (mem_patterns other) found

theorem of_only (found : pattern.longest text = some length)
    (only : ∀ other, other ≠ pattern → other.longest text = none) : Picks text pattern length := by
  refine LongestMatch.pick_of_longest (mem_patterns pattern) found fun other _ different reach reached => ?_
  rw [only other different] at reached
  cases reached

variable {token : FixedToken}

theorem slash (picks : Picks text (.fixed token) length) (isSlash : token.text = "/") :
    length = 1 ∧ ∃ rest, text = '/' :: rest ∧ rest.head? ≠ some '/' := by
  obtain ⟨rfl, rest, rfl⟩ := literally_eq_some picks.longest
  rw [isSlash] at picks ⊢
  refine ⟨rfl, rest, rfl, fun doubled => ?_⟩
  obtain ⟨behind, rfl⟩ := List.head?_eq_some_iff.mp doubled
  have comment : (Pattern.skip .bareComment).longest ('/' :: '/' :: behind) = some 2 :=
    literally_append ['/', '/'] behind
  have reach := picks.le comment
  exact absurd reach (by decide)

theorem bareComment (picks : Picks text (.skip .bareComment) length) :
    length = 2 ∧ ∃ rest, text = '/' :: '/' :: rest ∧ restOfLine rest = [] := by
  obtain ⟨rfl, rest, rfl⟩ := literally_eq_some picks.longest
  refine ⟨rfl, rest, rfl, ?_⟩
  cases rest with
  | nil => rfl
  | cons char rest =>
    by_cases newline : char = '\n'
    · subst newline
      rfl
    · by_cases third : char = '/'
      · subst third
        have doc : Pattern.lineDoc.longest ('/' :: '/' :: '/' :: rest) = some 3 :=
          literally_append ['/', '/', '/'] rest
        exact absurd (picks.le doc) (by decide)
      · have line : (Pattern.skip .lineComment).longest ('/' :: '/' :: char :: rest) =
            some (restOfLine ('/' :: '/' :: char :: rest)).length := by
          simp [literally, third, newline]
        have reach := picks.le line
        simp [restOfLine, newline] at reach

theorem lineComment (picks : Picks text (.skip .lineComment) length) : length = (restOfLine text).length ∧
      ∃ char rest, text = '/' :: '/' :: char :: rest ∧ char ≠ '/' ∧ char ≠ '\n' :=
  lineComment_eq_some picks.longest

theorem lineDoc (picks : Picks text .lineDoc length) :
    length = 3 ∧ ∃ rest, text = '/' :: '/' :: '/' :: rest ∧ rest.head? ≠ some '/' := by
  obtain ⟨rfl, rest, rfl⟩ := literally_eq_some picks.longest
  refine ⟨rfl, rest, rfl, fun fourth => ?_⟩
  obtain ⟨behind, rfl⟩ := List.head?_eq_some_iff.mp fourth
  have slashes : (Pattern.skip .slashRun).longest ('/' :: '/' :: '/' :: '/' :: behind) =
      some (restOfLine ('/' :: '/' :: '/' :: '/' :: behind)).length := by
    simp [runLength]
  have long : 4 ≤ (restOfLine ('/' :: '/' :: '/' :: '/' :: behind)).length := by
    exact Nat.le_add_left 4 _
  exact absurd (Nat.le_trans long (picks.le slashes)) (by decide)

theorem slashRun (picks : Picks text (.skip .slashRun) length) :
    length = (restOfLine text).length ∧ 4 ≤ runLength (· == '/') text := by
  have found := picks.longest
  simp only [Pattern.longest, SkipPattern.longest, Option.ite_none_right_eq_some, Option.some.injEq] at found
  exact ⟨found.2.symm, found.1⟩

end Picks

theorem not_takesPlain_of_longest {pattern : Pattern} {char : Char} {rest : List Char}
    {length : Nat} (special : ¬ Plain char)
    (found : pattern.longest (char :: rest) = some length) : ¬ pattern.TakesPlain := by
  intro plain
  obtain ⟨_, rfl⟩ := Nat.exists_eq_add_one.mpr (longest_pos found)
  exact special (plain_of_longest plain found char (.head _))

theorem eq_of_longest_quote {pattern : Pattern} {quote : Char} {rest : List Char} {length : Nat}
    (isQuote : quote = '"' ∨ quote = '\'')
    (found : pattern.longest (quote :: rest) = some length) :
    pattern = if quote = '"' then .string else .charLit := by
  have special : ¬ Plain quote := by
    rcases isQuote with rfl | rfl <;> decide
  have scanner := not_takesPlain_of_longest special found
  have notSlash : quote ≠ '/' := by
    rcases isQuote with rfl | rfl <;> decide
  cases pattern with
  | skip skipped =>
    cases skipped with
    | blanks => exact absurd trivial scanner
    | slashRun => simp [runLength, notSlash] at found
    | lineComment =>
      obtain ⟨-, _, behind, same, -⟩ := lineComment_eq_some found
      exact absurd (List.cons.inj same).1 notSlash
    | bareComment =>
      obtain ⟨-, behind, same⟩ := literally_eq_some found
      exact absurd (List.cons.inj same).1 notSlash
  | lineDoc =>
    obtain ⟨-, behind, same⟩ := literally_eq_some found
    exact absurd (List.cons.inj same).1 notSlash
  | fixed token =>
    obtain ⟨-, behind, same⟩ := literally_eq_some found
    have slash : token.text = "/" := not_not.mp scanner
    rw [slash] at same
    exact absurd (List.cons.inj same).1 notSlash
  | string =>
    obtain ⟨-, behind, same⟩ := literally_eq_some found
    rw [(List.cons.inj same).1, if_pos rfl]
  | charLit =>
    obtain ⟨-, behind, same⟩ := literally_eq_some found
    rw [(List.cons.inj same).1, if_neg (by decide)]
  | fraction | exponent | int | ident | atImport => exact absurd trivial scanner

theorem picks_string (rest : List Char) : Picks ('"' :: rest) .string 1 := by
  refine .of_only (literally_append ['"'] rest) fun other different => ?_
  refine Option.eq_none_iff_forall_ne_some.mpr fun length found => different ?_
  exact eq_of_longest_quote (.inl rfl) found

theorem picks_charLit (rest : List Char) : Picks ('\'' :: rest) .charLit 1 := by
  refine .of_only (literally_append ['\''] rest) fun other different => ?_
  refine Option.eq_none_iff_forall_ne_some.mpr fun length found => different ?_
  exact eq_of_longest_quote (.inr rfl) found

theorem takeWhile_of_all {accepts : Char → Bool} {text : List Char}
    (all : ∀ char ∈ text, accepts char = true) : text.takeWhile accepts = text :=
  List.takeWhile_eq_self_iff.mpr all

theorem fixed_not_digit : ∀ text ∈ fixedTokens, ∀ char ∈ text.toList.head?, char.isDigit = false := by
  have all : fixedTokens.all (fun text =>
      text.toList.head?.all fun char => !char.isDigit) = true := by decide
  intro text member char first
  have checked := List.all_eq_true.mp all text member
  rw [Option.mem_def.mp first, Option.all_some, Bool.not_eq_true'] at checked
  exact checked

theorem not_isIdentStart {char : Char} (digit : char.isDigit = true) : isIdentStart char = false := by
  simp only [Char.isDigit, Bool.and_eq_true, decide_eq_true_eq, ge_iff_le,
    UInt32.le_iff_toNat_le, Char.reduceVal, UInt32.reduceToNat] at digit
  have notUnderscore : char ≠ '_' := by
    rintro rfl
    simp at digit
  unfold isIdentStart Char.isAlpha Char.isUpper Char.isLower
  simp only [Bool.or_eq_false_iff, Bool.and_eq_false_iff, decide_eq_false_iff_not, ge_iff_le, UInt32.le_iff_toNat_le,
    Char.reduceVal, UInt32.reduceToNat, beq_eq_false_iff_ne, ne_eq]
  exact ⟨⟨by omega, by omega⟩, notUnderscore⟩

theorem picks_int {digits : List Char} (nonempty : digits ≠ [])
    (all : ∀ char ∈ digits, char.isDigit = true) : Picks digits .int digits.length := by
  have run : runLength Char.isDigit digits = digits.length := by
    rw [runLength, takeWhile_of_all all]
  obtain ⟨char, _, rfl⟩ := List.exists_cons_of_ne_nil nonempty
  have head := all char (.head _)
  have other_head : ∀ other : Char, other.isDigit = false → char ≠ other := by
    rintro other notDigit rfl
    rw [head] at notDigit
    cases notDigit
  refine .of_only (by simp [run, atLeastOne]) fun other different => ?_
  refine Option.eq_none_iff_forall_ne_some.mpr fun length found => ?_
  cases other with
  | skip skipped =>
    cases skipped with
    | blanks =>
      obtain ⟨rfl, positive⟩ := atLeastOne_eq_some found
      simp [runLength, isBlank, other_head] at positive
    | slashRun =>
      simp [runLength, other_head '/' rfl] at found
    | lineComment =>
      obtain ⟨-, _, behind, same, -⟩ := lineComment_eq_some found
      exact other_head '/' rfl (List.cons.inj same).1
    | bareComment =>
      obtain ⟨-, behind, same⟩ := literally_eq_some found
      exact other_head '/' rfl (List.cons.inj same).1
  | fixed token =>
    obtain ⟨-, behind, same⟩ := literally_eq_some found
    obtain ⟨first, _, shape⟩ := List.exists_cons_of_ne_nil (fixed_ne_nil _ token.listed)
    rw [shape] at same
    have notDigit := fixed_not_digit token.text token.listed first (by rw [shape]; rfl)
    exact other_head first notDigit (List.cons.inj same).1
  | fraction =>
    simp [run, atLeastOne, fractionPart] at found
  | exponent =>
    simp [run, atLeastOne, exponentPart] at found
  | int => exact different rfl
  | ident =>
    simp only [Pattern.longest, Option.ite_none_right_eq_some] at found
    rw [not_isIdentStart head] at found
    cases found.1
  | atImport =>
    obtain ⟨-, behind, same⟩ := literally_eq_some found
    exact other_head '@' rfl (List.cons.inj same).1
  | lineDoc =>
    obtain ⟨-, behind, same⟩ := literally_eq_some found
    exact other_head '/' rfl (List.cons.inj same).1
  | string =>
    obtain ⟨-, behind, same⟩ := literally_eq_some found
    exact other_head '"' rfl (List.cons.inj same).1
  | charLit =>
    obtain ⟨-, behind, same⟩ := literally_eq_some found
    exact other_head '\'' rfl (List.cons.inj same).1

section Runs

variable {parseF64 : ParseF64}

theorem step_eq_piece {text taken rest : List Char} {kind : PieceKind}
    (stepped : step parseF64 text = .piece kind taken rest) :
    ∃ pattern length more consumed, Picks text pattern length ∧
      callback parseF64 pattern (text.take length) (text.drop length) = (.ok kind, consumed) ∧
      text.drop length = more ++ rest ∧ byteLength more = consumed ∧
      taken = text.take length ++ more := by
  unfold step at stepped
  split at stepped
  case h_1 => cases stepped
  case h_2 pattern length picks =>
      generalize called : callback parseF64 pattern (text.take length) (text.drop length) = outcome at stepped
      obtain ⟨result, consumed⟩ := outcome
      dsimp only at stepped
      split at stepped
      case h_1 => cases stepped
      case h_2 more behind cut =>
          cases result with
          | error error => cases stepped
          | ok found =>
            cases stepped
            obtain ⟨joined, measured⟩ := splitAtByte_spec cut
            exact ⟨pattern, length, more, consumed, picks, called, joined, measured, rfl⟩

theorem step_of_picks {text more rest : List Char} {pattern : Pattern} {length : Nat}
    {kind : PieceKind} (picks : Picks text pattern length)
    (called : callback parseF64 pattern (text.take length) (text.drop length) = (.ok kind, byteLength more))
    (behind : text.drop length = more ++ rest) :
    step parseF64 text = .piece kind (text.take length ++ more) rest := by
  have cut : splitAtByte (text.drop length) (byteLength more) = some (more, rest) := by
    rw [behind, splitAtByte_append]
  unfold step
  rw [picks]
  simp [called, cut]

theorem step_spec {text taken rest : List Char} {kind : PieceKind}
    (stepped : step parseF64 text = .piece kind taken rest) : text = taken ++ rest := by
  obtain ⟨_, _, _, _, -, -, behind, -, rfl⟩ := step_eq_piece stepped
  rw [List.append_assoc, ← behind, List.take_append_drop]

inductive Runs (parseF64 : ParseF64) : List Char → Nat → List Piece → Prop
  | done {offset : Nat} : Runs parseF64 [] offset []
  | piece {text taken rest : List Char} {kind : PieceKind} {offset : Nat} {pieces : List Piece}
      (stepped : step parseF64 text = .piece kind taken rest)
      (further : Runs parseF64 rest (offset + byteLength taken) pieces) :
      Runs parseF64 text offset (⟨kind, offset, offset + byteLength taken⟩ :: pieces)

theorem runs_of_run {fuel : Nat} {text : List Char} {offset : Nat} {pieces : List Piece}
    (ran : run parseF64 fuel text offset = .ok pieces) : Runs parseF64 text offset pieces := by
  induction fuel generalizing text offset pieces with
  | zero =>
    cases text with
    | nil =>
      cases ran
      exact .done
    | cons char chars => cases ran
  | succ fuel ih =>
    cases text with
    | nil =>
      cases ran
      exact .done
    | cons char chars =>
      simp only [run] at ran
      split at ran
      case h_1 => cases ran
      case h_2 => cases ran
      case h_3 kind taken rest stepped =>
          cases further : run parseF64 fuel rest (offset + byteLength taken) with
          | error failure =>
            rw [further] at ran
            cases ran
          | ok others =>
            rw [further] at ran
            cases ran
            exact .piece stepped (ih further)

theorem Runs.stepped {text : List Char} {offset : Nat} {pieces : List Piece}
    (runs : Runs parseF64 text offset pieces) {piece : Piece} (member : piece ∈ pieces) :
    ∃ before taken after, text = before ++ taken ++ after ∧
      piece.start = offset + byteLength before ∧ piece.stop = piece.start + byteLength taken ∧
      step parseF64 (taken ++ after) = .piece piece.kind taken after := by
  induction runs with
  | done => cases member
  | @piece text taken rest kind offset pieces stepped further ih =>
    have joined := step_spec stepped
    rcases List.mem_cons.mp member with rfl | later
    · exact ⟨[], taken, rest, joined, rfl, rfl, joined ▸ stepped⟩
    · obtain ⟨before, inside, after, rfl, start, stop, here⟩ := ih later
      refine ⟨taken ++ before, inside, after, by simp [joined], ?_, stop, here⟩
      rw [start, byteLength_append, Nat.add_assoc]

theorem run_of_step {fuel offset : Nat} {text taken rest : List Char} {kind : PieceKind}
    {pieces : List Piece} (nonempty : text ≠ [])
    (stepped : step parseF64 text = .piece kind taken rest)
    (further : run parseF64 fuel rest (offset + byteLength taken) = .ok pieces) :
    run parseF64 (fuel + 1) text offset = .ok (⟨kind, offset, offset + byteLength taken⟩ :: pieces) := by
  obtain ⟨_, _, rfl⟩ := List.exists_cons_of_ne_nil nonempty
  simp only [run, stepped, further]
  rfl

theorem run_nil (fuel offset : Nat) : run parseF64 fuel [] offset = .ok [] := by
  cases fuel <;> rfl

theorem pieces_of_step {text : List Char} {kind : PieceKind} (nonempty : text ≠ [])
    (stepped : step parseF64 text = .piece kind text []) :
    pieces parseF64 text = .ok [⟨kind, 0, byteLength text⟩] := by
  obtain ⟨fuel, isFuel⟩ := Nat.exists_eq_add_one.mpr (List.length_pos_iff.mpr nonempty)
  have ran := @run_of_step parseF64 fuel 0 _ _ _ _ _ nonempty stepped (run_nil _ _)
  rwa [← isFuel, Nat.zero_add] at ran

theorem lt_of_step {text taken rest : List Char} {kind : PieceKind} (nonempty : text ≠ [])
    (stepped : step parseF64 text = .piece kind taken rest) : 0 < byteLength taken ∧ rest.length < text.length := by
  have lengths := congrArg List.length (step_spec stepped)
  obtain ⟨_, length, more, _, picks, -, -, -, rfl⟩ := step_eq_piece stepped
  have size := List.length_pos_iff.mpr nonempty
  have taking := picks.pos
  have inBytes := length_le_byteLength (text.take length ++ more)
  simp only [List.length_append, List.length_take] at lengths inBytes
  exact ⟨by omega, by omega⟩

theorem run_tiles {fuel : Nat} {text : List Char} (enough : text.length ≤ fuel) (offset : Nat) :
    run parseF64 fuel text offset ≠ .error .outOfFuel ∧ ∀ found, run parseF64 fuel text offset = .ok found →
      found.map Piece.start ++ [offset + byteLength text] = offset :: found.map Piece.stop ∧
        ∀ piece ∈ found, piece.start < piece.stop := by
  induction fuel generalizing text offset with
  | zero =>
    obtain rfl := List.eq_nil_of_length_eq_zero (Nat.le_zero.mp enough)
    simp [run_nil]
  | succ fuel ih =>
    cases text with
    | nil => simp [run_nil]
    | cons char chars =>
      simp only [run]
      split
      case h_1 | h_2 => simp
      case h_3 kind taken rest stepped =>
          obtain ⟨taking, shorter⟩ := lt_of_step (by simp) stepped
          obtain ⟨fueled, tiles⟩ := @ih rest (by omega) (offset + byteLength taken)
          rw [step_spec stepped, byteLength_append, ← Nat.add_assoc]
          cases further : run parseF64 fuel rest (offset + byteLength taken) with
          | error failure => exact ⟨fun out => fueled (further.trans out), by simp [bind, Except.bind]⟩
          | ok others =>
            obtain ⟨starts, proper⟩ := tiles others further
            simpa [bind, Except.bind, taking] using ⟨starts, proper⟩

/-- Lexing always ends, and the pieces of an accepted source stand one behind the other, from its
first byte to its last, none of them empty. -/
theorem pieces_tile (parseF64 : ParseF64) (source : List Char) : pieces parseF64 source ≠ .error .outOfFuel ∧
    ∀ found, pieces parseF64 source = .ok found →
      found.map Piece.start ++ [byteLength source] = 0 :: found.map Piece.stop ∧
        ∀ piece ∈ found, piece.start < piece.stop := by
  simpa [pieces] using run_tiles (Nat.le_refl source.length) 0

end Runs

end Lexer

end Gruel
