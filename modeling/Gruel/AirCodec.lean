import Gruel.AirCodecCore
import Gruel.RirCodec
import Mathlib.Algebra.Group.Int.Defs

/-!
The arms of a match come back from the extra array as they were put there, whatever is
appended behind them.
-/

namespace Gruel

open WordStream

namespace AirCodec

attribute [local simp] encodePatternTree decodeTagged

@[simp] theorem ofCode_tag (tag : PatternTag) : PatternTag.ofCode tag.code = some tag := by
  cases tag <;> rfl

theorem toNat_idWord {id : Nat} (fits : id < 2 ^ 32) : (idWord id).toNat = id := by
  rw [idWord, BitVec.toNat_ofNat, Nat.mod_eq_of_lt fits]

theorem spurOfWord_idWord {name : Nat} (valid : name < 4294967295) :
    spurOfWord (idWord name) = some ⟨name, valid⟩ := by
  have number : (idWord name).toNat = name := toNat_idWord (by omega)
  simp [spurOfWord, number, valid]

theorem toInt_ofInt {n : Int} (lower : -2 ^ 63 ≤ n) (upper : n < 2 ^ 63) : (BitVec.ofInt 64 n).toInt = n := by
  rw [BitVec.toInt_ofInt]
  exact Int.bmod_eq_of_le (by omega) (by omega)

@[simp] theorem bindFlags_mutBit (isMut hasInner : Bool) :
    bindFlags isMut hasInner &&& 1#32 = 0#32 ↔ isMut = false := by
  cases isMut <;> cases hasInner <;> decide

@[simp] theorem bindFlags_innerBit (isMut hasInner : Bool) :
    bindFlags isMut hasInner &&& 2#32 = 0#32 ↔ hasInner = false := by
  cases isMut <;> cases hasInner <;> decide

mutual

def Representable : AirPattern → Prop
  | .wildcard | .bool _ => True
  | .int n => -2 ^ 63 ≤ n ∧ n < 2 ^ 63
  | .enumVariant id index | .enumUnitVariant id index => id < 2 ^ 32 ∧ index < 2 ^ 32
  | .bind name _ inner => name < 4294967295 ∧ RepresentableInner inner
  | .tuple elems => RepresentableAll elems
  | .struct id fields => id < 2 ^ 32 ∧ RepresentableFields fields
  | .enumDataVariant id index fields => id < 2 ^ 32 ∧ index < 2 ^ 32 ∧ RepresentableAll fields
  | .enumStructVariant id index fields =>
    id < 2 ^ 32 ∧ index < 2 ^ 32 ∧ RepresentableFields fields

def RepresentableInner : Option AirPattern → Prop
  | none => True
  | some inner => Representable inner

def RepresentableAll : List AirPattern → Prop
  | [] => True
  | pattern :: patterns => Representable pattern ∧ RepresentableAll patterns

def RepresentableFields : List (Nat × AirPattern) → Prop
  | [] => True
  | (index, pattern) :: fields =>
    index < 2 ^ 32 ∧ Representable pattern ∧ RepresentableFields fields

end

theorem encodeElems_eq (elems : List AirPattern) : encodeElems elems = elems.flatMap encodePatternTree := by
  induction elems with
  | nil => rfl
  | cons elem elems ih => rw [encodeElems, ih, List.flatMap_cons]

theorem encodeFields_eq (fields : List (Nat × AirPattern)) : encodeFields fields = fields.flatMap encodeField := by
  induction fields with
  | nil => rfl
  | cons field fields ih =>
    rw [encodeFields, ih, List.flatMap_cons, encodeField]

theorem one_le_length_encodePatternTree (pattern : AirPattern) : 1 ≤ (encodePatternTree pattern).length := by
  cases pattern <;> simp [encodePatternTree, List.length_append, List.length_cons] <;> omega

theorem one_le_length_encodeField (field : Nat × AirPattern) : 1 ≤ (encodeField field).length := by
  simp only [encodeField, List.length_cons]
  omega

theorem reads_items {Item : Type} {decode : Nat → Decoder Word Item} {encode : Item → List Word}
    (items : List Item) (before rest : List Word) {depth : Nat}
    (each : ∀ item ∈ items, ReadsAt decode (encode item) item)
    (occupies : ∀ item, 1 ≤ (encode item).length)
    (deep : (items.flatMap encode).length ≤ depth)
    (fits : (items.flatMap encode).length < 2 ^ 32) :
    decodeMany (decode depth) (before ++ (items.flatMap encode ++ rest))
      (lengthWord items.length).toNat before.length =
        some (items, before.length + (items.flatMap encode).length) := by
  have sequence := @reads_sequence _ _ decode encode id items before rest before.length depth each
    occupies deep fits rfl
  rwa [List.map_id] at sequence

theorem reads_field {index : Nat} {pattern : AirPattern} (small : index < 2 ^ 32)
    (patternReads : ReadsAt decodePatternTree (encodePatternTree pattern) pattern) :
    ReadsAt (fun depth => decodeField (decodePatternTree depth)) (encodeField (index, pattern)) (index, pattern) := by
  intro depth deep fits rest
  simp only [encodeField, List.length_cons] at deep fits
  have inner := patternReads depth (by omega) (by omega) rest
  simp only [decodeField, encodeField, List.cons_append, List.getElem?_cons_zero,
    Option.bind_eq_bind, Option.bind_some, List.drop_succ_cons, List.drop_zero, inner,
    toNat_idWord small, List.length_cons]
  rw [Nat.add_comm]

theorem readsAt_of_tagged (tag : PatternTag) {words : List Word} {pattern : AirPattern}
    (starts : words.head? = some tag.code)
    (reads : ∀ depth, words.length ≤ depth + 1 → words.length < 2 ^ 32 →
      Reads (decodeTagged (decodePatternTree depth) tag) words pattern) :
    ReadsAt decodePatternTree words pattern := by
  obtain ⟨_, rfl⟩ := List.head?_eq_some_iff.mp starts
  intro depth deep fits rest
  cases depth with
  | zero => cases deep
  | succ depth =>
    have tagged := reads depth deep fits rest
    simp only [decodePatternTree, List.cons_append, List.getElem?_cons_zero, Option.bind_eq_bind,
      Option.bind_some, ofCode_tag]
    exact tagged

mutual

theorem reads_tree : ∀ pattern : AirPattern, Representable pattern →
    ReadsAt decodePatternTree (encodePatternTree pattern) pattern
  | .wildcard, _ => by
      apply readsAt_of_tagged .wildcard rfl
      intro depth deep fits rest
      rfl
  | .int n, bounds => by
      apply readsAt_of_tagged .int rfl
      intro depth deep fits rest
      simp [intOfWords_words, toInt_ofInt bounds.1 bounds.2]
  | .bool b, _ => by
      apply readsAt_of_tagged .bool rfl
      intro depth deep fits rest
      simp [boolOfWord_boolWord]
  | .enumVariant id index, bounds => by
      apply readsAt_of_tagged .enumVariant rfl
      intro depth deep fits rest
      simp only [Representable] at bounds
      simp [toNat_idWord bounds.1, toNat_idWord bounds.2]
  | .enumUnitVariant id index, bounds => by
      apply readsAt_of_tagged .enumUnit rfl
      intro depth deep fits rest
      simp only [Representable] at bounds
      simp [toNat_idWord bounds.1, toNat_idWord bounds.2]
  | .bind name isMut none, bounds => by
      apply readsAt_of_tagged .bind rfl
      intro depth deep fits rest
      simp only [Representable] at bounds
      simp [encodeInner, spurOfWord_idWord bounds.1]
  | .bind name isMut (some inner), bounds => by
      apply readsAt_of_tagged .bind rfl
      intro depth deep fits rest
      simp only [encodePatternTree, encodeInner, List.length_append, List.length_cons, List.length_nil] at deep fits
      have tree := reads_tree inner bounds.2 depth (by omega) (by omega) rest
      simp [encodeInner, spurOfWord_idWord bounds.1, tree]
      omega
  | .tuple elems, bounds => by
      apply readsAt_of_tagged .tuple rfl
      intro depth deep fits rest
      simp only [Representable] at bounds
      simp only [encodePatternTree, encodeElems_eq, List.length_append, List.length_cons,
        List.length_nil] at deep fits
      have sequence := reads_items elems [PatternTag.tuple.code, lengthWord elems.length] rest
        (reads_trees elems bounds) one_le_length_encodePatternTree (by omega : _ ≤ depth)
        (by omega)
      simp only [List.cons_append, List.nil_append, List.length_cons, List.length_nil,
        Nat.zero_add, Nat.reduceAdd] at sequence
      simp [encodeElems_eq, sequence, -List.length_flatMap]
      omega
  | .struct id fields, bounds => by
      apply readsAt_of_tagged .struct rfl
      intro depth deep fits rest
      simp only [Representable] at bounds
      simp only [encodePatternTree, encodeFields_eq, List.length_append, List.length_cons,
        List.length_nil] at deep fits
      have sequence := reads_items fields [PatternTag.struct.code, idWord id, lengthWord fields.length] rest
        (reads_fields fields bounds.2) one_le_length_encodeField (by omega : _ ≤ depth)
        (by omega)
      simp only [List.cons_append, List.nil_append, List.length_cons, List.length_nil,
        Nat.zero_add, Nat.reduceAdd] at sequence
      simp [encodeFields_eq, toNat_idWord bounds.1, sequence, -List.length_flatMap]
      omega
  | .enumDataVariant id index fields, bounds => by
      apply readsAt_of_tagged .enumData rfl
      intro depth deep fits rest
      simp only [Representable] at bounds
      simp only [encodePatternTree, encodeElems_eq, List.length_append, List.length_cons,
        List.length_nil] at deep fits
      have sequence := reads_items fields
        [PatternTag.enumData.code, idWord id, idWord index, lengthWord fields.length] rest
        (reads_trees fields bounds.2.2) one_le_length_encodePatternTree (by omega : _ ≤ depth)
        (by omega)
      simp only [List.cons_append, List.nil_append, List.length_cons, List.length_nil,
        Nat.zero_add, Nat.reduceAdd] at sequence
      simp [encodeElems_eq, toNat_idWord bounds.1, toNat_idWord bounds.2.1, sequence, -List.length_flatMap]
      omega
  | .enumStructVariant id index fields, bounds => by
      apply readsAt_of_tagged .enumStruct rfl
      intro depth deep fits rest
      simp only [Representable] at bounds
      simp only [encodePatternTree, encodeFields_eq, List.length_append, List.length_cons,
        List.length_nil] at deep fits
      have sequence := reads_items fields
        [PatternTag.enumStruct.code, idWord id, idWord index, lengthWord fields.length] rest
        (reads_fields fields bounds.2.2) one_le_length_encodeField (by omega : _ ≤ depth)
        (by omega)
      simp only [List.cons_append, List.nil_append, List.length_cons, List.length_nil,
        Nat.zero_add, Nat.reduceAdd] at sequence
      simp [encodeFields_eq, toNat_idWord bounds.1, toNat_idWord bounds.2.1, sequence, -List.length_flatMap]
      omega

theorem reads_trees : ∀ patterns : List AirPattern, RepresentableAll patterns →
    ∀ pattern ∈ patterns, ReadsAt decodePatternTree (encodePatternTree pattern) pattern
  | [], _ => fun pattern member => nomatch member
  | head :: rest, bounds => fun pattern member => by
      rcases List.mem_cons.mp member with first | later
      · rw [first]
        exact reads_tree head bounds.1
      · exact reads_trees rest bounds.2 pattern later

theorem reads_fields : ∀ fields : List (Nat × AirPattern), RepresentableFields fields → ∀ field ∈ fields,
      ReadsAt (fun depth => decodeField (decodePatternTree depth)) (encodeField field) field
  | [], _ => fun field member => nomatch member
  | (index, pattern) :: rest, bounds => fun field member => by
      rcases List.mem_cons.mp member with first | later
      · rw [first]
        exact reads_field bounds.1 (reads_tree pattern bounds.2.1)
      · exact reads_fields rest bounds.2.2 field later

end

def encodeArms (arms : List MatchArm) : List Word := arms.flatMap encode

theorem next_cons {arm : MatchArm} (representable : Representable arm.1) (rest : List Word)
    (remaining : Nat) (fits : (encode arm).length < 2 ^ 32) :
    MatchArmIterator.next { data := encode arm ++ rest, remaining := remaining + 1 } =
      some (some (arm, { data := rest, remaining })) := by
  obtain ⟨pattern, body⟩ := arm
  simp only [encode, List.length_cons] at fits
  have tree := reads_tree pattern representable (body :: (encodePatternTree pattern ++ rest)).length
    (by rw [List.length_cons, List.length_append]; omega) (by omega) rest
  simp only [MatchArmIterator.next, encode, List.cons_append, List.getElem?_cons_zero,
    Option.bind_eq_bind, Option.bind_some, List.drop_succ_cons, List.drop_zero, tree]
  have skipped : (body :: (encodePatternTree pattern ++ rest)).drop
      (1 + (encodePatternTree pattern).length) = rest := by
    rw [Nat.add_comm, List.drop_succ_cons, List.drop_left]
  rw [skipped]

theorem take_encodeArms (arms : List MatchArm) (representable : ∀ arm ∈ arms, Representable arm.1)
    (fits : (encodeArms arms).length < 2 ^ 32) (later : List Word) :
    MatchArmIterator.take (arms.length + 1) { data := encodeArms arms ++ later, remaining := arms.length } =
      some (arms, { data := later, remaining := 0 }) := by
  induction arms with
  | nil => rfl
  | cons arm arms ih =>
    simp only [encodeArms, List.flatMap_cons, List.length_append] at fits
    have here := next_cons (representable arm (.head _)) (encodeArms arms ++ later) arms.length (by omega)
    have others := ih (fun other member => representable other (.tail _ member)) (by simp only [encodeArms]; omega)
    have split : encodeArms (arm :: arms) ++ later = encode arm ++ (encodeArms arms ++ later) := by
      rw [encodeArms, List.flatMap_cons, List.append_assoc]
      rfl
    rw [List.length_cons, MatchArmIterator.take, split, here]
    simp [others]

theorem length_le_encodeArms (arms : List MatchArm) : arms.length ≤ (encodeArms arms).length := by
  apply count_le_flatMap
  simp only [encode, List.length_cons]
  omega

/-- The arms appended to the extra array are iterated as they were, to their last word and no
further. -/
theorem getMatchArms_addExtra {extra stored : List Word} {start : Word} {arms : List MatchArm}
    (representable : ∀ arm ∈ arms, Representable arm.1)
    (added : addExtra extra (encodeArms arms) = some (start, stored)) (later : List Word) :
    (getMatchArms (stored ++ later) start (lengthWord arms.length)).bind (MatchArmIterator.take (arms.length + 1)) =
      some (arms, { data := later, remaining := 0 }) := by
  unfold addExtra at added
  split at added
  · next inside =>
      obtain ⟨rfl, rfl⟩ := added
      have started : (BitVec.ofNat 32 extra.length).toNat = extra.length := by
        rw [BitVec.toNat_ofNat]
        omega
      have counted : (lengthWord arms.length).toNat = arms.length := by
        apply toNat_lengthWord
        have bound := length_le_encodeArms arms
        omega
      have within : extra.length ≤ (extra ++ encodeArms arms ++ later).length := by
        simp only [List.length_append]
        omega
      have slice : (extra ++ encodeArms arms ++ later).drop extra.length = encodeArms arms ++ later := by
        rw [List.append_assoc, List.drop_left]
      rw [getMatchArms, started, counted, if_pos within, slice, Option.bind_some]
      exact take_encodeArms arms representable (by omega) later
  · cases added

namespace AirCodecSample

/-- `Shape::Circle(-1, mut name @ (true, _)) => %5, _ => %6` -/
def arms : List MatchArm :=
  [(.enumDataVariant 3 1 [.int (-1), .bind 7 true (some (.tuple [.bool true, .wildcard]))], 5), (.wildcard, 6)]

theorem arms_representable : ∀ arm ∈ arms, Representable arm.1 := by
  intro arm member
  simp only [arms, List.mem_cons, List.not_mem_nil, or_false] at member
  rcases member with rfl | rfl <;> simp [Representable, RepresentableAll, RepresentableInner]

theorem arms_come_back : (getMatchArms ([9, 9] ++ encodeArms arms ++ [8]) 2 (lengthWord 2)).bind
        (MatchArmIterator.take 3) =
      some (arms, { data := [8], remaining := 0 }) :=
  getMatchArms_addExtra arms_representable
    (rfl : addExtra [9, 9] (encodeArms arms) = some (2, [9, 9] ++ encodeArms arms)) [8]

end AirCodecSample

end AirCodec

end Gruel
