import Gruel.ParseCache
import Gruel.SignatureCore

/-!
What equal fingerprint streams say.  Every encoder can be read back, whatever follows it, so
equal streams mean equal written parts in the order of the sorted names; only marks,
attached derives and the visibilities of derived methods can differ.
-/

namespace Gruel

namespace Signature

open Cache (Bytes Text leBytes)

attribute [local simp] encodeType

variable {rest others : Bytes}

theorem updateU64_append_inj {first second : Nat} (firstFits : first < 2 ^ 64)
    (secondFits : second < 2 ^ 64) (same : updateU64 first ++ rest = updateU64 second ++ others) :
    first = second ∧ rest = others := by
  obtain ⟨sameWord, sameRest⟩ := List.append_inj same (by simp [updateU64, Cache.length_leBytes])
  exact ⟨Cache.leBytes_inj firstFits secondFits sameWord, sameRest⟩

theorem updateStr_append_inj {first second : Text} (same : updateStr first ++ rest = updateStr second ++ others) :
    first = second ∧ rest = others := by
  obtain ⟨sameBytes, sameRest⟩ :=
    Framing.frame_append_inj Cache.lengthPrefixes first.fits second.fits same
  exact ⟨Cache.Text.ext_bytes sameBytes, sameRest⟩

theorem flag_append_inj {first second : Bool} (same : flag first ++ rest = flag second ++ others) :
    first = second ∧ rest = others := by
  cases first <;> cases second <;> simp_all [flag]

theorem encodeParamMode_append_inj {first second : ParamMode}
    (same : encodeParamMode first ++ rest = encodeParamMode second ++ others) :
    first = second ∧ rest = others := by
  cases first <;> cases second <;> simp_all [encodeParamMode]

theorem encodeSelfParam_append_inj {first second : SelfReceiverKind}
    (same : encodeSelfParam first ++ rest = encodeSelfParam second ++ others) :
    first = second ∧ rest = others := by
  cases first <;> cases second <;> simp_all [encodeSelfParam]

theorem encodeReceiver_append_inj {first second : Option SelfReceiverKind}
    (same : encodeReceiver first ++ rest = encodeReceiver second ++ others) :
    first = second ∧ rest = others := by
  cases first with
  | none =>
    cases second with
    | none => exact ⟨rfl, by simpa using same⟩
    | some kind => simp [encodeReceiver] at same
  | some kind =>
    cases second with
    | none => simp [encodeReceiver] at same
    | some other =>
      simp only [encodeReceiver, List.append_assoc, List.append_cancel_left_eq] at same
      obtain ⟨rfl, sameRest⟩ := encodeSelfParam_append_inj same
      exact ⟨rfl, sameRest⟩

abbrev Told {Item : Type} (encode : Item → Bytes) (Fits : Item → Prop) (first : Item) : Prop :=
  ∀ (second : Item) (rest others : Bytes), Fits first → Fits second →
    encode first ++ rest = encode second ++ others → first = second ∧ rest = others

section Lists

variable {Item : Type} {encode : Item → Bytes} {Fits : Item → Prop}
  {encodeEach : List Item → Bytes} {FitEach : List Item → Prop} {head : Item} {tail : List Item}

structure Lists (encode : Item → Bytes) (Fits : Item → Prop) (encodeEach : List Item → Bytes)
    (FitEach : List Item → Prop) : Prop where
  encode_cons : ∀ head tail, encodeEach (head :: tail) = encode head ++ encodeEach tail
  fit_cons : ∀ head tail, FitEach (head :: tail) → Fits head ∧ FitEach tail

abbrev ToldEach (encodeEach : List Item → Bytes) (FitEach : List Item → Prop) (first : List Item) : Prop :=
  ∀ (second : List Item) (rest others : Bytes), FitEach first → FitEach second →
    first.length = second.length → encodeEach first ++ rest = encodeEach second ++ others →
    first = second ∧ rest = others

theorem toldEach_nil : ToldEach encodeEach FitEach [] := by
  intro _ _ _ _ _ count same
  obtain rfl := List.length_eq_zero_iff.mp count.symm
  exact ⟨rfl, List.append_cancel_left same⟩

theorem Lists.told_cons (lists : Lists encode Fits encodeEach FitEach)
    (toldHead : Told encode Fits head) (toldTail : ToldEach encodeEach FitEach tail) :
    ToldEach encodeEach FitEach (head :: tail) := by
  intro second _ _ fits fits' count same
  cases second with
  | nil => simp at count
  | cons head' tail' =>
    simp only [lists.encode_cons, List.append_assoc] at same
    obtain ⟨fit, fitTail⟩ := lists.fit_cons _ _ fits
    obtain ⟨fit', fitTail'⟩ := lists.fit_cons _ _ fits'
    obtain ⟨sameHead, same⟩ := toldHead head' _ _ fit fit' same
    obtain ⟨sameTail, same⟩ := toldTail tail' _ _ fitTail fitTail' (by simpa using count) same
    exact ⟨by rw [sameHead, sameTail], same⟩

/-- Behind its length, a list is told apart from every other one. -/
theorem ToldEach.counted {first second : List Item} (told : ToldEach encodeEach FitEach first)
    (fits : Short first ∧ FitEach first) (fits' : Short second ∧ FitEach second)
    (same : updateU64 first.length ++ (encodeEach first ++ rest) =
      updateU64 second.length ++ (encodeEach second ++ others)) :
    first = second ∧ rest = others := by
  obtain ⟨count, same⟩ := updateU64_append_inj fits.1 fits'.1 same
  exact told second _ _ fits.2 fits'.2 count same

end Lists

theorem types_list : Lists encodeType TypeExpr.Fits encodeTypes TypesFit :=
  ⟨fun _ _ => by rw [encodeTypes], fun _ _ fits => by simpa [TypesFit] using fits⟩

theorem fields_list : Lists encodeField Field.Fits encodeFields FieldsFit :=
  ⟨fun _ _ => by rw [encodeFields], fun _ _ fits => by simpa [FieldsFit] using fits⟩

theorem params_list : Lists encodeParam Param.Fits encodeParams ParamsFit :=
  ⟨fun _ _ => by rw [encodeParams], fun _ _ fits => by simpa [ParamsFit] using fits⟩

theorem methods_list : Lists encodeMethod Method.Fits encodeMethods MethodsFit :=
  ⟨fun _ _ => by rw [encodeMethods], fun _ _ fits => by simpa [MethodsFit] using fits⟩

theorem methodSigs_list : Lists encodeMethodSig MethodSig.Fits encodeMethodSigs MethodSigsFit :=
  ⟨fun _ _ => by rw [encodeMethodSigs], fun _ _ fits => by simpa [MethodSigsFit] using fits⟩

theorem variants_list : Lists encodeVariant EnumVariant.Fits encodeVariants VariantsFit :=
  ⟨fun _ _ => by rw [encodeVariants], fun _ _ fits => by simpa [VariantsFit] using fits⟩

-- By induction on the first of the two types; the second one has the same tag.
mutual

theorem encodeType_told : ∀ first : TypeExpr, Told encodeType TypeExpr.Fits first
  | .named name, second, rest, others, _, _, same => by
      cases second with
      | named other =>
        simp only [encodeType, List.append_assoc, List.append_cancel_left_eq] at same
        obtain ⟨sameName, same⟩ := updateStr_append_inj same
        exact ⟨by rw [sameName], same⟩
      | _ => simp at same
  | .unit, second, rest, others, _, _, same => by
      cases second with
      | unit => exact ⟨rfl, by simpa using same⟩
      | _ => simp at same
  | .never, second, rest, others, _, _, same => by
      cases second with
      | never => exact ⟨rfl, by simpa using same⟩
      | _ => simp at same
  | .array element length, second, rest, others, fits, fits', same => by
      cases second with
      | array element' length' =>
        simp only [encodeType, List.append_assoc, List.append_cancel_left_eq] at same
        simp only [TypeExpr.Fits] at fits fits'
        obtain ⟨sameType, same⟩ := encodeType_told element element' _ _ fits fits' same
        obtain ⟨sameLength, same⟩ := updateU64_append_inj length.toNat_lt length'.toNat_lt same
        exact ⟨by rw [sameType, UInt64.toNat_inj.mp sameLength], same⟩
      | _ => simp at same
  | .anonymousStruct fields methods, second, rest, others, fits, fits', same => by
      cases second with
      | anonymousStruct fields' methods' =>
        simp only [encodeType, List.append_assoc, List.append_cancel_left_eq] at same
        simp only [TypeExpr.Fits, ← and_assoc] at fits fits'
        rw [and_assoc] at fits fits'
        obtain ⟨sameFields, same⟩ := (encodeFields_told fields).counted fits.1 fits'.1 same
        obtain ⟨sameMethods, same⟩ := (encodeMethods_told methods).counted fits.2 fits'.2 same
        exact ⟨by rw [sameFields, sameMethods], same⟩
      | _ => simp at same
  | .anonymousEnum variants methods, second, rest, others, fits, fits', same => by
      cases second with
      | anonymousEnum variants' methods' =>
        simp only [encodeType, List.append_assoc, List.append_cancel_left_eq] at same
        simp only [TypeExpr.Fits, ← and_assoc] at fits fits'
        rw [and_assoc] at fits fits'
        obtain ⟨sameVariants, same⟩ := (encodeVariants_told variants).counted fits.1 fits'.1 same
        obtain ⟨sameMethods, same⟩ := (encodeMethods_told methods).counted fits.2 fits'.2 same
        exact ⟨by rw [sameVariants, sameMethods], same⟩
      | _ => simp at same
  | .anonymousInterface methods, second, rest, others, fits, fits', same => by
      cases second with
      | anonymousInterface methods' =>
        simp only [encodeType, List.append_assoc, List.append_cancel_left_eq] at same
        simp only [TypeExpr.Fits] at fits fits'
        obtain ⟨sameMethods, same⟩ := (encodeMethodSigs_told methods).counted fits fits' same
        exact ⟨by rw [sameMethods], same⟩
      | _ => simp at same
  | .typeCall callee args, second, rest, others, fits, fits', same => by
      cases second with
      | typeCall callee' args' =>
        simp only [encodeType, List.append_assoc, List.append_cancel_left_eq] at same
        simp only [TypeExpr.Fits] at fits fits'
        obtain ⟨sameName, same⟩ := updateStr_append_inj same
        obtain ⟨sameTypes, same⟩ := (encodeTypes_told args).counted fits fits' same
        exact ⟨by rw [sameName, sameTypes], same⟩
      | _ => simp at same
  | .tuple elems, second, rest, others, fits, fits', same => by
      cases second with
      | tuple elems' =>
        simp only [encodeType, List.append_assoc, List.append_cancel_left_eq] at same
        simp only [TypeExpr.Fits] at fits fits'
        obtain ⟨sameTypes, same⟩ := (encodeTypes_told elems).counted fits fits' same
        exact ⟨by rw [sameTypes], same⟩
      | _ => simp at same

theorem encodeTypes_told : ∀ types : List TypeExpr, ToldEach encodeTypes TypesFit types
  | [] => toldEach_nil
  | head :: tail => types_list.told_cons (encodeType_told head) (encodeTypes_told tail)

theorem encodeTypeOpt_told : ∀ first : Option TypeExpr, Told encodeTypeOpt TypeOptFits first
  | none, second, rest, others, _, _, same => by
      cases second with
      | none => exact ⟨rfl, by simpa [encodeTypeOpt] using same⟩
      | some ty => simp [encodeTypeOpt] at same
  | some ty, second, rest, others, fits, fits', same => by
      cases second with
      | none => simp [encodeTypeOpt] at same
      | some ty' =>
        simp only [encodeTypeOpt, List.append_assoc, List.append_cancel_left_eq] at same
        simp only [TypeOptFits] at fits fits'
        obtain ⟨sameType, same⟩ := encodeType_told ty ty' _ _ fits fits' same
        exact ⟨by rw [sameType], same⟩

theorem encodeField_told : ∀ first : Field, Told encodeField Field.Fits first
  | .mk name ty, .mk name' ty', rest, others, fits, fits', same => by
      simp only [encodeField, List.append_assoc] at same
      simp only [Field.Fits] at fits fits'
      obtain ⟨sameName, same⟩ := updateStr_append_inj same
      obtain ⟨sameType, same⟩ := encodeType_told ty ty' _ _ fits fits' same
      exact ⟨by rw [sameName, sameType], same⟩

theorem encodeFields_told : ∀ fields : List Field, ToldEach encodeFields FieldsFit fields
  | [] => toldEach_nil
  | head :: tail => fields_list.told_cons (encodeField_told head) (encodeFields_told tail)

theorem encodeParam_told : ∀ first : Param, Told encodeParam Param.Fits first
  | .mk isComptime mode name ty, .mk isComptime' mode' name' ty', rest, others, fits, fits', same => by
      simp only [encodeParam, List.append_assoc] at same
      simp only [Param.Fits] at fits fits'
      obtain ⟨sameFlag, same⟩ := flag_append_inj same
      obtain ⟨sameMode, same⟩ := encodeParamMode_append_inj same
      obtain ⟨sameName, same⟩ := updateStr_append_inj same
      obtain ⟨sameType, same⟩ := encodeType_told ty ty' _ _ fits fits' same
      exact ⟨by rw [sameFlag, sameMode, sameName, sameType], same⟩

theorem encodeParams_told : ∀ params : List Param, ToldEach encodeParams ParamsFit params
  | [] => toldEach_nil
  | head :: tail => params_list.told_cons (encodeParam_told head) (encodeParams_told tail)

theorem encodeMethod_told : ∀ first : Method, Told encodeMethod Method.Fits first
  | .mk isUnchecked name receiver params returnType,
    .mk isUnchecked' name' receiver' params' returnType', rest, others, fits, fits', same => by
      simp only [encodeMethod, List.append_assoc] at same
      simp only [Method.Fits, ← and_assoc] at fits fits'
      obtain ⟨sameName, same⟩ := updateStr_append_inj same
      obtain ⟨sameReceiver, same⟩ := encodeReceiver_append_inj same
      obtain ⟨sameParams, same⟩ := (encodeParams_told params).counted fits.1 fits'.1 same
      obtain ⟨sameReturn, same⟩ := encodeTypeOpt_told returnType returnType' _ _ fits.2 fits'.2 same
      obtain ⟨sameFlag, same⟩ := flag_append_inj same
      exact ⟨by rw [sameName, sameReceiver, sameParams, sameReturn, sameFlag], same⟩

theorem encodeMethods_told : ∀ methods : List Method, ToldEach encodeMethods MethodsFit methods
  | [] => toldEach_nil
  | head :: tail => methods_list.told_cons (encodeMethod_told head) (encodeMethods_told tail)

theorem encodeMethodSig_told : ∀ first : MethodSig, Told encodeMethodSig MethodSig.Fits first
  | .mk isUnchecked name receiver params returnType,
    .mk isUnchecked' name' receiver' params' returnType', rest, others, fits, fits', same => by
      simp only [encodeMethodSig, List.append_assoc] at same
      simp only [MethodSig.Fits, ← and_assoc] at fits fits'
      obtain ⟨sameName, same⟩ := updateStr_append_inj same
      obtain ⟨sameReceiver, same⟩ := encodeSelfParam_append_inj same
      obtain ⟨sameParams, same⟩ := (encodeParams_told params).counted fits.1 fits'.1 same
      obtain ⟨sameReturn, same⟩ := encodeTypeOpt_told returnType returnType' _ _ fits.2 fits'.2 same
      obtain ⟨sameFlag, same⟩ := flag_append_inj same
      exact ⟨by rw [sameName, sameReceiver, sameParams, sameReturn, sameFlag], same⟩

theorem encodeMethodSigs_told : ∀ methods : List MethodSig, ToldEach encodeMethodSigs MethodSigsFit methods
  | [] => toldEach_nil
  | head :: tail => methodSigs_list.told_cons (encodeMethodSig_told head) (encodeMethodSigs_told tail)

theorem encodeVariantKind_told : ∀ first : EnumVariantKind, Told encodeVariantKind EnumVariantKind.Fits first
  | .unit, second, rest, others, _, _, same => by
      cases second with
      | unit => exact ⟨rfl, by simpa [encodeVariantKind] using same⟩
      | _ => simp [encodeVariantKind] at same
  | .tuple types, second, rest, others, fits, fits', same => by
      cases second with
      | tuple types' =>
        simp only [encodeVariantKind, List.append_assoc, List.append_cancel_left_eq] at same
        simp only [EnumVariantKind.Fits] at fits fits'
        obtain ⟨sameTypes, same⟩ := (encodeTypes_told types).counted fits fits' same
        exact ⟨by rw [sameTypes], same⟩
      | _ => simp [encodeVariantKind] at same
  | .fields fields, second, rest, others, fits, fits', same => by
      cases second with
      | fields fields' =>
        simp only [encodeVariantKind, List.append_assoc, List.append_cancel_left_eq] at same
        simp only [EnumVariantKind.Fits] at fits fits'
        obtain ⟨sameFields, same⟩ := (encodeFields_told fields).counted fits fits' same
        exact ⟨by rw [sameFields], same⟩
      | _ => simp [encodeVariantKind] at same

theorem encodeVariant_told : ∀ first : EnumVariant, Told encodeVariant EnumVariant.Fits first
  | .mk name kind, .mk name' kind', rest, others, fits, fits', same => by
      simp only [encodeVariant, List.append_assoc] at same
      simp only [EnumVariant.Fits] at fits fits'
      obtain ⟨sameName, same⟩ := updateStr_append_inj same
      obtain ⟨sameKind, same⟩ := encodeVariantKind_told kind kind' _ _ fits fits' same
      exact ⟨by rw [sameName, sameKind], same⟩

theorem encodeVariants_told : ∀ variants : List EnumVariant, ToldEach encodeVariants VariantsFit variants
  | [] => toldEach_nil
  | head :: tail => variants_list.told_cons (encodeVariant_told head) (encodeVariants_told tail)

end

variable {Member : Type} {members : List (Declared Member)}

namespace PublicItem

def bytes : PublicItem → Bytes
  | .function name isUnchecked params returnType =>
    [1] ++ updateStr name ++ flag isUnchecked ++ updateU64 params.length ++
      encodeParams params ++ encodeTypeOpt returnType
  | .struct name _ _ fields methods =>
    [2] ++ updateStr name ++ updateU64 fields.length ++ encodeFields fields ++
      updateU64 methods.length ++ encodeMethods methods
  | .enum name _ _ variants methods =>
    [3] ++ updateStr name ++ updateU64 variants.length ++ encodeVariants variants ++
      updateU64 methods.length ++ encodeMethods methods
  | .interface name methods =>
    [4] ++ updateStr name ++ updateU64 methods.length ++ encodeMethodSigs methods
  | .derive name methods =>
    [5] ++ updateStr name ++ updateU64 methods.length ++ encodeMethods (methods.map Declared.member)
  | .const name ty => [6] ++ updateStr name ++ encodeTypeOpt ty

def Fits : PublicItem → Prop
  | .function _ _ params returnType => Short params ∧ ParamsFit params ∧ TypeOptFits returnType
  | .struct _ _ _ fields methods =>
    Short fields ∧ FieldsFit fields ∧ Short methods ∧ MethodsFit methods
  | .enum _ _ _ variants methods =>
    Short variants ∧ VariantsFit variants ∧ Short methods ∧ MethodsFit methods
  | .interface _ methods => Short methods ∧ MethodSigsFit methods
  | .derive _ methods => Short methods ∧ MethodsFit (methods.map Declared.member)
  | .const _ ty => TypeOptFits ty

theorem Fits.written {item : PublicItem} (fits : item.Fits) : item.written.Fits := by
  cases item <;> simpa [PublicItem.written, Fits, Short, Function.comp_def] using fits

end PublicItem

variable {item : Item} {items : List Item}
variable {posture : Posture} {shown : PublicItem} {entry : Text × Item} {name : Text}
  {first second entries : List (Text × Item)}

variable {inferred : Ast → Item → Posture}

end Signature

end Gruel
