import Gruel.CacheCore
import Gruel.Lib.Fibres
import Gruel.Lib.StableSort
import Gruel.Types

/-!
The signature fingerprint of a file: the items with what a signature holds of them, the bytes
that are hashed, and the public interface an importer sees.
-/

namespace Gruel

namespace Signature

open Cache (Bytes Text CacheKey Hasher leBytes)

inductive Visibility
  | priv
  | pub
  deriving DecidableEq

inductive ParamMode
  | normal
  | comptime
  deriving DecidableEq

inductive SelfReceiverKind
  | byValue
  | mutRef
  | ref
  deriving DecidableEq

mutual

inductive TypeExpr
  | named (name : Text)
  | unit
  | never
  | array (element : TypeExpr) (length : UInt64)
  | anonymousStruct (fields : List Field) (methods : List Method)
  | anonymousEnum (variants : List EnumVariant) (methods : List Method)
  | anonymousInterface (methods : List MethodSig)
  | typeCall (callee : Text) (args : List TypeExpr)
  | tuple (elems : List TypeExpr)

inductive Field
  | mk (name : Text) (ty : TypeExpr)

inductive Param
  | mk (isComptime : Bool) (mode : ParamMode) (name : Text) (ty : TypeExpr)

inductive Method
  | mk (isUnchecked : Bool) (name : Text) (receiver : Option SelfReceiverKind)
      (params : List Param) (returnType : Option TypeExpr)

inductive MethodSig
  | mk (isUnchecked : Bool) (name : Text) (receiver : SelfReceiverKind) (params : List Param)
      (returnType : Option TypeExpr)

inductive EnumVariantKind
  | unit
  | tuple (types : List TypeExpr)
  | fields (fields : List Field)

inductive EnumVariant
  | mk (name : Text) (kind : EnumVariantKind)

end

/-- Its arguments are identifiers or strings, which sema reads alike. -/
structure Directive where
  name : Text
  args : List Text

structure Declared (Member : Type) where
  visibility : Visibility
  member : Member

structure Function where
  visibility : Visibility
  isUnchecked : Bool
  name : Text
  params : List Param
  returnType : Option TypeExpr

structure StructDecl where
  directives : List Directive
  visibility : Visibility
  name : Text
  fields : List (Declared Field)
  methods : List (Declared Method)

structure EnumDecl where
  directives : List Directive
  visibility : Visibility
  name : Text
  variants : List EnumVariant
  methods : List (Declared Method)

structure InterfaceDecl where
  visibility : Visibility
  name : Text
  methods : List MethodSig

structure DeriveDecl where
  name : Text
  methods : List (Declared Method)

structure ConstDecl where
  visibility : Visibility
  name : Text
  ty : Option TypeExpr

structure ExternFn where
  name : Text
  params : List Param
  returnType : Option TypeExpr

structure LinkExternBlock where
  library : Text
  items : List ExternFn

inductive Item
  | function (decl : Function)
  | struct (decl : StructDecl)
  | enum (decl : EnumDecl)
  | interface (decl : InterfaceDecl)
  | derive (decl : DeriveDecl)
  | const (decl : ConstDecl)
  | linkExtern (block : LinkExternBlock)
  | error

def updateU64 (value : Nat) : Bytes := leBytes 8 value

def updateStr (text : Text) : Bytes := Framing.frame (leBytes 8) text.bytes

def flag (value : Bool) : Bytes := [if value then 1 else 0]

def encodeParamMode : ParamMode → Bytes
  | .normal => [0]
  | .comptime => [3]

def encodeSelfParam : SelfReceiverKind → Bytes
  | .byValue => [0]
  | .mutRef => [1]
  | .ref => [2]

def encodeReceiver : Option SelfReceiverKind → Bytes
  | none => [0]
  | some kind => [1] ++ encodeSelfParam kind

-- A list is written behind its length, which the callers write.
mutual

def encodeType : TypeExpr → Bytes
  | .named name => [1] ++ updateStr name
  | .unit => [2]
  | .never => [3]
  | .array element length => [4] ++ encodeType element ++ updateU64 length.toNat
  | .anonymousStruct fields methods =>
    [5] ++ updateU64 fields.length ++ encodeFields fields ++ updateU64 methods.length ++ encodeMethods methods
  | .anonymousEnum variants methods =>
    [6] ++ updateU64 variants.length ++ encodeVariants variants ++ updateU64 methods.length ++ encodeMethods methods
  | .anonymousInterface methods => [7] ++ updateU64 methods.length ++ encodeMethodSigs methods
  | .typeCall callee args =>
    [8] ++ updateStr callee ++ updateU64 args.length ++ encodeTypes args
  | .tuple elems => [9] ++ updateU64 elems.length ++ encodeTypes elems

def encodeTypes : List TypeExpr → Bytes
  | [] => []
  | ty :: types => encodeType ty ++ encodeTypes types

def encodeTypeOpt : Option TypeExpr → Bytes
  | none => [0]
  | some ty => [1] ++ encodeType ty

/-- `encode_field`, `encode_anon_field` and `encode_variant_field`. -/
def encodeField : Field → Bytes
  | .mk name ty => updateStr name ++ encodeType ty

def encodeFields : List Field → Bytes
  | [] => []
  | field :: fields => encodeField field ++ encodeFields fields

def encodeParam : Param → Bytes
  | .mk isComptime mode name ty =>
    flag isComptime ++ encodeParamMode mode ++ updateStr name ++ encodeType ty

def encodeParams : List Param → Bytes
  | [] => []
  | param :: params => encodeParam param ++ encodeParams params

/-- `encode_method_sig_from_method`. -/
def encodeMethod : Method → Bytes
  | .mk isUnchecked name receiver params returnType =>
    updateStr name ++ encodeReceiver receiver ++ updateU64 params.length ++
      encodeParams params ++ encodeTypeOpt returnType ++ flag isUnchecked

def encodeMethods : List Method → Bytes
  | [] => []
  | method :: methods => encodeMethod method ++ encodeMethods methods

def encodeMethodSig : MethodSig → Bytes
  | .mk isUnchecked name receiver params returnType =>
    updateStr name ++ encodeSelfParam receiver ++ updateU64 params.length ++
      encodeParams params ++ encodeTypeOpt returnType ++ flag isUnchecked

def encodeMethodSigs : List MethodSig → Bytes
  | [] => []
  | method :: methods => encodeMethodSig method ++ encodeMethodSigs methods

def encodeVariantKind : EnumVariantKind → Bytes
  | .unit => [0]
  | .tuple types => [1] ++ updateU64 types.length ++ encodeTypes types
  | .fields fields => [2] ++ updateU64 fields.length ++ encodeFields fields

def encodeVariant : EnumVariant → Bytes
  | .mk name kind => updateStr name ++ encodeVariantKind kind

def encodeVariants : List EnumVariant → Bytes
  | [] => []
  | variant :: variants => encodeVariant variant ++ encodeVariants variants

end

def isPub (visibility : Visibility) : Bool := visibility = .pub

def pubMembers {Member : Type} (members : List (Declared Member)) : List Member :=
  (members.filter fun declared => isPub declared.visibility).map Declared.member

def encodeFunction (decl : Function) : Bytes :=
  [1] ++ updateStr decl.name ++ flag decl.isUnchecked ++ updateU64 decl.params.length ++
    encodeParams decl.params ++ encodeTypeOpt decl.returnType

def encodeStruct (decl : StructDecl) : Bytes :=
  [2] ++ updateStr decl.name ++ updateU64 (pubMembers decl.fields).length ++
    encodeFields (pubMembers decl.fields) ++ updateU64 (pubMembers decl.methods).length ++
    encodeMethods (pubMembers decl.methods)

def encodeEnum (decl : EnumDecl) : Bytes :=
  [3] ++ updateStr decl.name ++ updateU64 decl.variants.length ++
    encodeVariants decl.variants ++ updateU64 (pubMembers decl.methods).length ++
    encodeMethods (pubMembers decl.methods)

def encodeInterface (decl : InterfaceDecl) : Bytes :=
  [4] ++ updateStr decl.name ++ updateU64 decl.methods.length ++ encodeMethodSigs decl.methods

def encodeDerive (decl : DeriveDecl) : Bytes :=
  [5] ++ updateStr decl.name ++ updateU64 decl.methods.length ++ encodeMethods (decl.methods.map Declared.member)

def encodeConst (decl : ConstDecl) : Bytes := [6] ++ updateStr decl.name ++ encodeTypeOpt decl.ty

def encodeExternFn (item : ExternFn) : Bytes :=
  updateStr item.name ++ updateU64 item.params.length ++ encodeParams item.params ++ encodeTypeOpt item.returnType

def encodeLinkExtern (block : LinkExternBlock) : Bytes :=
  [7] ++ block.library.bytes ++ [0] ++ block.items.flatMap encodeExternFn

def encodeItem : Item → Bytes
  | .function decl => encodeFunction decl
  | .struct decl => encodeStruct decl
  | .enum decl => encodeEnum decl
  | .interface decl => encodeInterface decl
  | .derive decl => encodeDerive decl
  | .const decl => encodeConst decl
  | .linkExtern block => encodeLinkExtern block
  | .error => []

def pubName : Item → Option Text
  | .function decl => if isPub decl.visibility then some decl.name else none
  | .struct decl => if isPub decl.visibility then some decl.name else none
  | .enum decl => if isPub decl.visibility then some decl.name else none
  -- Whatever its visibility.
  | .interface decl => some decl.name
  | .const decl => if isPub decl.visibility then some decl.name else none
  | .derive decl => some decl.name
  | .linkExtern _ | .error => none

def pubItems (items : List Item) : List (Text × Item) :=
  items.filterMap fun item => (pubName item).map (·, item)

def sortedPubItems (items : List Item) : List (Text × Item) :=
  StableSort.sortBy (fun entry => entry.1.bytes) (pubItems items)

def sigFpVersion : Nat := 2

def sigStream (items : List Item) : Bytes :=
  leBytes 4 sigFpVersion ++ updateU64 (sortedPubItems items).length ++
    (sortedPubItems items).flatMap fun entry => encodeItem entry.2

def computeSigFp (blake3 : Bytes → CacheKey) (items : List Item) : CacheKey :=
  (({} : Hasher).update (sigStream items)).finalize blake3

def Short {Element : Type} (list : List Element) : Prop := list.length < 2 ^ 64

-- The lists inside are short.
mutual

def TypeExpr.Fits : TypeExpr → Prop
  | .named _ | .unit | .never => True
  | .array element _ => element.Fits
  | .anonymousStruct fields methods =>
    Short fields ∧ FieldsFit fields ∧ Short methods ∧ MethodsFit methods
  | .anonymousEnum variants methods =>
    Short variants ∧ VariantsFit variants ∧ Short methods ∧ MethodsFit methods
  | .anonymousInterface methods => Short methods ∧ MethodSigsFit methods
  | .typeCall _ args => Short args ∧ TypesFit args
  | .tuple elems => Short elems ∧ TypesFit elems

def TypesFit : List TypeExpr → Prop
  | [] => True
  | ty :: types => ty.Fits ∧ TypesFit types

def TypeOptFits : Option TypeExpr → Prop
  | none => True
  | some ty => ty.Fits

def Field.Fits : Field → Prop
  | .mk _ ty => ty.Fits

def FieldsFit : List Field → Prop
  | [] => True
  | field :: fields => field.Fits ∧ FieldsFit fields

def Param.Fits : Param → Prop
  | .mk _ _ _ ty => ty.Fits

def ParamsFit : List Param → Prop
  | [] => True
  | param :: params => param.Fits ∧ ParamsFit params

def Method.Fits : Method → Prop
  | .mk _ _ _ params returnType => Short params ∧ ParamsFit params ∧ TypeOptFits returnType

def MethodsFit : List Method → Prop
  | [] => True
  | method :: methods => method.Fits ∧ MethodsFit methods

def MethodSig.Fits : MethodSig → Prop
  | .mk _ _ _ params returnType => Short params ∧ ParamsFit params ∧ TypeOptFits returnType

def MethodSigsFit : List MethodSig → Prop
  | [] => True
  | method :: methods => method.Fits ∧ MethodSigsFit methods

def EnumVariantKind.Fits : EnumVariantKind → Prop
  | .unit => True
  | .tuple types => Short types ∧ TypesFit types
  | .fields fields => Short fields ∧ FieldsFit fields

def EnumVariant.Fits : EnumVariant → Prop
  | .mk _ kind => kind.Fits

def VariantsFit : List EnumVariant → Prop
  | [] => True
  | variant :: variants => variant.Fits ∧ VariantsFit variants

end

def Item.Fits : Item → Prop
  | .function decl =>
    Short decl.params ∧ ParamsFit decl.params ∧ TypeOptFits decl.returnType
  | .struct decl =>
    Short decl.fields ∧ (∀ declared ∈ decl.fields, declared.member.Fits) ∧
      Short decl.methods ∧ ∀ declared ∈ decl.methods, declared.member.Fits
  | .enum decl =>
    Short decl.variants ∧ VariantsFit decl.variants ∧
      Short decl.methods ∧ ∀ declared ∈ decl.methods, declared.member.Fits
  | .interface decl => Short decl.methods ∧ MethodSigsFit decl.methods
  | .derive decl => Short decl.methods ∧ ∀ declared ∈ decl.methods, declared.member.Fits
  | .const decl => TypeOptFits decl.ty
  | .linkExtern _ | .error => True

structure Ast where
  items : List Item
  short : Short items
  fits : ∀ item ∈ items, item.Fits

def ascii (chars : List Char) : Bytes := chars.map fun char => UInt8.ofNat char.toNat

inductive PublicItem
  | function (name : Text) (isUnchecked : Bool) (params : List Param) (returnType : Option TypeExpr)
  | struct (name : Text) (posture : Posture) (derives : Text → Bool) (fields : List Field) (methods : List Method)
  | enum (name : Text) (posture : Posture) (derives : Text → Bool)
      (variants : List EnumVariant) (methods : List Method)
  | interface (name : Text) (methods : List MethodSig)
  | derive (name : Text) (methods : List (Declared Method))
  | const (name : Text) (ty : Option TypeExpr)

namespace PublicItem

def written : PublicItem → PublicItem
  | .function name isUnchecked params returnType => .function name isUnchecked params returnType
  | .struct name _ _ fields methods => .struct name .affine (fun _ => false) fields methods
  | .enum name _ _ variants methods => .enum name .affine (fun _ => false) variants methods
  | .interface name methods => .interface name methods
  | .derive name methods => .derive name (methods.map fun declared => ⟨.pub, declared.member⟩)
  | .const name ty => .const name ty

end PublicItem

end Signature

end Gruel
