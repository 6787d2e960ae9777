import ItemSchema.Codec.Encoding
import ItemSchema.Expression.Condition
import ItemSchema.Expression.Legality
import ItemSchema.Schema.View

/-! Checked comparisons: the path leads to an attribute of the view, the operator applies to it, and
the operands are encoded as the attribute would be. -/
namespace ItemSchema

/-- The elements of a list or a set. -/
def Value.elements? : Value → Option (List Value)
  | .list items => some items
  | .set members => some members
  | _ => none

def invalidOperand (p : Path) (fault : OperandFault) : Except Error α :=
  .error (.invalidOperand (.path p) fault)

/-- The two bounds of an interval, in the given order. -/
def encodeBounds (p : Path) (a : Attribute) (v : Value) : Except Error (List Wire) :=
  match v.elements? with
  | none => invalidOperand p (.notBounds v.kind)
  | some bounds =>
    if bounds.length = 2 then bounds.mapM (encodeAt p a)
    else invalidOperand p (.boundCount bounds.length)

def encodeCandidates (p : Path) (a : Attribute) (v : Value) : Except Error (List Wire) :=
  match v.elements? with
  | none => invalidOperand p (.notCandidates v.kind)
  | some candidates =>
    if Operator.isIn.admitsCount candidates.length then candidates.mapM (encodeAt p a)
    else invalidOperand p (.candidateCount candidates.length)

/-- What a set or a list is asked to hold is encoded as a member, what a text is asked to hold as a
text. -/
def encodeContained (p : Path) (a : Attribute) (v : Value) : Except Error Wire :=
  match a with
  | .set of => encodeMember p of v
  | .list (some item) => encodeAt p item v
  | .list none => .error (.missingItemSchema p)
  | _ => encodeScalar p .string v

def encodeTagName (p : Path) (v : Value) : Except Error Wire :=
  match v with
  | .string name =>
    match WireTag.ofName? name with
    | some tag => .ok (.s tag.name)
    | none => .error (.typeMismatch (.path p) .tagName (.text name))
  | _ => mismatch p .typeTag v

def encodeSize (p : Path) (v : Value) : Except Error Wire :=
  match v with
  | .number _ => encodeScalar p .number v
  | .bigint _ => encodeScalar p .bigint v
  | _ => mismatch p (.scalar .number) v

/-- The operands of a comparison of the attribute at a path. -/
def encodeOperands (p : Path) (a : Attribute) (operator : Operator) (v : Value) :
    Except Error (List Wire) :=
  match operator with
  | .compare _ => ([·]) <$> encodeAt p a v
  | .beginsWith =>
    match v with
    | .string s => .ok [.s s]
    | _ => mismatch p .leadingText v
  | .between => encodeBounds p a v
  | .isIn => encodeCandidates p a v
  | .exists | .notExists => if v.isNull then .ok [] else invalidOperand p (.takesNoValue operator)
  | .attributeType => ([·]) <$> encodeTagName p v
  | .contains => ([·]) <$> encodeContained p a v
  | .size _ => ([·]) <$> encodeSize p v

/-- A comparison of an attribute that the view shows. -/
def SchemaView.compare (view : SchemaView) (p : Path) (operator : Operator) (v : Value) :
    Except Error Condition := do
  let a ← view.resolve p
  if !a.kind.admits operator then throw (.illegalOperator p operator a.kind)
  return .comparison p operator (← encodeOperands p a operator v)

end ItemSchema
