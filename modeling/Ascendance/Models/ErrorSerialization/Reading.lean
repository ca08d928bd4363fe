import Ascendance.Models.ErrorSerialization.Serializer

/-!
# What a tree has to show

The tree of an error is described place by place. At each place stands what was read there, or
a placeholder; the texts of a node are cut after their redaction, and where something is left
out the node is marked.
-/

namespace Ascendance.ErrorSerialization

open Ascendance.Core

variable {ι : Type*}

namespace SerializedError

end SerializedError

/-- The value that is serialized at the end of a step; none if it cannot be read. -/
def Value.inside (w : World ι) (place : Place) (value : Value ι) (step : Step) :
    Option (Value ι) :=
  match value with
  | .object id =>
    match step with
    | .cause => some (readProperty w ⟨place, .children⟩ id "cause")
    | .error index =>
      readArrayValue w ⟨place, .children⟩ (readProperty w ⟨place, .children⟩ id "errors") index
  | _ => none

/-- The value at the end of a way that starts at a place. -/
def valueFrom (w : World ι) (place : Place) (value : Option (Value ι)) : Place → Option (Value ι)
  | [] => value
  | step :: rest => valueFrom w (place ++ [step]) (value.bind (·.inside w place step)) rest

/-- The value at a place of what was thrown. -/
def valueAt (w : World ι) (error : Value ι) (place : Place) : Option (Value ι) :=
  valueFrom w [] (some error) place

/-- Reading along two paths is reading along the one after the other. -/
private theorem valueFrom_append (w : World ι) (place : Place) (value : Option (Value ι))
    (p q : Place) :
    valueFrom w place value (p ++ q) = valueFrom w (place ++ p) (valueFrom w place value p) q := by
  induction p generalizing place value with
  | nil => rw [List.append_nil, List.nil_append, valueFrom]
  | cons step p ih => rw [List.cons_append, valueFrom, ih, valueFrom, List.append_assoc,
      List.singleton_append]

/-- The value one step further is read inside the value before it. -/
theorem valueAt_concat (w : World ι) (error : Value ι) (place : Place) (step : Step) :
    valueAt w error (place ++ [step]) = (valueAt w error place).bind (·.inside w place step) := by
  rw [valueAt, valueFrom_append, List.nil_append]
  rfl

/-- The object that a value is. -/
def Value.identity : Value ι → Option ι
  | .object id => some id
  | _ => none

/-- The objects on the way to a place. -/
def objectsAbove (w : World ι) (error : Value ι) (place : Place) : List ι :=
  (List.range place.length).filterMap fun n => (valueAt w error (place.take n)).bind Value.identity

/-- The objects above the next place are those above the last one and the object there. -/
theorem mem_objectsAbove_concat {w : World ι} {error : Value ι} {place : Place} {step : Step}
    {object id : ι} (h : valueAt w error place = some (.object object)) :
    id ∈ objectsAbove w error (place ++ [step]) ↔
      id = object ∨ id ∈ objectsAbove w error place := by
  have hbefore : (List.range place.length).filterMap
      (fun n => (valueAt w error ((place ++ [step]).take n)).bind Value.identity) =
        objectsAbove w error place := by
    refine List.filterMap_congr fun n hn => ?_
    rw [List.take_append_of_le_length (List.mem_range.mp hn).le]
  rw [objectsAbove, List.length_append, List.length_singleton, List.range_succ,
    List.filterMap_append, hbefore, List.mem_append, or_comm]
  simp [h, Value.identity, eq_comm]

/-- What a place holds. -/
inductive Reading (ι : Type*)
  /-- An element of an aggregate error that cannot be read. -/
  | unreadable
  /-- An error that is already on the way. -/
  | circular
  | nonError (value : Value ι)
  | error (object : ι)

/-- What the serialiser meets at a place. -/
def reading [DecidableEq ι] (w : World ι) (error : Value ι) (place : Place) : Reading ι :=
  match valueAt w error place with
  | none => .unreadable
  | some value =>
    match errorLike w place value with
    | none => .nonError value
    | some object => if object ∈ objectsAbove w error place then .circular else .error object

/-- The texts of a node. -/
inductive TextField
  | name
  | message
  | stack
  | code
  | codeName
  | errorCode
  | label (index : ℕ)
  | context (key : Text)
  | keyPattern (key : Text)

/-- The bound on the length of a field's text. -/
def TextField.maxLength : TextField → ℕ
  | name => MAX_ERROR_NAME_LENGTH
  | message => MAX_ERROR_MESSAGE_LENGTH
  | stack => MAX_ERROR_STACK_LENGTH
  | code | codeName | errorCode => MAX_ERROR_CODE_LENGTH
  | label _ => MAX_LABEL_LENGTH
  | context _ | keyPattern _ => MAX_CONTEXT_STRING_LENGTH

/-- The text of a code that is one. -/
def Code.text? : Code → Option Text
  | .text value => some value
  | .number _ => none

/-- The text of a scalar that is one. -/
def SafeScalar.text? : SafeScalar → Option Text
  | .text value => some value
  | .number _ | .boolean _ => none

/-- The text of a value that is one. -/
def Value.text? : Value ι → Option Text
  | .text value => some value
  | _ => none

/-- A text of a node, as it is shown. -/
def Fields.text (fields : Fields) : TextField → Option Text
  | .name => some fields.name
  | .message => some fields.message
  | .stack => fields.stack
  | .code => fields.code.bind (·.text?)
  | .codeName => fields.codeName
  | .errorCode => fields.errorCode
  | .label index => fields.errorLabels.bind (·[index]?)
  | .context key => fields.context.bind fun record => (OrderedMap.get record key).bind (·.text?)
  | .keyPattern key => fields.keyPattern.bind fun record =>
      (OrderedMap.get record key).bind (·.text?)

/-- The keys of a record; none if it is no record or they cannot be read. -/
def recordKeys (w : World ι) (moment : Moment) (value : Value ι) : Option (ι × List Text) :=
  match value with
  | .object object =>
    if isArray w moment value then none else (w.keys moment object).map (object, ·)
  | _ => none

/-- The raw text under a key that is not sensitive. -/
def recordText (w : World ι) (moment : Moment) (value : Value ι) (key : Text) : Option Text :=
  (recordKeys w moment value).bind fun record =>
    if key ∈ record.2 ∧ isSensitiveKey key = false then
      ((w.get moment record.1 key).getD .undefined).text?
    else none

end Ascendance.ErrorSerialization
