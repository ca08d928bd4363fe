import Ascendance.Core.Number
import Ascendance.Core.OrderedMap
import Ascendance.Models.ErrorSerialization.Redaction

/-!
# Serialization of thrown values

Anything can be thrown, also an object whose properties throw when they are read or have
another value at each reading. What an object answers is therefore a function of the moment of
the question: the place in the tree of causes for which it is asked, and the part of the code
that asks. No answer stands for an exception; each is caught where the question is asked.
-/

namespace Ascendance.ErrorSerialization

open Ascendance.Core

/-- How deep causes and collected errors are followed. -/
def MAX_ERROR_DEPTH : ℕ := 4
/-- The bound on a name. -/
def MAX_ERROR_NAME_LENGTH : ℕ := 256
/-- The bound on a message. -/
def MAX_ERROR_MESSAGE_LENGTH : ℕ := 4096
/-- The bound on a stack trace. -/
def MAX_ERROR_STACK_LENGTH : ℕ := 32768
/-- The bound on a code. -/
def MAX_ERROR_CODE_LENGTH : ℕ := 256
/-- The bound on a text inside a record. -/
def MAX_CONTEXT_STRING_LENGTH : ℕ := 1024
/-- The bound on a label. -/
def MAX_LABEL_LENGTH : ℕ := 128

/-- A value, where objects have an identity only; functions are objects. -/
inductive Value (ι : Type*)
  | undefined
  | null
  | text (value : Text)
  | number (value : JsNumber)
  | boolean (value : Bool)
  /-- A big integer or a symbol, with its text. -/
  | primitive (text : Text)
  | object (id : ι)
  deriving DecidableEq, Repr

/-- A step from an error to one inside it. -/
inductive Step
  | cause
  | error (index : ℕ)
  deriving DecidableEq, Repr

/-- The way from the thrown value to an error inside it. -/
abbrev Place := List Step

/-- The part of the code that asks. -/
inductive Asker
  | isErrorLike
  | thrownMessage
  | fields
  | labels
  | labelsLength
  | context
  | keyPattern
  | depthLimit
  | isAggregateError
  | children
  | childrenLength
  deriving DecidableEq, Repr

/-- Where the serialiser is and what it asks for; a getter may answer differently at each. -/
structure Moment where
  place : Place
  asker : Asker
  deriving DecidableEq, Repr

/-- What objects answer; none if the question throws. -/
structure World (ι : Type*) where
  /-- `object[property]` -/
  get : Moment → ι → Text → Option (Value ι)
  /-- `object[index]` -/
  element : Moment → ι → ℕ → Option (Value ι)
  /-- `Object.keys(object)` -/
  keys : Moment → ι → Option (List Text)
  /-- `object instanceof Error` -/
  instanceOfError : Moment → ι → Option Bool
  /-- `object instanceof AggregateError` -/
  instanceOfAggregateError : Moment → ι → Option Bool
  /-- `Array.isArray(object)` -/
  isArray : Moment → ι → Option Bool
  /-- `Object.prototype.toString.call(object)` -/
  tag : Moment → ι → Option Text
  /-- `String(number)` -/
  numberText : JsNumber → Text

variable {ι : Type*}

/-- Read a property; one that throws reads as `undefined`. -/
def readProperty (w : World ι) (moment : Moment) (object : ι) (property : String) : Value ι :=
  (w.get moment object (units property)).getD .undefined

/-- Is the value an array, as far as this can be found out? -/
def isArray (w : World ι) (moment : Moment) : Value ι → Bool
  | .object object => (w.isArray moment object).getD false
  | _ => false

/-- Is the object an instance of `Error`, as far as this can be found out? -/
def isNativeError (w : World ι) (moment : Moment) (object : ι) : Bool :=
  (w.instanceOfError moment object).getD false

/-- Is the value a text? -/
def Value.isText : Value ι → Bool
  | .text _ => true
  | _ => false

/-- The object, if the value is like an error. -/
def errorLike (w : World ι) (place : Place) : Value ι → Option ι
  | .object object =>
    if isNativeError w ⟨place, .isErrorLike⟩ object ||
        (readProperty w ⟨place, .isErrorLike⟩ object "message").isText ||
        (readProperty w ⟨place, .isErrorLike⟩ object "name").isText then some object
    else none
  | _ => none

/-- Does the object collect other errors? -/
def isAggregateError [DecidableEq ι] (w : World ι) (place : Place) (object : ι) : Bool :=
  (w.instanceOfAggregateError ⟨place, .isAggregateError⟩ object).getD false ||
    decide (readProperty w ⟨place, .isAggregateError⟩ object "name" =
      .text (units "AggregateError")) &&
      isArray w ⟨place, .isAggregateError⟩
        (readProperty w ⟨place, .isAggregateError⟩ object "errors")

/-- The value at an index; none if reading fails. -/
def readArrayValue (w : World ι) (moment : Moment) (value : Value ι) (index : ℕ) :
    Option (Value ι) :=
  match value with
  | .object array => w.element moment array index
  | _ => none

/-- What may stand in a shown record. -/
inductive SafeScalar
  | text (value : Text)
  | number (value : JsNumber)
  | boolean (value : Bool)
  deriving DecidableEq, Repr

/-- The entries of a shown record, in their order. -/
abbrev SafeRecord := OrderedMap Text SafeScalar

/-- An error code: a text or a number. -/
inductive Code
  | text (value : Text)
  | number (value : JsNumber)
  deriving DecidableEq, Repr

/-- The fields of a shown error besides its cause and the errors it collects. -/
structure Fields where
  name : Text
  message : Text
  stack : Option Text
  code : Option Code
  codeName : Option Text
  errorLabels : Option (List Text)
  statusCode : Option JsNumber
  errorCode : Option Text
  context : Option SafeRecord
  keyPattern : Option SafeRecord

/-- A shown error with its cause and the errors it collects. -/
inductive SerializedError
  | node (fields : Fields) (cause : Option SerializedError) (errors : Option (List SerializedError))
    (truncated : Bool)

namespace SerializedError

/-- The fields of the node. -/
def fields : SerializedError → Fields
  | node fields _ _ _ => fields

/-- The cause below the node. -/
def cause : SerializedError → Option SerializedError
  | node _ cause _ _ => cause

/-- The errors collected by the node. -/
def errors : SerializedError → Option (List SerializedError)
  | node _ _ errors _ => errors

/-- Was something left out at the node? -/
def truncated : SerializedError → Bool
  | node _ _ _ truncated => truncated

end SerializedError

section

variable [DecidableEq ι]

end

end Ascendance.ErrorSerialization
