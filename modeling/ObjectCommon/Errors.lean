import ObjectCommon.Library.Outcome
import ObjectCommon.Python.Text

/-!
# Stable provider-neutral Object Catalog failures

* `Message` : an f-string, as the list of its parts;
* `ObjectErrorCode` : the published error codes;
* `PyError` : an exception, either one of Python's own or a Meridian error with its code;
* `PyError.IsTypeOrValueError` : what `except (TypeError, ValueError)` catches.
-/

namespace ObjectCommon

/-- A part of an f-string: text, the `repr` of a string or of a list of strings, or text that the
interpreter or another package supplies. -/
inductive Fragment where
  | text (s : Str)
  | repr (s : Str)
  | reprs (l : List Str)
  | foreign
  deriving DecidableEq

abbrev Message := List Fragment

instance : Coe String Message := ⟨fun s => [.text s]⟩

inductive ObjectErrorCode where
  | invalidRequest
  | notFound
  | conditionalConflict
  | immutable
  | retentionDenied
  | digestMismatch
  | incompleteUpload
  | payloadUnavailable
  | rangeNotSatisfiable
  | multipartInvalid
  | capabilityMismatch
  | authentication
  | authorization
  | quota
  | rateLimit
  | transferCancelled
  | unavailable
  deriving DecidableEq

/-- Python's own exception classes. `UnicodeEncodeError` is a subclass of `ValueError`. -/
inductive Builtin where
  | typeError
  | valueError
  | unicodeEncodeError
  | keyError
  | attributeError
  | assertionError
  | overflowError
  | runtimeError
  | other (name : Str)
  deriving DecidableEq

inductive PyError where
  | builtin (kind : Builtin) (message : Message)
  | meridian (code : ObjectErrorCode) (message : Message) (operationContract : Option Str)
  deriving DecidableEq

namespace PyError

def typeError (message : Message) : PyError := .builtin .typeError message

def valueError (message : Message) : PyError := .builtin .valueError message

def keyError (key : Str) : PyError := .builtin .keyError [.repr key]

def assertionError : PyError := .builtin .assertionError []

def ObjectInvalidRequest (message : Message) (operationContract : Option Str := none) : PyError :=
  .meridian .invalidRequest message operationContract

def ObjectAuthorizationFailed (message : Message) : PyError := .meridian .authorization message none

def DigestMismatch : PyError :=
  .meridian .digestMismatch "the Object SHA-256 digest did not match" none

def IncompleteUpload (message : Message := "the upload ended before its declared length") : PyError :=
  .meridian .incompleteUpload message none

def PayloadUnavailable (message : Message := "the in-process payload reference is unavailable") :
    PyError :=
  .meridian .payloadUnavailable message none

def RangeNotSatisfiable : PyError :=
  .meridian .rangeNotSatisfiable "the requested byte range is not satisfiable" none

def ImmutableObjectConflict (message : Message) : PyError := .meridian .immutable message none

def RetentionDenied : PyError :=
  .meridian .retentionDenied "retention policy does not permit this operation" none

def MultipartInvalid (message : Message) : PyError := .meridian .multipartInvalid message none

def TransferCancelled : PyError := .meridian .transferCancelled "Object transfer was cancelled" none

/-- What `except (TypeError, ValueError)` catches. -/
def isTypeOrValueError : PyError → Bool
  | .builtin .typeError _ => true
  | .builtin .valueError _ => true
  | .builtin .unicodeEncodeError _ => true
  | _ => false

abbrev IsTypeOrValueError (e : PyError) : Prop := e.isTypeOrValueError = true

/-- What `except KeyError` catches. -/
def isKeyError : PyError → Bool
  | .builtin .keyError _ => true
  | _ => false

/-- What `except ObjectInvalidRequest` catches. -/
def IsObjectInvalidRequest (e : PyError) : Prop := ∃ message contract, e = ObjectInvalidRequest message contract

/-- `{exc}` inside an f-string. -/
def message : PyError → Message
  | .builtin _ m => m
  | .meridian _ m _ => m

/-- `except (TypeError, ValueError) as exc: raise f(exc) from exc` -/
def translate (f : PyError → PyError) (e : PyError) : PyError := if e.IsTypeOrValueError then f e else e

theorem translate_of_isTypeOrValueError {f : PyError → PyError} {e : PyError} (h : e.IsTypeOrValueError) :
    translate f e = f e := if_pos h

@[simp] theorem isTypeOrValueError_typeError (m : Message) : IsTypeOrValueError (typeError m) := rfl

@[simp] theorem isTypeOrValueError_valueError (m : Message) : IsTypeOrValueError (valueError m) := rfl

@[simp] theorem isObjectInvalidRequest_mk (m : Message) (c : Option Str) :
    IsObjectInvalidRequest (ObjectInvalidRequest m c) := ⟨m, c, rfl⟩

end PyError

/-- The result of a call: a value or an exception. -/
abbrev Py (α : Type) := Except PyError α

end ObjectCommon
