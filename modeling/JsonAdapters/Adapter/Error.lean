import JsonAdapters.Json.Reader
import JsonAdapters.Json.Writer

/-!
# Errors of adapters

## Main definitions

* `AdapterError`: why an adapter could not be found, or could not move a value.
* `AdapterError.kind`: the stable kind of an error, independent of its text.
* `AdapterFailure`: an error, a breach of the contract between adapters and streams, or no end.
-/

namespace JsonAdapters

/-- Why an adapter could not be found, or could not move a value. -/
inductive AdapterError
  /-- A field is absent that has neither a default nor room for nothing. -/
  | missingField (record field : String)
  | unexpectedNull (target : String)
  | invalidNumber (text target : String)
  | noAdapter (token : String)
  /-- A factory answered with the adapter of another type. -/
  | incompatibleAdapter (requested provided : String)
  | tokenMismatch (token requested : String)
  | registryDropped
  | read (e : Json.ReadError)
  /-- The value cannot be written. -/
  | write (reason : String)
  /-- The sink failed. -/
  | io (reason : String)
  | utf8 (fault : Utf8.Fault)
deriving DecidableEq, Repr

/-- Kinds of errors. -/
inductive ErrorKind
  | missingField
  | unexpectedNull
  | invalidNumber
  | noAdapter
  | incompatibleAdapter
  | tokenMismatch
  | registryDropped
  | read
  | write
deriving DecidableEq, Repr

def ErrorKind.name : ErrorKind → String
  | .missingField => "missing_field"
  | .unexpectedNull => "unexpected_null"
  | .invalidNumber => "invalid_number"
  | .noAdapter => "no_adapter"
  | .incompatibleAdapter => "incompatible_adapter"
  | .tokenMismatch => "token_mismatch"
  | .registryDropped => "registry_dropped"
  | .read => "read"
  | .write => "write"

namespace AdapterError

/-- Kind of an error. All failures on the way out are of one kind. -/
def kind : AdapterError → ErrorKind
  | .missingField _ _ => .missingField
  | .unexpectedNull _ => .unexpectedNull
  | .invalidNumber _ _ => .invalidNumber
  | .noAdapter _ => .noAdapter
  | .incompatibleAdapter _ _ => .incompatibleAdapter
  | .tokenMismatch _ _ => .tokenMismatch
  | .registryDropped => .registryDropped
  | .read _ => .read
  | .write _ | .io _ | .utf8 _ => .write

def message : AdapterError → String
  | .missingField record field => s!"required field '{field}' of '{record}' is missing"
  | .unexpectedNull target => s!"unexpected null for {target}"
  | .invalidNumber text target => s!"invalid number '{text}' for {target}"
  | .noAdapter token => s!"no type adapter available for '{token}'"
  | .incompatibleAdapter requested provided =>
    s!"adapter serving '{provided}' cannot be used for '{requested}'"
  | .tokenMismatch token requested => s!"type token '{token}' does not describe '{requested}'"
  | .registryDropped => "type adapter registry has been dropped"
  | .read e => e.message
  | .write reason => s!"write error: {reason}"
  | .io reason => reason
  | .utf8 fault => fault.message

end AdapterError

/-- Why an adapter, or a request for one, has no answer. -/
inductive AdapterFailure
  | error (e : AdapterError)
  /-- A step was taken that the stream does not allow, or a value is not of the adapter's type. -/
  | misuse
  /-- An adapter of another factory consumed nothing and was asked for ever. -/
  | stalled
  /-- A record extends itself, directly or through others, so that its token never comes to an
  end. -/
  | endless
deriving DecidableEq, Repr

/-- What a computation gives that may have no end. -/
def AdapterFailure.orEndless {α : Type} : Option α → Except AdapterFailure α
  | some a => .ok a
  | none => .error .endless

def AdapterFailure.ofRead : Json.ReadFailure → AdapterFailure
  | .misuse => .misuse
  | .error e => .error (.read e)

def AdapterFailure.ofWrite : Json.WriteFailure → AdapterFailure
  | .misuse => .misuse
  | .refused why => .error (.write why)
  | .sinkFailed reason => .error (.io reason)

end JsonAdapters
