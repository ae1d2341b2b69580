/-! # Failures

Every call either returns or fails with a kind and a text. The kind tells what a caller may do
about it; the texts are made where the failures arise. -/

namespace Paybook

/-- What sort of failure a call ended with. -/
inductive FailureKind where
  /-- An argument is unusable whatever the book holds. -/
  | invalidArgument
  /-- A user, an order or an entry does not exist. -/
  | notFound
  /-- The book does not allow the call now. -/
  | preconditionFailed
  /-- Money could not be moved. -/
  | processingFailure
  /-- An entry was changed by somebody else meanwhile. -/
  | conflict
  /-- The store did not answer. -/
  | storage
  /-- The settings are not readable. -/
  | settings
  /-- A row of a table is not readable. -/
  | table
  /-- A file is not readable. -/
  | file
deriving DecidableEq, Repr

namespace FailureKind

/-- The words in front of the text of a failure. -/
def label : FailureKind → String
  | invalidArgument => "Invalid argument"
  | notFound => "Not found"
  | preconditionFailed => "Precondition failed"
  | processingFailure => "Processing failure"
  | conflict => "Concurrent modification"
  | storage => "Storage error"
  | settings => "Configuration error"
  | table => "CSV error"
  | file => "IO error"

/-- Whether the text of a failure of this kind comes from outside of the book. -/
def isForeign : FailureKind → Bool
  | settings | table | file => true
  | _ => false

end FailureKind

/-- A failed call. -/
structure Failure where
  kind : FailureKind
  text : String
deriving DecidableEq, Repr

namespace Failure

def invalidArgument (text : String) : Failure := ⟨.invalidArgument, text⟩
def notFound (text : String) : Failure := ⟨.notFound, text⟩
def preconditionFailed (text : String) : Failure := ⟨.preconditionFailed, text⟩
def processingFailure (text : String) : Failure := ⟨.processingFailure, text⟩
def conflict (text : String) : Failure := ⟨.conflict, text⟩
def storage (text : String) : Failure := ⟨.storage, text⟩
def settings (text : String) : Failure := ⟨.settings, text⟩
def table (text : String) : Failure := ⟨.table, text⟩
def file (text : String) : Failure := ⟨.file, text⟩

/-- The failure as it is shown. -/
def message (f : Failure) : String := f.kind.label ++ ": " ++ f.text

/-- The failure as entries record it: without the label, unless the text comes from outside. -/
def detail (f : Failure) : String := if f.kind.isForeign then f.message else f.text

instance : ToString Failure := ⟨message⟩

end Failure

/-- What can be read or fails. -/
abbrev Attempt (α : Type) := Except Failure α

end Paybook
