/-!
# Failures of the Operating System

What the operating system says when a file or a device cannot be used: the kind of failure, on which
callers decide, and the text, which they show.

## Main definitions

* `IoFailure`: A failed operation on a file or device.
* `IoFailure.notFound` and its siblings: The failures of the usual error numbers.
-/

namespace FireControl

/-- The kind of a failed operation on a file or device. -/
inductive IoFailure.Kind where
  | notFound
  | permissionDenied
  | alreadyExists
  | notADirectory
  | isADirectory
  | invalidData
  | invalidInput
  | nameTooLong
  | storageFull
  | other
deriving DecidableEq, Repr

/-- A failed operation on a file or device. -/
structure IoFailure where
  kind : IoFailure.Kind
  text : String
deriving DecidableEq, Repr

namespace IoFailure

/-- The name of a kind of failure. -/
def Kind.label : Kind → String
  | .notFound => "NotFound"
  | .permissionDenied => "PermissionDenied"
  | .alreadyExists => "AlreadyExists"
  | .notADirectory => "NotADirectory"
  | .isADirectory => "IsADirectory"
  | .invalidData => "InvalidData"
  | .invalidInput => "InvalidInput"
  | .nameTooLong => "InvalidFilename"
  | .storageFull => "StorageFull"
  | .other => "Other"

/-- There is no file of that name. -/
def notFound : IoFailure := ⟨.notFound, "No such file or directory (os error 2)"⟩

/-- The file may not be used. -/
def permissionDenied : IoFailure := ⟨.permissionDenied, "Permission denied (os error 13)"⟩

/-- There is a file of that name. -/
def alreadyExists : IoFailure := ⟨.alreadyExists, "File exists (os error 17)"⟩

/-- A file stands where a directory is needed. -/
def notADirectory : IoFailure := ⟨.notADirectory, "Not a directory (os error 20)"⟩

/-- There is no device behind a file. -/
def noDevice : IoFailure := ⟨.other, "No such device or address (os error 6)"⟩

/-- A directory stands where a file is needed. -/
def isADirectory : IoFailure := ⟨.isADirectory, "Is a directory (os error 21)"⟩

/-- There is no room left for what is to be written. -/
def storageFull : IoFailure := ⟨.storageFull, "No space left on device (os error 28)"⟩

/-- A path, or a name on it, is longer than a file system takes. -/
def nameTooLong : IoFailure := ⟨.nameTooLong, "File name too long (os error 36)"⟩

/-- A path holds a character that no path can hold. -/
def nulInPath : IoFailure :=
  ⟨.invalidInput, "file name contained an unexpected NUL byte"⟩

/-- The bytes of a file are not UTF-8. -/
def notUtf8 : IoFailure := ⟨.invalidData, "stream did not contain valid UTF-8"⟩

end IoFailure

end FireControl
