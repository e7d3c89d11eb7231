/-!
# Files

What the commands need of the place their files are in, and what can go wrong
there.
-/

namespace SimpleTypes

inductive FileError where
  | notFound
  | isFolder
  | notFolder
  | nameTooLong
  | nulInName
  /-- The bytes are not UTF-8. -/
  | notText
  | other (message : String)
  deriving DecidableEq, Repr, Inhabited

def FileError.message : FileError → String
  | .notFound => "No such file or directory (os error 2)"
  | .isFolder => "Is a directory (os error 21)"
  | .notFolder => "Not a directory (os error 20)"
  | .nameTooLong => "File name too long (os error 36)"
  | .nulInName => "file name contained an unexpected NUL byte"
  | .notText => "stream did not contain valid UTF-8"
  | .other message => message

/-- Reading and writing whole texts. -/
structure Files (m : Type → Type) where
  read : String → m (Except FileError String)
  write : String → String → m (Except FileError Unit)

def decodeText? (bytes : List UInt8) : Option String := String.fromUTF8? ⟨bytes.toArray⟩

def encodeText (text : String) : List UInt8 := text.toUTF8.data.toList

end SimpleTypes
