/-! Why a file cannot be opened or read. -/
namespace Emend

inductive FileError
  | notFound
  | notDirectory
  | isDirectory
  | nameTooLong
  | zeroByteInName
  | other (text : String)
  deriving DecidableEq, Repr

def FileError.message : FileError → String
  | .notFound => "No such file or directory (os error 2)"
  | .notDirectory => "Not a directory (os error 20)"
  | .isDirectory => "Is a directory (os error 21)"
  | .nameTooLong => "File name too long (os error 36)"
  | .zeroByteInName => "file name contained an unexpected NUL byte"
  | .other text => text

/-- A file fails when it is opened or when its contents are read. -/
inductive ReadFailure
  | opening (why : FileError)
  | reading (why : FileError)
  deriving DecidableEq, Repr

def ReadFailure.why : ReadFailure → FileError
  | .opening why => why
  | .reading why => why

/-- Why the contents of a file are no text. -/
inductive TextError
  | unreadable (why : FileError)
  | notUtf8
  deriving DecidableEq, Repr

def TextError.message : TextError → String
  | .unreadable why => why.message
  | .notUtf8 => "stream did not contain valid UTF-8"

end Emend
