import Emend.FileError
import Emend.Path

/-! What a command asks of the files around it. -/
namespace Emend

class FileAccess (m : Type → Type) where
  /-- The contents of a file. -/
  read : Path → m (Except ReadFailure ByteArray)
  /-- Makes a file or replaces its contents. -/
  write : Path → ByteArray → m (Except FileError Unit)

end Emend
