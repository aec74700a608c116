/-!
# File faults

Why a file is neither read nor written, in the words of the operating system.
-/

namespace ProxyForge

/-- Why a file is neither read nor written. -/
inductive FileFault
  /-- A part of the path does not exist. -/
  | missing
  /-- The path leads to a directory. -/
  | isDirectory
  /-- The path leads on from what is not a directory. -/
  | notDirectory
  /-- A name in the path, or the path, is too long. -/
  | nameTooLong
  /-- The path contains the character NUL. -/
  | containsNul
  /-- The content is not UTF-8. -/
  | notText
  /-- Something else, with its text. -/
  | other (text : String)
  deriving DecidableEq, Repr

/-- The text of the fault. -/
def FileFault.message : FileFault → String
  | missing => "No such file or directory (os error 2)"
  | isDirectory => "Is a directory (os error 21)"
  | notDirectory => "Not a directory (os error 20)"
  | nameTooLong => "File name too long (os error 36)"
  | containsNul => "file name contained an unexpected NUL byte"
  | notText => "stream did not contain valid UTF-8"
  | other text => text

end ProxyForge
