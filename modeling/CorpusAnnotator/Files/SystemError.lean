/-! Refusals of the operating system and of byte streams. -/
namespace CorpusAnnotator.Files

/-- Why the system refuses an operation on a file or a process. -/
inductive SystemError where
  | notFound
  | permissionDenied
  | notExecutable
  | notDirectory
  | isDirectory
  | fileTooLarge
  | nameTooLong
  /-- A null character inside a file name. -/
  | nullInName
  /-- Bytes that should be text are not. -/
  | notText
  /-- A stream whose content does not fit its description. -/
  | badStream (reason : String)
  deriving Repr, DecidableEq

def SystemError.message : SystemError → String
  | .notFound => "No such file or directory (os error 2)"
  | .permissionDenied => "Permission denied (os error 13)"
  | .notExecutable => "Exec format error (os error 8)"
  | .notDirectory => "Not a directory (os error 20)"
  | .isDirectory => "Is a directory (os error 21)"
  | .fileTooLarge => "File too large (os error 27)"
  | .nameTooLong => "File name too long (os error 36)"
  | .nullInName => "file name contained an unexpected NUL byte"
  | .notText => "stream did not contain valid UTF-8"
  | .badStream reason => reason

end CorpusAnnotator.Files
