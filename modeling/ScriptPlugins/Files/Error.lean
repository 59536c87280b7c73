/-!
# File errors — why the file system refuses
-/

namespace ScriptPlugins

inductive FileError where
  | notFound
  | alreadyExists
  | notADirectory
  | isADirectory
  | invalidArgument
  | nameTooLong
  | notEmpty
  | notUnicode
  | nulInName
  /-- A walk below a path could not enter it. -/
  | walking (path : String) (cause : FileError)
  deriving DecidableEq, Repr

namespace FileError

/-- A refusal with the number that the system gives it. -/
def numbered (text : String) (n : Nat) : String := text ++ " (os error " ++ toString n ++ ")"

def message : FileError → String
  | notFound => numbered "No such file or directory" 2
  | alreadyExists => numbered "File exists" 17
  | notADirectory => numbered "Not a directory" 20
  | isADirectory => numbered "Is a directory" 21
  | invalidArgument => numbered "Invalid argument" 22
  | nameTooLong => numbered "File name too long" 36
  | notEmpty => numbered "Directory not empty" 39
  | notUnicode => "stream did not contain valid UTF-8"
  | nulInName => "file name contained an unexpected NUL byte"
  | walking path cause => "IO error for operation on " ++ path ++ ": " ++ cause.message

/-- The messages of an error and of what caused it. -/
def chain : FileError → List String
  | walking path cause => [(walking path cause).message, cause.message]
  | e => [e.message]

end FileError

end ScriptPlugins
