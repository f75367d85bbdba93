namespace SaveTree

/-!
# Failures of the host

The reasons for which the host file system refuses a call.  Most are refusals
of the system and carry its number; those that need no name of their own also
carry the system's words.  A path with a zero byte never reaches the system, and
bytes that are no text are found only after they were read, so these two have no
number.
-/

/-- Why a call on the host failed. -/
inductive HostError where
  | notFound
  | permissionDenied
  | busy
  | alreadyExists
  | notADirectory
  | isADirectory
  | invalidArgument
  | nameTooLong
  | notEmpty
  | zeroByte
  | notText
  | other (code : Nat) (words : String)
  deriving DecidableEq

namespace HostError

/-- The system's number of the failure. -/
def code? : HostError → Option Nat
  | notFound => some 2
  | permissionDenied => some 13
  | busy => some 16
  | alreadyExists => some 17
  | notADirectory => some 20
  | isADirectory => some 21
  | invalidArgument => some 22
  | nameTooLong => some 36
  | notEmpty => some 39
  | zeroByte => none
  | notText => none
  | other code _ => some code

/-- The failure that has a number. -/
def ofCode (code : Nat) (words : String) : HostError :=
  match code with
  | 2 => notFound
  | 13 => permissionDenied
  | 16 => busy
  | 17 => alreadyExists
  | 20 => notADirectory
  | 21 => isADirectory
  | 22 => invalidArgument
  | 36 => nameTooLong
  | 39 => notEmpty
  | code => other code words

/-- The failure in words. -/
def description : HostError → String
  | notFound => "No such file or directory"
  | permissionDenied => "Permission denied"
  | busy => "Device or resource busy"
  | alreadyExists => "File exists"
  | notADirectory => "Not a directory"
  | isADirectory => "Is a directory"
  | invalidArgument => "Invalid argument"
  | nameTooLong => "File name too long"
  | notEmpty => "Directory not empty"
  | zeroByte => "file name contained an unexpected NUL byte"
  | notText => "stream did not contain valid UTF-8"
  | other _ words => words

/-- The words, followed by the number if there is one. -/
def message (error : HostError) : String :=
  match error.code? with
  | some code => error.description ++ " (os error " ++ Nat.repr code ++ ")"
  | none => error.description

end HostError

end SaveTree
