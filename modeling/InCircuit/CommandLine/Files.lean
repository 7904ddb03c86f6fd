import InCircuit.Text.Digits

/-!
# Why a file cannot be read or written
-/
namespace InCircuit

inductive FileFault where
  | system (number : Nat)
  | notText
  | nulInPath
deriving DecidableEq

namespace FileFault

def noSuchFile : FileFault := system 2
def notADirectory : FileFault := system 20
def isADirectory : FileFault := system 21
def nameTooLong : FileFault := system 36

def systemText : Nat → String
  | 1 => "Operation not permitted"
  | 2 => "No such file or directory"
  | 5 => "Input/output error"
  | 9 => "Bad file descriptor"
  | 12 => "Cannot allocate memory"
  | 13 => "Permission denied"
  | 16 => "Device or resource busy"
  | 17 => "File exists"
  | 20 => "Not a directory"
  | 21 => "Is a directory"
  | 22 => "Invalid argument"
  | 23 => "Too many open files in system"
  | 24 => "Too many open files"
  | 26 => "Text file busy"
  | 27 => "File too large"
  | 28 => "No space left on device"
  | 30 => "Read-only file system"
  | 36 => "File name too long"
  | 40 => "Too many levels of symbolic links"
  | n => "Unknown error " ++ Text.decimal n

def message : FileFault → String
  | system n => systemText n ++ " (os error " ++ Text.decimal n ++ ")"
  | notText => "stream did not contain valid UTF-8"
  | nulInPath => "file name contained an unexpected NUL byte"

end FileFault

end InCircuit
