import LogGenerator.Foundation.Bytes

/-!
# File paths

The parts of a path of bytes, as the members of `std::filesystem::path` give them
on a POSIX system.
-/

namespace LogGenerator
namespace FilePath

open Ascii

def slash : UInt8 := 47
def dot : UInt8 := 46

/-- What follows the last slash. -/
def filename (path : Bytes) : Bytes := (path.reverse.takeWhile (· ≠ slash)).reverse

/-- Where the extension of a file name begins. -/
def extensionStart (name : Bytes) : Option ℕ :=
  if name = [dot, dot] then none
  else
    match findLastOf name [dot] with
    | some (position + 1) => some (position + 1)
    | some 0 | none => none

def stem (path : Bytes) : Bytes :=
  match extensionStart (filename path) with
  | some position => (filename path).take position
  | none => filename path

def extension (path : Bytes) : Bytes :=
  match extensionStart (filename path) with
  | some position => (filename path).drop position
  | none => []

example : stem (bytes "/a.b/c.d.CSV") = bytes "c.d" ∧ extension (bytes "/a.b/.csv") = [] := by
  decide

end FilePath
end LogGenerator
