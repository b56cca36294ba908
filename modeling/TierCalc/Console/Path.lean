import TierCalc.Text.Bytes

/-!
# Paths of files

Why a file that is not there cannot be opened. A path is followed name by name: a file on the way that is no directory
ends it, and so does a name that is too long where it is looked for. Of the files of a machine only those are known that
every machine has.
-/

namespace TierCalc.Path

/-- Why a path cannot be opened. -/
inductive Problem where
  | missing
  | notDirectory
  | tooLong
  | badByte
deriving DecidableEq, Repr

def Problem.message : Problem → String
  | missing => "no such file or directory"
  | notDirectory => "not a directory"
  | tooLong => "file name too long"
  | badByte => "invalid argument"

/-- The directories that every machine has. -/
def directories : List (List String) := [[], ["dev"], ["etc"], ["tmp"], ["usr"], ["var"], ["proc"]]

/-- The files that every machine has. -/
def files : List (List String) := [
  ["dev", "null"], ["dev", "zero"], ["dev", "full"], ["dev", "random"], ["dev", "urandom"], ["dev", "tty"],
  ["etc", "passwd"], ["etc", "group"], ["etc", "hosts"], ["etc", "hostname"], ["etc", "resolv.conf"]]

/-- The most bytes of a name. -/
def maxName : Nat := 255

/-- The most bytes of a path. -/
def maxPath : Nat := 4095

/-- Follows names from a directory. It is given by the names that lead to it from the root, or by nothing if only that
much is known of it that it has no such files. -/
def follow : Option (List String) → List String → Problem
  | _, [] => .missing
  | place?, name :: rest =>
      if name == "" || name == "." then follow place? rest
      else if name == ".." then follow (place?.map List.dropLast) rest
      else if maxName < name.utf8ByteSize then .tooLong
      else
        match place? with
        | none => .missing
        | some place =>
            let next := place ++ [name]
            if directories.contains next then follow (some next) rest
            else if files.contains next && !rest.isEmpty then .notDirectory
            else .missing

/-- Why a path to a file that is not there cannot be opened. -/
def problem (path : String) : Problem :=
  if path.toList.contains '\x00' then .badByte
  else if maxPath < path.utf8ByteSize then .tooLong
  else follow (if path.startsWith "/" then some [] else none) (path.splitOn "/")

end TierCalc.Path
