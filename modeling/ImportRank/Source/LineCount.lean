import ImportRank.Files.Tree
import ImportRank.Text.Blank

/-!
# Line counts

The size of a file is the number of its line terminators. Many files can be counted one after the
other or by a pool of workers, which finish in any order; a pool is handed absolute paths, and its
first failure to arrive ends the count.
-/

namespace ImportRank

namespace FileSystem

/-- The number of lines of the file a path text leads to. -/
def countLines (files : FileSystem) (path : String) : Except Error Nat :=
  match files.read (Path.ofString path) with
  | .ok bytes => .ok (Text.countTerminators bytes)
  | .error fault => .error (.lineCount path fault.text)

/-- Counts files one after the other; the first that cannot be read is the error. -/
def countEach (files : FileSystem) (paths : List String) : Except Error (List (String × Nat)) :=
  paths.mapM fun path => return (path, ← files.countLines path)

/-- A worker's count of the file at an absolute path, told under the path that was asked for. -/
def countByWorker (files : FileSystem) (path : String) : Except Error (String × Nat) :=
  match files.countLines (files.absolute (Path.ofString path)).toString with
  | .ok count => .ok (path, count)
  | .error (.lineCount _ reason) => .error (.lineCount path reason)
  | .error other => .error other

/-- Collects a pool's counts as they arrive. -/
def collect (files : FileSystem) (counts : List (String × Nat)) :
    List String → Except Error (List (String × Nat))
  | [] => return counts
  | path :: rest => do
    let (path, count) ← files.countByWorker path
    collect files ((path, count) :: counts.filter (·.1 ≠ path)) rest

/-- Counts files in a pool. `arrivals` turns the order in which counts are asked for into the
order in which they arrive. -/
def countInPool (files : FileSystem) (arrivals : List String → List String)
    (paths : List String) : Except Error (List (String × Nat)) :=
  files.collect [] (arrivals paths)

end FileSystem

end ImportRank
