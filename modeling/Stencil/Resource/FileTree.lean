import Stencil.Error

/-!
# File trees

A tree of directories, regular files and symbolic links. An absolute path is the list of the names
from the top down to an entry.

`FileTree.resolve` follows a relative path from a directory. A link is replaced by its target, `.`
stays and `..` goes up, and every entry that a path goes through has to be a directory. At most
`maxLinks` links are followed on the way; they and the segments still ahead are the measure of the
recursion.
-/

namespace Stencil

/-- An absolute path. -/
abbrev Path := List String

/-- The text of an absolute path. -/
def Path.text (p : Path) : String := "/" ++ String.intercalate "/" p

/-- An entry of a file tree. -/
inductive Entry where
  | directory
  | file (content : ByteArray)
  | link (target : String)

/-- The entries of a file tree under their paths. The top is a directory without an entry of its
own. -/
abbrev FileTree := List (Path × Entry)

/-- The segments of a path as it is written. -/
def segments (text : String) : List String :=
  (text.toList.splitOn '/').map String.ofList

theorem segments_of_not_mem {text : String} (h : '/' ∉ text.toList) : segments text = [text] := by
  rw [segments, List.splitOn_eq_singleton h, List.map_singleton, String.ofList_toList]

/-- A slash stands between the segments before it and those after it. -/
theorem segments_slash (before after : List Char) :
    segments (String.ofList (before ++ '/' :: after)) =
      segments (String.ofList before) ++ segments (String.ofList after) := by
  simp only [segments, String.toList_ofList, List.splitOn_append_cons_self, List.map_append]

theorem segments_injective {text other : String} (h : segments text = segments other) :
    text = other := by
  have hlists : text.toList.splitOn '/' = other.toList.splitOn '/' :=
    (List.map_inj_right fun _ _ => String.ofList_inj.1).1 h
  refine String.toList_inj.1 ?_
  calc text.toList = ['/'].intercalate (text.toList.splitOn '/') :=
        (List.intercalate_splitOn '/').symm
    _ = ['/'].intercalate (other.toList.splitOn '/') := by rw [hlists]
    _ = other.toList := List.intercalate_splitOn '/'

namespace FileTree

/-- The entry at a path. Links on the way are not followed. -/
def lookup (tree : FileTree) (path : Path) : Option Entry :=
  match path with
  | [] => some .directory
  | path => (tree.find? fun e => e.1 = path).map (·.2)

/-- The tree with an entry put at a path. -/
def put (tree : FileTree) (path : Path) (e : Entry) : FileTree :=
  (path, e) :: tree.filter fun e' => e'.1 ≠ path

/-- The tree with the directories at and above a path, as far as there is nothing yet. -/
def makeDirectories (tree : FileTree) (path : Path) : FileTree :=
  (List.range (path.length + 1)).foldl (fun tree n =>
    if (lookup tree (path.take n)).isSome then tree else put tree (path.take n) .directory) tree

/-- The tree with an entry put at a path, in directories made for it. -/
def create (tree : FileTree) (path : Path) (e : Entry) : FileTree :=
  (tree.makeDirectories path.dropLast).put path e

/-- How many links may be followed on the way to one entry. -/
def maxLinks : Nat := 40

/-- The path without links of what `segments` lead to, from the directory `here` on, following at
most `links` links. -/
def resolveFrom (tree : FileTree) (links : Nat) (here : Path) :
    List String → Except PathFault Path
  | [] => .ok here
  | segment :: rest =>
    if segment = "" ∨ segment = "." then resolveFrom tree links here rest
    else if segment = ".." then resolveFrom tree links here.dropLast rest
    else
      match tree.lookup (here ++ [segment]) with
      | none => .error .missing
      | some .directory => resolveFrom tree links (here ++ [segment]) rest
      | some (.file _) =>
        if rest.isEmpty then .ok (here ++ [segment]) else .error .notDirectory
      | some (.link target) =>
        match links with
        | 0 => .error .tooManyLinks
        | links + 1 =>
          let start := if target.startsWith "/" then [] else here
          resolveFrom tree links start (segments target ++ rest)
termination_by rest => (links, rest.length)

/-- The path without links of what a written path leads to from the directory `here`. -/
def resolve (tree : FileTree) (here : Path) (path : List String) : Except PathFault Path :=
  resolveFrom tree maxLinks here path

/-- The tree with new content for the file that a path leads to, which is made if it does not
exist. -/
def write (tree : FileTree) (here : Path) (path : List String) (content : ByteArray) : FileTree :=
  match tree.resolve here path with
  | .ok real => tree.put real (.file content)
  | .error _ => tree.create (here ++ path) (.file content)

end FileTree

end Stencil
