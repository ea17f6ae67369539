import Stencil.Resource.FileTree
import Stencil.Resource.Loader
import Stencil.Text.Numeric

/-!
# Templates in a directory

A directory loader reads templates from the regular files below its root. The names of templates are
paths from the root; an extension may be added to names without one. A name with a segment that
could lead elsewhere is refused, and so is a file that a link puts outside of the root.
-/

namespace Stencil

open Stencil.Text

/-- A loader of templates from the files below a root. -/
structure Directory where
  tree : FileTree
  /-- The path of the root, without links. -/
  root : Path
  extension : Option String := none

namespace Directory

/-- The loader with the root that a path leads to from the directory `here`. -/
def open? (tree : FileTree) (here : Path) (root : String) : Except Error Directory :=
  match tree.resolve here (segments root) with
  | .ok real => .ok { tree := tree, root := real }
  | .error fault => .error (.resourceLoad (Path.text (here ++ [root])) (.path fault))

/-- Whether a file name has an extension: a dot that is not its first character. The names `.` and
`..` have none. -/
def hasExtension (name : String) : Bool :=
  name ≠ ".." && name.toList.tail.contains '.'

/-- The canonical name of a template: without one slash at the beginning, and with the extension if
the last segment has none. -/
def canonicalName (d : Directory) (name : String) : String :=
  let name := stripRoot name
  match d.extension with
  | none => name
  | some extension =>
    if name = "" || hasExtension ((segments name).getLastD "") then name
    else name ++ "." ++ extension

/-- Whether a segment of a name is allowed. -/
def isSegment (s : String) : Bool :=
  s ≠ "" && s ≠ "." && s ≠ ".." &&
    s.toList.all fun c => isAlphanumeric c || c = '_' || c = '-' || c = '.'

/-- The segments of a name, which has to be free of whatever could lead out of the root. -/
def segmentsOf (name : String) : Except LoadFault (List String) :=
  if name.toList.contains '\\' || name.toList.contains ':' then .error .forbiddenCharacter
  else
    let stripped := stripRoot name
    if stripped = "" then .error .emptyName
    else
      match (segments stripped).find? fun s => !isSegment s with
      | some s => .error (.badSegment s)
      | none => .ok (segments stripped)

/-- Whether a path is that of a directory or of something in it. -/
def isWithin (root path : Path) : Bool := root.isPrefixOf path

/-- The text of the template with a canonical name. -/
def read (d : Directory) (name : String) : Except Error String :=
  match segmentsOf name with
  | .error fault => .error (.resourceLoad name fault)
  | .ok path =>
    match d.tree.resolve d.root path with
    | .error _ => .error (.resourceNotFound name)
    | .ok real =>
      if !isWithin d.root real then .error (.resourceLoad name (.outsideRoot (Path.text real)))
      else
        match d.tree.lookup real with
        | some (.file content) =>
          match String.fromUTF8? content with
          | some text => .ok text
          | none => .error (.resourceLoad name .invalidText)
        | _ => .error (.resourceNotFound name)

/-- A text is read from a regular file that is found below the root. -/
theorem read_eq_ok_iff {d : Directory} {name text : String} :
    d.read name = .ok text ↔ ∃ path real content, segmentsOf name = .ok path ∧
      d.tree.resolve d.root path = .ok real ∧ isWithin d.root real = true ∧
      d.tree.lookup real = some (.file content) ∧ String.fromUTF8? content = some text := by
  constructor
  · intro h
    unfold read at h
    split at h
    · cases h
    rename_i path hpath
    split at h
    · cases h
    rename_i real hreal
    split at h
    · cases h
    rename_i hwithin
    split at h
    · rename_i content hcontent
      split at h
      · rename_i text' htext
        cases h
        exact ⟨path, real, content, hpath, hreal, by simpa using hwithin, hcontent, htext⟩
      · cases h
    · cases h
  · rintro ⟨path, real, content, hpath, hreal, hwithin, hcontent, htext⟩
    simp [read, hpath, hreal, hwithin, hcontent, htext]

/-- The loader that reads from a directory. -/
def loader (d : Directory) : Loader where
  canonicalName := d.canonicalName
  load name := d.read (d.canonicalName name)

end Directory

end Stencil
