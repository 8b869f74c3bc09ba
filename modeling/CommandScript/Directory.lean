/-!
# Files by path

A directory holds files by their names, which are paths themselves. A path is followed
part by part. An empty part and `.` stay where they are, `..` goes one level up, and any
other part goes to a folder or, as the last part, to a file. Nothing above the directory
is known, except two devices: one that is always empty and one that is the input.

* `pathParts`: the parts of a path.
* `Directory.follow?`: the file that the parts of a path lead to.
* `Directory.read?`: what is read under a path.
* `Directory.read?_of_no_slash`: a plain name stands for the file of that name.
-/

namespace CommandScript

/-- The texts between the slashes of a path. -/
def pathParts : List Char → List String
  | [] => [""]
  | c :: rest =>
    if c = '/' then "" :: pathParts rest
    else
      match pathParts rest with
      | [] => [String.singleton c]
      | part :: parts => (String.singleton c ++ part) :: parts

theorem pathParts_of_no_slash {path : List Char} (h : '/' ∉ path) :
    pathParts path = [String.ofList path] := by
  induction path with
  | nil => rfl
  | cons c rest ih =>
    rw [List.mem_cons, not_or] at h
    rw [pathParts, if_neg (Ne.symm h.1), ih h.2]
    simp only [List.cons.injEq, and_true]
    rw [← String.toList_inj]
    simp

/-- Whether a part stays where it is. -/
def staysPut (part : String) : Bool := part = "" || part = "."

structure Directory where
  files : List (String × String)
  input : String

namespace Directory

/-- The files under the parts of their names. -/
def entries (directory : Directory) : List (List String × String) :=
  directory.files.map fun file =>
    ((pathParts file.1.toList).filter fun part => !staysPut part, file.2)

/-- Whether there is a folder at a place. The directory itself is one. -/
def hasFolder (directory : Directory) (place : List String) : Bool :=
  place.isEmpty || directory.entries.any fun entry => place.isPrefixOf entry.1 && place ≠ entry.1

/-- The file that is reached from the folder at `place`. Only a path whose last part is a
name leads to a file, as one that ends by staying put or by going up ends at a folder. -/
def follow? (directory : Directory) (place : List String) : List String → Option String
  | [] => none
  | part :: rest =>
    if !directory.hasFolder place then none
    else if staysPut part then directory.follow? place rest
    else if part = ".." then
      if place.isEmpty then none else directory.follow? place.dropLast rest
    else if rest.isEmpty then directory.entries.lookup (place ++ [part])
    else directory.follow? (place ++ [part]) rest

/-- The files that are known by their paths from the root: a device that is always empty,
and the input under its names. -/
def devices (directory : Directory) : Directory :=
  { directory with
    files := ("dev/null", "") ::
      ["dev/stdin", "dev/fd/0", "proc/self/fd/0"].map (·, directory.input) }

/-- The text of the file under a path. A path that starts with a slash starts at the root. -/
def read? (directory : Directory) (path : String) : Option String :=
  match pathParts path.toList with
  | "" :: part :: parts => directory.devices.follow? [] (part :: parts)
  | parts => directory.follow? [] parts

theorem read?_of_no_slash (directory : Directory) {name : String} (h : '/' ∉ name.toList)
    (hplace : staysPut name = false) (hup : name ≠ "..") :
    directory.read? name = directory.entries.lookup [name] := by
  rw [read?, pathParts_of_no_slash h, String.ofList_toList]
  simp [follow?, hasFolder, hplace, hup]

end Directory

end CommandScript
