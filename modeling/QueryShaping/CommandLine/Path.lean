namespace QueryShaping

namespace Path

def parts : List Char → List (List Char)
  | [] => [[]]
  | c :: rest =>
    if c == '/' then [] :: parts rest
    else
      match parts rest with
      | [] => [[c]]
      | part :: more => (c :: part) :: more

def isIdle (part : List Char) : Bool :=
  part == [] || part == ['.']

/-- Whether a path stands for standard input: a dash, with only idle parts after it. -/
def isStandardInput (path : String) : Bool :=
  match parts path.toList with
  | first :: rest => first == ['-'] && rest.all isIdle
  | [] => false

/-- The names a path leads through, from the directory it starts at. It has to start there, end at
a name, and never lead back. -/
def names? (path : String) : Option (List (List Char)) :=
  let all := parts path.toList
  let names := all.filter (!isIdle ·)
  if all.head? == some [] || all.getLast?.any isIdle || names.contains ['.', '.'] then none
  else some names

end Path

structure Directory where
  files : List (String × String)

def Directory.noSuchFile : String :=
  "No such file or directory (os error 2)"

/-- The text of the file that a path leads to, or the reason why there is none. -/
def Directory.file? (d : Directory) (path : String) : Except String String :=
  let found : Option (String × String) := do
    let names ← Path.names? path
    d.files.find? fun file => Path.names? file.1 == some names
  match found with
  | some (_, text) => .ok text
  | none => .error noSuchFile

end QueryShaping
