namespace QueryShaping.LogFilter

def levels : List String :=
  ["off", "error", "warn", "info", "debug", "trace", "0", "1", "2", "3", "4", "5", ""]

def isLevel (text : List Char) : Bool :=
  levels.contains (String.ofList (text.map Char.toLower))

def isTargetStart (c : Char) : Bool :=
  c.isAlphanum || c == '-' || c == '_' || c == ':'

def isDirective (text : List Char) : Bool :=
  match text with
  | [] => true
  | c :: rest =>
    isTargetStart c &&
      match (c :: rest).dropWhile (· != '=') with
      | [] => true
      | _ :: level => isLevel level

def directives : List Char → List (List Char)
  | [] => [[]]
  | c :: rest =>
    if c == ',' then [] :: directives rest
    else
      match directives rest with
      | [] => [[c]]
      | first :: more => (c :: first) :: more

def isValid (filter : String) : Bool :=
  (directives filter.toList).all isDirective

end QueryShaping.LogFilter
