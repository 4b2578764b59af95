import QueryShaping.Document.Definition
import QueryShaping.Graft.Merge
import QueryShaping.Settings

namespace QueryShaping

inductive GraftError where
  | targetMismatch (expected : List Name) (actual : Option Name)
  | unreadable (source : UnreadableSource)

namespace GraftError

def noName : String :=
  "(none)"

def namesText (names : List Name) : String :=
  if names.isEmpty then noName else String.intercalate "', '" names

def message : GraftError → String
  | .targetMismatch expected actual =>
    "the extension must extend the '" ++ namesText expected ++ "' query, but it selects '"
      ++ actual.getD noName ++ "' instead"
  | .unreadable source => source.message

end GraftError

def rootNames (ops : List Operation) : List Name :=
  ops.filterMap Operation.rootName?

def mergeIntoRoot? (root : Name) (added : List Selection) : List Operation → Option (List Operation)
  | [] => none
  | op :: rest =>
    if op.rootName? == some root then
      some ({ op with selections := mergeSelections op.selections added } :: rest)
    else (mergeIntoRoot? root added rest).map (op :: ·)

/-- Merges operations of an extension one by one; `expected` are the root names a mismatch tells. -/
def mergeOperations (expected : List Name) (ops : List Operation) :
    List Operation → Except GraftError (List Operation)
  | [] => .ok ops
  | e :: rest =>
    match e.rootName?.bind fun root => mergeIntoRoot? root e.selections ops with
    | none => .error (.targetMismatch expected e.rootName?)
    | some merged => mergeOperations expected merged rest

namespace Document

def assemble (ops : List Operation) (base extension : Document) : Document :=
  ⟨ops.map .operation ++ (base.fragments ++ extension.fragments).map .fragment
    ++ (base.typeSystem ++ extension.typeSystem).map .typeSystem⟩

def graft (base extension : Document) : Except GraftError Document :=
  match mergeOperations (rootNames base.operations) base.operations extension.operations with
  | .error e => .error e
  | .ok ops => .ok (assemble ops base extension)

end Document

inductive GraftSource where
  | document (document : Document)
  | source (text : String)

def GraftSource.read (settings : GraftSettings) : GraftSource → Except GraftError Document
  | .document d => .ok d
  | .source text =>
    match Document.read settings.limits text with
    | .error faults => .error (.unreadable ⟨settings.sourcePath, text, faults⟩)
    | .ok d => .ok d

namespace Document

def graftSource (settings : GraftSettings) (base : Document) (e : GraftSource) :
    Except GraftError Document :=
  match e.read settings with
  | .error e => .error e
  | .ok extension => base.graft extension

/-- Applies extensions in order, each to the result of the one before it. -/
def graftAll (settings : GraftSettings) (base : Document) :
    List GraftSource → Except GraftError Document
  | [] => .ok base
  | e :: rest =>
    match base.graftSource settings e with
    | .error e => .error e
    | .ok d => d.graftAll settings rest

end Document

end QueryShaping
