import CExpr.Config.Overlay
import CExpr.Json.Reader

/-!
Configuration files. The path comes from the caller or else from the environment; an empty path, or
none at all, means the default configuration. A file holds one JSON object, which is laid over the
defaults. Line ends of all three kinds count as one newline.
-/
namespace CExpr

inductive FileProblem
  | missing
  | forbidden
  /-- A part of the path that should be a directory is a file. -/
  | notDirectory
  | directory
  | nameTooLong
  deriving DecidableEq

namespace FileProblem

def number : FileProblem → Nat
  | missing => 2
  | forbidden => 13
  | notDirectory => 20
  | directory => 21
  | nameTooLong => 36

def description : FileProblem → String
  | missing => "No such file or directory"
  | forbidden => "Permission denied"
  | notDirectory => "Not a directory"
  | directory => "Is a directory"
  | nameTooLong => "File name too long"

def message (problem : FileProblem) (path : String) : String :=
  s!"[Errno {problem.number}] {problem.description}: {Text.quoted path}"

end FileProblem

abbrev FileContent := Except FileProblem (List Char)

inductive LoadError
  /-- The path has a null character in it, so that no file can be there. -/
  | nullCharacter
  | file (path : String) (problem : FileProblem)
  | malformed (path : String) (content : List Char) (fault : Json.Fault) (position : Nat)
  | notObject (path : String)
  | overlay (e : OverlayError)
  | tooManyDigits (numeral : Text.TooManyDigits)

def unifyLineEnds : List Char → List Char
  | [] => []
  | '\r' :: '\n' :: rest => '\n' :: unifyLineEnds rest
  | c :: rest => (if c = '\r' then '\n' else c) :: unifyLineEnds rest

def Config.ofFileText (path : String) (content : List Char) : Except LoadError ValidConfig :=
  match Json.read content with
  | .error (.fault kind position) => .error (.malformed path content kind position)
  | .error (.tooManyDigits numeral) => .error (.tooManyDigits numeral)
  | .ok (.object entries) => (Config.default.overlay entries).mapError .overlay
  | .ok _ => .error (.notObject path)

def configVariable : String := "EXPRFUZZ_CONFIG"

/-- The path that counts: the given one if there is one, else the one from the environment; an empty
path is none. -/
def configPath? (path environment : Option String) : Option String :=
  match path.or environment with
  | some "" => none
  | chosen => chosen

def Config.load (path environment : Option String) (read : String → FileContent) :
    Except LoadError ValidConfig :=
  match configPath? path environment with
  | none => Config.default.validate.mapError (.overlay ∘ .problem)
  | some path =>
    if path.toList.contains '\x00' then .error .nullCharacter
    else
      match read path with
      | .error problem => .error (.file path problem)
      | .ok content => Config.ofFileText path (unifyLineEnds content)

namespace LoadError

def message : LoadError → String
  | nullCharacter => "embedded null byte"
  | file path problem => problem.message path
  | malformed path content fault position => s!"{path}: {fault.located content position}"
  | notObject path => s!"{path}: top-level JSON value must be an object"
  | overlay e => e.message
  | tooManyDigits numeral => numeral.message

/-- Whether a run reports the error and ends in order, or breaks off. -/
def isReported : LoadError → Bool
  | nullCharacter | tooManyDigits _ => false
  | _ => true

end LoadError
end CExpr
