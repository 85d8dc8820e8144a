import CExpr.Text.Numeral
import CExpr.Text.Quoted

/-!
The command line. Words that begin with a dash are options, but for a lone dash, negative numbers
and words with a blank that fit no option. A long option may be cut short as long as one option
fits, and a value may follow as the next word, behind an equals sign, or directly behind a short
option. All words are sorted into options and values before the first one is acted on. Words that
nothing takes are reported when everything else has been done. Two dashes alone separate: no option
takes them for its value, and written in the same word as an option they give the option nothing.
-/
namespace CExpr
open Text

/-- What an option was given: a value, or nothing when two dashes stand in the value's place. -/
inductive Given (α : Type)
  | value (a : α)
  | nothing
  deriving DecidableEq

namespace Given

def getD : Given α → α → α
  | value a, _ => a
  | nothing, spare => spare

end Given

inductive OptionKind
  | help | seed | count | config | name | timeout | reference | nameValue | debug
  deriving DecidableEq

structure Arguments where
  seed : Option (Given Int)
  count : Given Int
  config : Option (Given String)
  name : Given String
  /-- Seconds for one expression; none or fewer means no limit. -/
  timeout : Given Int
  reference : Bool
  /-- What the variable is bound to for reference values. -/
  nameValue : Given Int
  debug : Bool
  deriving DecidableEq

inductive UsageError
  | ambiguous (word : List Char) (fitting : List (List Char))
  | invalidInteger (option : OptionKind) (value : List Char)
  | missingValue (option : OptionKind)
  | unwantedValue (option : OptionKind) (value : List Char)
  | unrecognized (words : List (List Char))
  | negativeCount
  deriving DecidableEq

inductive CommandExit
  | help
  | usage (e : UsageError)
  /-- The count was given nothing, so that it cannot be told whether it is negative. -/
  | noCount
  deriving DecidableEq

namespace Arguments

def defaultName : String := "x"

def default : Arguments where
  seed := none
  count := .value 10
  config := none
  name := .value defaultName
  timeout := .value 0
  reference := false
  nameValue := .value 0
  debug := false

end Arguments

namespace OptionKind

def spellings : OptionKind → List (List Char)
  | help => ["-h".toList, "--help".toList]
  | seed => ["--seed".toList, "-s".toList]
  | count => ["--count".toList, "-n".toList]
  | config => ["--config".toList, "-c".toList]
  | name => ["--variable".toList]
  | timeout => ["--timeout".toList, "-t".toList]
  | reference => ["--reference".toList]
  | nameValue => ["--var-value".toList]
  | debug => ["--debug".toList]

def all : List OptionKind :=
  [help, seed, count, config, name, timeout, reference, nameValue, debug]

def takesValue : OptionKind → Bool
  | help | reference | debug => false
  | _ => true

def label (option : OptionKind) : String :=
  "/".intercalate (option.spellings.map String.ofList)

def ofSpelling? (spelling : List Char) : Option OptionKind :=
  all.find? (·.spellings.contains spelling)

def fitting (start : List Char) : List (List Char × OptionKind) :=
  (all.flatMap fun option => option.spellings.map (·, option)).filter (start.isPrefixOf ·.1)

end OptionKind

/-- What a word of the command line is. An option may have a value attached in the same word. -/
inductive WordRole
  | value
  | separator
  | unknownOption
  | option (option : OptionKind) (short : Bool) (attached : Option (List Char))

namespace WordRole

def isMinusDigits (digits : List Char) : Bool :=
  let whole := digits.takeWhile isDigit
  match digits.dropWhile isDigit with
  | [] => !whole.isEmpty
  | '.' :: fraction => !fraction.isEmpty && fraction.all isDigit
  | _ => false

def isNegativeNumber : List Char → Bool
  | '-' :: rest => isMinusDigits (if rest.getLast? = some '\n' then rest.dropLast else rest)
  | _ => false

def isLong : List Char → Bool
  | '-' :: '-' :: _ => true
  | _ => false

def splitEquals (word : List Char) : List Char × Option (List Char) :=
  match word.dropWhile (· ≠ '=') with
  | _ :: text => (word.takeWhile (· ≠ '='), some text)
  | [] => (word, none)

def ofUnfitting (word : List Char) : WordRole :=
  if isNegativeNumber word || word.contains ' ' then value else unknownOption

def ofWord (word : List Char) : Except UsageError WordRole :=
  if word.head? ≠ some '-' then .ok value
  else if let some found := OptionKind.ofSpelling? word then
    .ok (option found (!isLong word) none)
  else if word.length = 1 then .ok value
  else
    let (spelling, attached) := splitEquals word
    match attached, OptionKind.ofSpelling? spelling with
    | some attached, some found => .ok (option found (!isLong spelling) (some attached))
    | _, _ =>
      if isLong word then
        match OptionKind.fitting spelling with
        | [] => .ok (ofUnfitting word)
        | [(_, found)] => .ok (option found false attached)
        | several => .error (.ambiguous word (several.map (·.1)))
      else
        match OptionKind.ofSpelling? (word.take 2) with
        | some found => .ok (option found true (some (word.drop 2)))
        | none => .ok (ofUnfitting word)

/-- The words with their roles. All words behind the first separator are values. -/
def ofWords : List (List Char) → Except UsageError (List (List Char × WordRole))
  | [] => .ok []
  | word :: rest =>
    if word = ['-', '-'] then .ok ((word, separator) :: rest.map (·, value))
    else do
      let role ← ofWord word
      return (word, role) :: (← ofWords rest)

end WordRole

namespace Arguments

def configPath (arguments : Arguments) : Option String := arguments.config.map (·.getD "")

def text (text : List Char) : Given String :=
  if text = ['-', '-'] then .nothing else .value (String.ofList text)

def integer (option : OptionKind) (text : List Char) : Except UsageError (Given Int) :=
  if text = ['-', '-'] then .ok .nothing
  else
    match readInteger? text with
    | some (.ok value) => .ok (.value value)
    | _ => .error (.invalidInteger option text)

def take (arguments : Arguments) (option : OptionKind) (text : List Char) :
    Except UsageError Arguments :=
  match option with
  | .help => return arguments
  | .seed => return { arguments with seed := some (← integer option text) }
  | .count => return { arguments with count := ← integer option text }
  | .config => return { arguments with config := some (Arguments.text text) }
  | .name => return { arguments with name := Arguments.text text }
  | .timeout => return { arguments with timeout := ← integer option text }
  | .reference => return { arguments with reference := true }
  | .nameValue => return { arguments with nameValue := ← integer option text }
  | .debug => return { arguments with debug := true }

/-- What is wrong with the characters behind a short option without a value: each has to be a
further short option, and the first one with a value takes the rest. -/
def clusterProblem? (option : OptionKind) (valueFollows : Bool) : List Char → Option UsageError
  | [] => none
  | c :: rest =>
    match OptionKind.ofSpelling? ['-', c] with
    | none => some (.unwantedValue option (c :: rest))
    | some next =>
      if !next.takesValue then clusterProblem? next valueFollows rest
      else if rest.isEmpty && !valueFollows then some (.missingValue next)
      else none

def attachedProblem? (option : OptionKind) (short valueFollows : Bool) (attached : List Char) :
    Option UsageError :=
  if short && !attached.isEmpty then clusterProblem? option valueFollows attached
  else some (.unwantedValue option attached)

def takeAll : Arguments → List (List Char × WordRole) →
    Except CommandExit (Arguments × List (List Char))
  | arguments, [] => .ok (arguments, [])
  | arguments, (_, .option option short attached) :: rest =>
    if option.takesValue then
      match attached, rest with
      | some attached, rest => do
        takeAll (← (arguments.take option attached).mapError .usage) rest
      | none, (text, .value) :: rest => do
        takeAll (← (arguments.take option text).mapError .usage) rest
      | none, _ => .error (.usage (.missingValue option))
    else
      match attached with
      | some attached =>
        let valueFollows := match rest with
          | (_, .value) :: _ => true
          | _ => false
        match attachedProblem? option short valueFollows attached with
        | some e => .error (.usage e)
        | none => .error .help
      | none =>
        if option = .help then .error .help
        else do takeAll (← (arguments.take option []).mapError .usage) rest
  | arguments, (word, _) :: rest => do
    let (arguments, untaken) ← takeAll arguments rest
    return (arguments, word :: untaken)

def ofWords (words : List (List Char)) : Except CommandExit Arguments := do
  let roles ← (WordRole.ofWords words).mapError .usage
  let (arguments, untaken) ← default.takeAll roles
  if !untaken.isEmpty then throw (.usage (.unrecognized untaken))
  match arguments.count with
  | .nothing => throw .noCount
  | .value count =>
    if count < 0 then throw (.usage .negativeCount)
    return arguments

end Arguments

def UsageError.message : UsageError → String
  | ambiguous word fitting =>
    let names := ", ".intercalate (fitting.map String.ofList)
    s!"ambiguous option: {String.ofList word} could match {names}"
  | invalidInteger option value =>
    s!"argument {option.label}: invalid int value: {quotedChars value}"
  | missingValue option => s!"argument {option.label}: expected one argument"
  | unwantedValue option value =>
    s!"argument {option.label}: ignored explicit argument {quotedChars value}"
  | unrecognized words =>
    let names := " ".intercalate (words.map String.ofList)
    s!"unrecognized arguments: {names}"
  | negativeCount => "--count must be non-negative"

namespace CommandExit

def code : CommandExit → Nat
  | help => 0
  | usage _ => 2
  | noCount => 1

def message : CommandExit → String
  | help => ""
  | usage e => e.message
  | noCount => s!"argument {OptionKind.count.label}: nothing given"

end CommandExit
end CExpr
