import CExpr.CommandLine.Arguments

/-!
The help of the program: how it is called and what each option is for. A line is filled with words as
long as they fit, and what is said of an option stands in a column of its own, on the line of the option
if that ends before the column and from the next line on otherwise.
-/
namespace CExpr

namespace Help

def program : String := "exprfuzz"

def subject : String := "exprfuzz - random precedence-correct C expression generator"

def lineWidth : Nat := 78

def column : Nat := 24

def spaces (count : Nat) : String := "".pushn ' ' count

/-- The words in lines, the first of which has some words already. Another line is begun for a word that
would make the line too long. -/
def filled (width : Nat) : List String → List String → List (List String)
  | line, [] => [line]
  | line, word :: rest =>
    if (" ".intercalate (line ++ [word])).length ≤ width then filled width (line ++ [word]) rest
    else line :: filled width [word] rest

/-- No word is lost, and none changes its place. -/
theorem flatten_filled (width : Nat) (line words : List String) :
    (filled width line words).flatten = line ++ words := by
  induction words generalizing line with
  | nil => rw [filled, List.flatten_singleton, List.append_nil]
  | cons word rest ih =>
      rw [filled]
      split
      · rw [ih, List.append_assoc, List.singleton_append]
      · rw [List.flatten_cons, ih, List.singleton_append]

/-- A line that is too long has a single word. -/
theorem fits_of_mem_filled {width : Nat} {line words found : List String}
    (start : (" ".intercalate line).length ≤ width ∨ ∃ word, line = [word])
    (member : found ∈ filled width line words) :
    (" ".intercalate found).length ≤ width ∨ ∃ word, found = [word] := by
  induction words generalizing line with
  | nil =>
      rw [filled] at member
      rwa [List.mem_singleton.mp member]
  | cons word rest ih =>
      rw [filled] at member
      split at member
      · rename_i fits
        exact ih (.inl fits) member
      · rcases List.mem_cons.mp member with rfl | later
        · exact start
        · exact ih (.inr ⟨word, rfl⟩) later

def lines (width : Nat) : List String → List String
  | [] => []
  | word :: rest => (filled width [word] rest).map (" ".intercalate ·)

end Help

namespace OptionKind

def placeholder (option : OptionKind) : String :=
  let long := (option.spellings.find? WordRole.isLong).getD []
  String.ofList ((long.drop 2).map fun c => if c = '-' then '_' else c.toUpper)

def withPlaceholder (option : OptionKind) (spelling : List Char) : String :=
  if option.takesValue then s!"{String.ofList spelling} {option.placeholder}"
  else String.ofList spelling

def purpose : OptionKind → String
  | help => "show this help message and exit"
  | seed => "seed for the random source (default: random)"
  | count => s!"number of expressions to generate (default: {Arguments.default.count.getD 0})"
  | config => "JSON generator configuration file"
  | name => "name of the variable referenced by generated expressions " ++
      s!"(default: {Arguments.defaultName})"
  | timeout => "seconds allowed per expression, 0 disables " ++
      s!"(default: {Arguments.default.timeout.getD 0})"
  | reference => "print the reference value of integer-only expressions"
  | nameValue => "value bound to the variable for --reference " ++
      s!"(default: {Arguments.default.nameValue.getD 0})"
  | debug => "enable verbose debug logging for diagnostics"

def helpLines (option : OptionKind) : List String :=
  let heading := "  " ++ ", ".intercalate (option.spellings.map option.withPlaceholder)
  let purpose := Help.lines (Help.lineWidth - Help.column) (option.purpose.splitOn " ")
  let indented := purpose.map (Help.spaces Help.column ++ ·)
  if heading.length + 2 ≤ Help.column then
    match purpose, indented with
    | first :: _, _ :: rest => (heading ++ Help.spaces (Help.column - heading.length) ++ first) :: rest
    | _, _ => [heading]
  else heading :: indented

end OptionKind

namespace Help

def usageLines : List String :=
  let start := s!"usage: {program} "
  let options := OptionKind.all.map fun option =>
    s!"[{option.withPlaceholder (option.spellings.headD [])}]"
  match lines (lineWidth - start.length) options with
  | [] => [start]
  | first :: rest => (start ++ first) :: rest.map (spaces start.length ++ ·)

example : usageLines =
    ["usage: exprfuzz [-h] [--seed SEED] [--count COUNT] [--config CONFIG]",
      "                [--variable VARIABLE] [--timeout TIMEOUT] [--reference]",
      "                [--var-value VAR_VALUE] [--debug]"] := by decide +kernel

def text : List String :=
  usageLines ++ ["", subject, "", "options:"] ++ OptionKind.all.flatMap OptionKind.helpLines

end Help
end CExpr
