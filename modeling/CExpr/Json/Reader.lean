import CExpr.Json.Value

/-!
Reading JSON text. The names of the special numbers are accepted besides the standard, and an
integer that is too long to convert is refused. Every fault names the first character that cannot go
on, but for an unterminated string, which is named by its opening quote, and a broken escape, which
is named by its backslash or by the `u` behind it.
-/
namespace CExpr.Json
open Text

inductive Fault
  | expectingValue | expectingKey | expectingColon | expectingComma | extraData
  | unterminatedString | controlCharacter | invalidEscape | invalidUnicodeEscape | byteOrderMark
  deriving DecidableEq

inductive ReadError
  | fault (kind : Fault) (position : Nat)
  | tooManyDigits (numeral : TooManyDigits)
  deriving DecidableEq

structure Cursor where
  position : Nat
  rest : List Char

def Cursor.advance (cursor : Cursor) (count : Nat) : Cursor :=
  ⟨cursor.position + count, cursor.rest.drop count⟩

def isBlank (c : Char) : Bool := c = ' ' || c = '\t' || c = '\n' || c = '\r'

def Cursor.skipBlanks (cursor : Cursor) : Cursor :=
  cursor.advance (cursor.rest.takeWhile isBlank).length

theorem Cursor.skipBlanks_le (cursor : Cursor) :
    cursor.skipBlanks.rest.length ≤ cursor.rest.length := by
  simp [skipBlanks, advance]

theorem Cursor.advance_lt (cursor : Cursor) (count : Nat) (h : cursor.rest ≠ []) :
    (cursor.advance (count + 1)).rest.length < cursor.rest.length := by
  have := List.length_pos_iff.mpr h
  simp [advance]; omega

/-! ## Strings -/

def hexValue? (c : Char) : Option Nat :=
  if '0' ≤ c ∧ c ≤ '9' then some (c.toNat - 48)
  else if 'a' ≤ c ∧ c ≤ 'f' then some (c.toNat - 87)
  else if 'A' ≤ c ∧ c ≤ 'F' then some (c.toNat - 55)
  else none

def hexValue4? (a b c d : Char) : Option Nat := do
  return (((← hexValue? a) * 16 + (← hexValue? b)) * 16 + (← hexValue? c)) * 16 + (← hexValue? d)

def isHighSurrogate (unit : Nat) : Bool := 0xd800 ≤ unit && unit < 0xdc00

def isLowSurrogate (unit : Nat) : Bool := 0xdc00 ≤ unit && unit < 0xe000

def joinSurrogates (high low : Nat) : Nat := 0x10000 + (high - 0xd800) * 0x400 + (low - 0xdc00)

def simpleEscape? : Char → Option Nat
  | '"' => some 0x22 | '\\' => some 0x5c | '/' => some 0x2f | 'b' => some 8 | 'f' => some 12
  | 'n' => some 10 | 'r' => some 13 | 't' => some 9
  | _ => none

/-- The second half of a surrogate pair at the front of a text, and what follows it. No half is
there when the next characters are no escape; an escape with a broken number is a fault. At least
one character has to follow for an escape to count. -/
def lowHalf? (position : Nat) : List Char → Except ReadError (Option Nat)
  | '\\' :: 'u' :: a :: b :: c :: d :: _ :: _ =>
    match hexValue4? a b c d with
    | some unit => .ok (if isLowSurrogate unit then some unit else none)
    | none => .error (.fault .invalidUnicodeEscape (position + 1))
  | _ => .ok none

def stringRest (start : Nat) (position : Nat) : List Char → Except ReadError (List Nat × Nat)
  | [] => .error (.fault .unterminatedString start)
  | '"' :: _ => .ok ([], 1)
  | '\\' :: rest =>
    match rest with
    | [] => .error (.fault .unterminatedString start)
    | 'u' :: rest =>
      match rest with
      | a :: b :: c :: d :: rest =>
        match hexValue4? a b c d with
        | none => .error (.fault .invalidUnicodeEscape (position + 1))
        | some unit =>
          if rest.isEmpty then .error (.fault .invalidUnicodeEscape (position + 1))
          else if isHighSurrogate unit then do
            match ← lowHalf? (position + 6) rest with
            | some low =>
              let (codePoints, length) ← stringRest start (position + 12) (rest.drop 6)
              return (joinSurrogates unit low :: codePoints, length + 12)
            | none =>
              let (codePoints, length) ← stringRest start (position + 6) rest
              return (unit :: codePoints, length + 6)
          else do
            let (codePoints, length) ← stringRest start (position + 6) rest
            return (unit :: codePoints, length + 6)
      | _ => .error (.fault .invalidUnicodeEscape (position + 1))
    | c :: rest =>
      match simpleEscape? c with
      | some codePoint => do
        let (codePoints, length) ← stringRest start (position + 2) rest
        return (codePoint :: codePoints, length + 2)
      | none => .error (.fault .invalidEscape position)
  | c :: rest =>
    if c.toNat < 0x20 then .error (.fault .controlCharacter position)
    else do
      let (codePoints, length) ← stringRest start (position + 1) rest
      return (c.toNat :: codePoints, length + 1)
termination_by text => text.length
decreasing_by all_goals simp_wf <;> omega

/-! ## Numbers -/

def fractionLength : List Char → Nat
  | '.' :: rest =>
    match (rest.takeWhile Char.isDigit).length with
    | 0 => 0
    | count => count + 1
  | _ => 0

def exponentLength : List Char → Nat
  | mark :: rest =>
    if mark = 'e' || mark = 'E' then
      let signs := match rest with
        | '+' :: _ | '-' :: _ => 1
        | _ => 0
      match ((rest.drop signs).takeWhile Char.isDigit).length with
      | 0 => 0
      | count => count + signs + 1
    else 0
  | [] => 0

def integerLength : List Char → Nat
  | '0' :: _ => 1
  | rest => (rest.takeWhile Char.isDigit).length

def number? (text : List Char) : Option (Except ReadError Value × Nat) :=
  let negative := text.head? = some '-'
  let signs := if negative then 1 else 0
  let unsigned := text.drop signs
  match integerLength unsigned with
  | 0 => none
  | whole =>
    let fraction := fractionLength (unsigned.drop whole)
    let exponent := exponentLength (unsigned.drop (whole + fraction))
    let length := whole + fraction + exponent
    let value :=
      if fraction + exponent = 0 then
        match readDigits (unsigned.take whole) with
        | .ok magnitude => .ok (.integer (if negative then -(magnitude : Int) else magnitude))
        | .error numeral => .error (.tooManyDigits numeral)
      else .ok (.number (.ofNumeral negative (unsigned.take length)))
    some (value, signs + length)

/-! ## Values -/

def literals : List (List Char × Value) :=
  [("null".toList, .null), ("true".toList, .truth true), ("false".toList, .truth false),
    ("NaN".toList, .number .nan), ("Infinity".toList, .number (.infinite false)),
    ("-Infinity".toList, .number (.infinite true))]

/-- Where reading goes on, which is further than where it began. -/
abbrev Beyond (cursor : Cursor) := { next : Cursor // next.rest.length < cursor.rest.length }

mutual

def value (cursor : Cursor) : Except ReadError (Value × Beyond cursor) :=
  match h : cursor.rest with
  | [] => .error (.fault .expectingValue cursor.position)
  | first :: rest =>
    have nonempty : cursor.rest ≠ [] := by simp [h]
    if first = '"' then do
      let (codePoints, length) ← stringRest cursor.position (cursor.position + 1) rest
      return (.text codePoints, ⟨cursor.advance (length + 1), cursor.advance_lt length nonempty⟩)
    else if first = '[' then do
      let inside := (cursor.advance 1).skipBlanks
      have shorter : inside.rest.length < cursor.rest.length :=
        Nat.lt_of_le_of_lt (Cursor.skipBlanks_le _) (cursor.advance_lt 0 nonempty)
      match h : inside.rest with
      | ']' :: _ =>
        return (.list [], ⟨inside.advance 1, Nat.lt_trans (inside.advance_lt 0 (by simp [h])) shorter⟩)
      | _ =>
        let (items, next) ← items inside
        return (.list items, ⟨next.val, Nat.lt_trans next.property shorter⟩)
    else if first = '\x7b' then do
      let inside := (cursor.advance 1).skipBlanks
      have shorter : inside.rest.length < cursor.rest.length :=
        Nat.lt_of_le_of_lt (Cursor.skipBlanks_le _) (cursor.advance_lt 0 nonempty)
      match h : inside.rest with
      | '\x7d' :: _ =>
        return (.object [], ⟨inside.advance 1, Nat.lt_trans (inside.advance_lt 0 (by simp [h])) shorter⟩)
      | _ =>
        let (entries, next) ← entries inside []
        return (.object entries, ⟨next.val, Nat.lt_trans next.property shorter⟩)
    else
      match literals.find? (·.1.isPrefixOf cursor.rest) with
      | some (word, found) =>
        .ok (found, ⟨cursor.advance (word.length - 1 + 1), cursor.advance_lt _ nonempty⟩)
      | none =>
        match number? cursor.rest with
        | some (found, length) => do
          return (← found, ⟨cursor.advance (length - 1 + 1), cursor.advance_lt _ nonempty⟩)
        | none => .error (.fault .expectingValue cursor.position)
termination_by (cursor.rest.length, 0)

def items (cursor : Cursor) : Except ReadError (List Value × Beyond cursor) := do
  let (item, next) ← value cursor
  let after := next.val.skipBlanks
  have shorter : after.rest.length < cursor.rest.length :=
    Nat.lt_of_le_of_lt (Cursor.skipBlanks_le _) next.property
  match h : after.rest with
  | ']' :: _ =>
    return ([item], ⟨after.advance 1, Nat.lt_trans (after.advance_lt 0 (by simp [h])) shorter⟩)
  | ',' :: _ =>
    let following := (after.advance 1).skipBlanks
    have further : following.rest.length < cursor.rest.length :=
      Nat.lt_of_le_of_lt (Cursor.skipBlanks_le _)
        (Nat.lt_trans (after.advance_lt 0 (by simp [h])) shorter)
    let (rest, last) ← items following
    return (item :: rest, ⟨last.val, Nat.lt_trans last.property further⟩)
  | _ => throw (.fault .expectingComma after.position)
termination_by (cursor.rest.length, 1)

def entries (cursor : Cursor) (before : List (List Nat × Value)) :
    Except ReadError (List (List Nat × Value) × Beyond cursor) := do
  match h : cursor.rest with
  | '"' :: rest =>
    have nonempty : cursor.rest ≠ [] := by simp [h]
    let (key, length) ← stringRest cursor.position (cursor.position + 1) rest
    let colon := (cursor.advance (length + 1)).skipBlanks
    have shorter : colon.rest.length < cursor.rest.length :=
      Nat.lt_of_le_of_lt (Cursor.skipBlanks_le _) (cursor.advance_lt length nonempty)
    match h : colon.rest with
    | ':' :: _ =>
      let start := (colon.advance 1).skipBlanks
      have startShorter : start.rest.length < cursor.rest.length :=
        Nat.lt_of_le_of_lt (Cursor.skipBlanks_le _)
          (Nat.lt_trans (colon.advance_lt 0 (by simp [h])) shorter)
      let (found, next) ← value start
      let after := next.val.skipBlanks
      have afterShorter : after.rest.length < cursor.rest.length :=
        Nat.lt_of_le_of_lt (Cursor.skipBlanks_le _) (Nat.lt_trans next.property startShorter)
      let here := put key found before
      match h : after.rest with
      | '\x7d' :: _ =>
        return (here, ⟨after.advance 1, Nat.lt_trans (after.advance_lt 0 (by simp [h])) afterShorter⟩)
      | ',' :: _ =>
        let following := (after.advance 1).skipBlanks
        have further : following.rest.length < cursor.rest.length :=
          Nat.lt_of_le_of_lt (Cursor.skipBlanks_le _)
            (Nat.lt_trans (after.advance_lt 0 (by simp [h])) afterShorter)
        let (all, last) ← entries following here
        return (all, ⟨last.val, Nat.lt_trans last.property further⟩)
      | _ => throw (.fault .expectingComma after.position)
    | _ => throw (.fault .expectingColon colon.position)
  | _ => throw (.fault .expectingKey cursor.position)
termination_by (cursor.rest.length, 1)

end

def read (text : List Char) : Except ReadError Value :=
  if text.head? = some '\ufeff' then .error (.fault .byteOrderMark 0)
  else do
    let (found, next) ← value (Cursor.skipBlanks ⟨0, text⟩)
    let last := next.val.skipBlanks
    if last.rest.isEmpty then return found else throw (.fault .extraData last.position)

namespace Fault

def message : Fault → String
  | expectingValue => "Expecting value"
  | expectingKey => "Expecting property name enclosed in double quotes"
  | expectingColon => "Expecting ':' delimiter"
  | expectingComma => "Expecting ',' delimiter"
  | extraData => "Extra data"
  | unterminatedString => "Unterminated string starting at"
  | controlCharacter => "Invalid control character at"
  | invalidEscape => "Invalid \\escape"
  | invalidUnicodeEscape => "Invalid \\uXXXX escape"
  | byteOrderMark => "Unexpected UTF-8 BOM (decode using utf-8-sig)"

def located (fault : Fault) (text : List Char) (position : Nat) : String :=
  let before := text.take position
  let line := before.count '\n' + 1
  let column := (before.reverse.takeWhile (· ≠ '\n')).length + 1
  s!"{fault.message}: line {line} column {column} (char {position})"

end Fault

def ReadError.message (text : List Char) : ReadError → String
  | .fault kind position => kind.located text position
  | .tooManyDigits numeral => numeral.message

end CExpr.Json
