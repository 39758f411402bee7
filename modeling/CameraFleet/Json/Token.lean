import CameraFleet.Json.Number
import CameraFleet.Text.Hex
import CameraFleet.Text.Utf8

/-!
# Tokens of JSON

A document is cut into punctuation, words, numbers and texts, with blanks between them. A text
whose escapes or bytes encode no characters is a token like any other, but one without a value.
-/

namespace CameraFleet.Json

open Utf8 (Symbol)

inductive Token where
  | openList
  | closeList
  | openTable
  | closeTable
  | colon
  | comma
  /-- A number, one of the words for null, true and false. -/
  | scalar (value : Datum)
  | text (value : Option String)

namespace Token

def isBlank (c : Char) : Bool :=
  c = ' ' || c = '\t' || c = '\n' || c = '\r'

/-- The characters that numbers are made of. -/
def inNumber : Symbol → Bool
  | some c => c.isDigit || c = '-' || c = '+' || c = '.' || c = 'e' || c = 'E'
  | none => false

def inWord : Symbol → Bool
  | some c => c.isLower
  | none => false

def punctuation? : Char → Option Token
  | '[' => some .openList
  | ']' => some .closeList
  | '{' => some .openTable
  | '}' => some .closeTable
  | ':' => some .colon
  | ',' => some .comma
  | _ => none

/-- The scalar that a word names. -/
def word? (cs : List Char) : Option Token :=
  if cs = ['n', 'u', 'l', 'l'] then some (.scalar .null)
  else if cs = ['t', 'r', 'u', 'e'] then some (.scalar (.bool true))
  else if cs = ['f', 'a', 'l', 's', 'e'] then some (.scalar (.bool false))
  else none

/-- Four hexadecimal digits at the beginning, and what follows them. -/
def hex4? : List Symbol → Option (Nat × List Symbol)
  | some a :: some b :: some c :: some d :: rest => do
    let a ← Text.hexDigit? a
    let b ← Text.hexDigit? b
    let c ← Text.hexDigit? c
    let d ← Text.hexDigit? d
    return (((a * 16 + b) * 16 + c) * 16 + d, rest)
  | _ => none

theorem length_of_hex4? {s rest : List Symbol} {n : Nat} (h : hex4? s = some (n, rest)) :
    s.length = rest.length + 4 := by
  unfold hex4? at h
  split at h
  · simp only [Option.bind_eq_bind, Option.bind_eq_some_iff, Option.pure_def, Option.some.injEq,
      Prod.mk.injEq] at h
    obtain ⟨_, _, _, _, _, _, _, _, _, rfl⟩ := h
    simp
  · simp at h

/-- The character behind a backslash, unless it is the letter of a code unit. -/
def escape? : Char → Option Char
  | '\x22' => some '\x22'
  | '\\' => some '\\'
  | '/' => some '/'
  | 'b' => some '\x08'
  | 'f' => some '\x0c'
  | 'n' => some '\n'
  | 'r' => some '\r'
  | 't' => some '\t'
  | _ => none

/-- The character of two code units, the second written behind the first. -/
def pair? (high : Nat) (rest : List Symbol) : Option (Char × List Symbol) :=
  match rest with
  | some '\\' :: some 'u' :: rest =>
    match hex4? rest with
    | some (low, rest) =>
      if 0xDC00 ≤ low ∧ low < 0xE000 then
        some (Char.ofNat (0x10000 + (high - 0xD800) * 0x400 + (low - 0xDC00)), rest)
      else none
    | none => none
  | _ => none

theorem length_of_pair? {n : Nat} {s rest : List Symbol} {c : Char}
    (h : pair? n s = some (c, rest)) : rest.length < s.length := by
  unfold pair? at h
  split at h
  · split at h
    · rename_i he
      split at h
      · simp only [Option.some.injEq, Prod.mk.injEq] at h
        obtain ⟨_, rfl⟩ := h
        simp only [List.length_cons, length_of_hex4? he]
        omega
      · simp at h
    · simp at h
  · simp at h

/-- Reads a text up to the quote that ends it. The characters come in reverse, and are missing
once something stood there that is no character; a control character is not allowed. -/
def scanText (found : Option (List Char)) (s : List Symbol) :
    Option (Option String × List Symbol) :=
  match s with
  | [] => none
  | none :: rest => scanText none rest
  | some '\x22' :: rest => some (found.map fun cs => String.ofList cs.reverse, rest)
  | some '\\' :: some 'u' :: rest =>
    match _h : hex4? rest with
    | none => none
    | some (n, rest') =>
      if 0xD800 ≤ n ∧ n < 0xDC00 then
        match _hp : pair? n rest' with
        | some (c, rest'') => scanText (found.map (c :: ·)) rest''
        | none => scanText none rest'
      else if 0xDC00 ≤ n ∧ n < 0xE000 then scanText none rest'
      else scanText (found.map (Char.ofNat n :: ·)) rest'
  | some '\\' :: some e :: rest =>
    match escape? e with
    | some c => scanText (found.map (c :: ·)) rest
    | none => none
  | some '\\' :: _ => none
  | some c :: rest => if c.toNat < 0x20 then none else scanText (found.map (c :: ·)) rest
termination_by s.length
decreasing_by
  · simp
  · have := length_of_pair? _hp
    have := length_of_hex4? _h
    simp only [List.length_cons]
    omega
  · have := length_of_hex4? _h
    simp only [List.length_cons]
    omega
  · have := length_of_hex4? _h
    simp only [List.length_cons]
    omega
  · have := length_of_hex4? _h
    simp only [List.length_cons]
    omega
  · simp only [List.length_cons]; omega
  · simp

theorem length_of_scanText {found : Option (List Char)} {s rest : List Symbol}
    {v : Option String} (h : scanText found s = some (v, rest)) : rest.length < s.length := by
  fun_induction scanText found s with
  | case1 => simp at h
  | case2 _ _ ih => have := ih h; simp only [List.length_cons]; omega
  | case3 =>
    simp only [Option.some.injEq, Prod.mk.injEq] at h
    simp [h.2]
  | case4 => simp at h
  | case5 _ _ _ _ he _ _ _ hp ih =>
    have := ih h
    have := length_of_pair? hp
    have := length_of_hex4? he
    simp only [List.length_cons]
    omega
  | case6 _ _ _ _ he _ _ ih =>
    have := ih h
    have := length_of_hex4? he
    simp only [List.length_cons]
    omega
  | case7 _ _ _ _ he _ _ ih =>
    have := ih h
    have := length_of_hex4? he
    simp only [List.length_cons]
    omega
  | case8 _ _ _ _ he _ _ ih =>
    have := ih h
    have := length_of_hex4? he
    simp only [List.length_cons]
    omega
  | case9 _ _ _ _ _ _ ih => have := ih h; simp only [List.length_cons]; omega
  | case10 => simp at h
  | case11 => simp at h
  | case12 => simp at h
  | case13 =>
    rename_i ih
    have := ih h
    simp only [List.length_cons]
    omega

/-- Cuts a document into tokens, which come in reverse. -/
def scanFrom (found : List Token) (s : List Symbol) : Option (List Token) :=
  match s with
  | [] => some found
  | none :: _ => none
  | some c :: rest =>
    if isBlank c then scanFrom found rest
    else match punctuation? c with
    | some t => scanFrom (t :: found) rest
    | none =>
      if c = '\x22' then
        match _h : scanText (some []) rest with
        | some (v, rest') => scanFrom (.text v :: found) rest'
        | none => none
      else if c = '-' ∨ c.isDigit then
        match number? (c :: (rest.takeWhile inNumber).filterMap id) with
        | some d => scanFrom (.scalar d :: found) (rest.dropWhile inNumber)
        | none => none
      else
        match word? (c :: (rest.takeWhile inWord).filterMap id) with
        | some t => scanFrom (t :: found) (rest.dropWhile inWord)
        | none => none
termination_by s.length
decreasing_by
  · simp
  · simp
  · have := length_of_scanText _h
    simp only [List.length_cons]; omega
  · have := (List.dropWhile_sublist (l := rest) inNumber).length_le
    simp only [List.length_cons]; omega
  · have := (List.dropWhile_sublist (l := rest) inWord).length_le
    simp only [List.length_cons]; omega

/-- The tokens of a document. -/
def scan? (s : List Symbol) : Option (List Token) :=
  (scanFrom [] s).map List.reverse

end Token

end CameraFleet.Json
