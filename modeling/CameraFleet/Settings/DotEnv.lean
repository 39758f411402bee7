import CameraFleet.Settings.Environment
import CameraFleet.Text.Alphanumeric
import CameraFleet.Text.Utf8

/-!
# Files of variables

A file may set variables that the environment does not have, one a line. A line goes on while a
quote is open. In a value single quotes keep everything as it is, double quotes keep blanks, a
backslash escapes, and a dollar sign puts the value of a variable in place.
-/

namespace CameraFleet.Settings.DotEnv

open Utf8 (Symbol)

/-! ## Lines -/

/-- What stands open at some place of a line, with or without a backslash just before it. -/
inductive Open where
  | nothing
  /-- A blank stands just before. -/
  | blank
  | escape
  | single
  | singleEscape
  | double
  | doubleEscape
  deriving DecidableEq

/-- What a character outside quotes opens. -/
def Open.ofChar (c : Char) : Open :=
  if c = '\\' then .escape
  else if c = '\x22' then .double
  else if c = '\'' then .single
  else .nothing

/-- What is open behind one more character; nothing comes behind a number sign that follows a
blank, for there a comment begins. -/
def Open.next (o : Open) (c : Char) : Option Open :=
  match o with
  | .blank => if c = '#' then none else some (.ofChar c)
  | .nothing =>
    if Text.isBlank c ∧ c ≠ '\n' ∧ c ≠ '\r' then some .blank else some (.ofChar c)
  | .escape => some .nothing
  | .single => some (if c = '\\' then .singleEscape else if c = '\'' then .nothing else .single)
  | .singleEscape => some .single
  | .double => some (if c = '\\' then .doubleEscape else if c = '\x22' then .nothing else .double)
  | .doubleEscape => some .double

/-- Reads a line: what is open at its end, or its part before a comment. -/
def Open.scan (o : Open) (seen : List Char) : List Char → Open ⊕ List Char
  | [] => .inl o
  | c :: cs =>
    match o.next c with
    | some o => o.scan (c :: seen) cs
    | none => .inr seen.reverse

/-- A line of the file as it is to be read, joined from several where a quote was open. -/
inductive Line where
  | text (cs : List Char)
  /-- Something is still open at the end of the file. -/
  | unclosed
  /-- The bytes are not well-formed. -/
  | unreadable

/-- The line without the line end. -/
def dropLineEnd (cs : List Char) : List Char :=
  match cs.reverse with
  | '\n' :: '\r' :: rest => rest.reverse
  | '\n' :: rest => rest.reverse
  | _ => cs

/-- Cuts off the first line, with its line end. -/
def cutLine : List Symbol → List Symbol × List Symbol
  | [] => ([], [])
  | some '\n' :: rest => ([some '\n'], rest)
  | c :: rest => let (line, rest) := cutLine rest; (c :: line, rest)

/-- The lines of the file, `seen` being what the current one holds so far. Nothing comes behind a
line that ends the reading. -/
def lines (fuel : Nat) (o : Open) (seen : List Char) (s : List Symbol) : List Line :=
  match fuel with
  | 0 => []
  | fuel + 1 =>
    if s.isEmpty then (if o = .nothing then [] else [.unclosed])
    else
      let (line, rest) := cutLine s
      if line.any (·.isNone) then [.unreadable]
      else
        let cs := line.filterMap id
        let all := seen ++ cs
        if (all.dropWhile Text.isBlank).head? = some '#' then
          .text [] :: lines fuel .nothing [] rest
        else match o.scan [] cs with
          | .inl .nothing => .text (dropLineEnd all) :: lines fuel .nothing [] rest
          | .inl o => lines fuel o all rest
          | .inr before => .text (seen ++ before) :: lines fuel .nothing [] rest

/-! ## Values -/

/-- The variables that a value may refer to: those of the environment, and those of earlier
lines. -/
structure Scope where
  environment : Environment
  stored : Environment

/-- The value of a variable; one that is nowhere set is empty. -/
def Scope.value (s : Scope) (name : List Char) : List Char :=
  let name := String.ofList name
  match s.environment.lookup name with
  | some v => v.toList
  | none => ((s.stored.lookup name).getD "").toList

/-- Where in a value a character stands; `inDouble` tells whether double quotes are open. -/
inductive Place where
  | plain (inDouble : Bool)
  | single
  | escaped (inDouble : Bool)
  /-- In the name behind a dollar sign. -/
  | name (inDouble : Bool) (found : List Char)
  /-- In a name between braces. -/
  | braced (inDouble : Bool) (found : List Char)
  /-- Behind the value. -/
  | after
  deriving DecidableEq

/-- The character that a backslash and a character stand for. -/
def unescape? (c : Char) : Option Char :=
  if c ∈ ['\\', '\'', '\x22', '$', ' '] then some c
  else if c = 'n' then some '\n'
  else none

/-- Reads a value; what it holds so far comes in reverse. -/
def value? (s : Scope) (place : Place) (found : List Char) : List Char → Option (List Char)
  | [] =>
    match place with
    | .plain false | .escaped false | .after => some found.reverse
    | .name false name => some (found.reverse ++ s.value name.reverse)
    | _ => none
  | c :: cs =>
    match place with
    | .after =>
      if c = ' ' ∨ c = '\t' then value? s .after found cs
      else if c = '#' then some found.reverse
      else none
    | .escaped inDouble =>
      match unescape? c with
      | some d => value? s (.plain inDouble) (d :: found) cs
      | none => none
    | .single =>
      if c = '\'' then value? s (.plain false) found cs else value? s .single (c :: found) cs
    | .name inDouble name =>
      if Text.isAlphanumeric c then value? s (.name inDouble (c :: name)) found cs
      else if c = '\x7b' ∧ name = [] then value? s (.braced inDouble []) found cs
      else
        let found := (s.value name.reverse).reverse ++ found
        if c = '$' then value? s (.name inDouble []) found cs
        else value? s (.plain inDouble) (c :: found) cs
    | .braced inDouble name =>
      if c = '\x7d' then
        value? s (.plain inDouble) ((s.value name.reverse).reverse ++ found) cs
      else value? s (.braced inDouble (c :: name)) found cs
    | .plain inDouble =>
      if c = '$' then value? s (.name inDouble []) found cs
      else if c = '\\' then value? s (.escaped inDouble) found cs
      else if c = '\x22' then value? s (.plain !inDouble) found cs
      else if inDouble then value? s (.plain true) (c :: found) cs
      else if c = '\'' then value? s .single found cs
      else if c = ' ' ∨ c = '\t' then value? s .after found cs
      else value? s (.plain false) (c :: found) cs

/-! ## Settings -/

/-- The name of a variable at the beginning, and what follows it. -/
def key? (cs : List Char) : Option (List Char × List Char) :=
  match cs with
  | c :: _ =>
    if c.isAlpha ∨ c = '_' then
      let inKey (c : Char) : Bool := c.isAlphanum || c = '_' || c = '.'
      some (cs.takeWhile inKey, cs.dropWhile inKey)
    else none
  | [] => none

/-- What follows an equals sign that has to come next, blanks left out. -/
def afterEquals? : List Char → Option (List Char)
  | '=' :: rest => some (rest.dropWhile Text.isBlank)
  | _ => none

/-- The name of a variable and the text of its value. The word `export` may stand before. -/
def assignment? (cs : List Char) : Option (List Char × List Char) := do
  let (key, rest) ← key? cs
  let rest := rest.dropWhile Text.isBlank
  match afterEquals? rest with
  | some value => some (key, value)
  | none =>
    if key = ['e', 'x', 'p', 'o', 'r', 't'] then do
      let (key, rest) ← key? rest
      let value ← afterEquals? (rest.dropWhile Text.isBlank)
      some (key, value)
    else none

/-- What a line does: nothing, or set a variable. -/
def setting? (s : Scope) (line : List Char) : Option (Option (String × String)) :=
  let line := Text.stripBy Text.isBlank line
  if line.isEmpty ∨ line.head? = some '#' then some none
  else match assignment? line with
    | none => none
    | some (key, value) =>
      let text := if value.head? = some '#' then some [] else value? s (.plain false) [] value
      text.map fun v => some (String.ofList key, String.ofList v)

/-- Applies the lines one by one. What the environment has stays, and of two lines for a variable
the first one counts. The result tells whether all lines could be read; a line that means nothing
is an error. -/
def setAll? (s : Scope) : List Line → Option (Environment × Bool)
  | [] => some (s.environment, true)
  | .unreadable :: _ => some (s.environment, false)
  | .unclosed :: _ => none
  | .text cs :: rest =>
    match setting? s cs with
    | none => none
    | some none => setAll? s rest
    | some (some (key, value)) =>
      let environment :=
        if (s.environment.lookup key).isSome then s.environment
        else s.environment ++ [(key, value)]
      setAll? ⟨environment, (key, value) :: s.stored⟩ rest

/-- The environment with the variables of a file, and whether the whole file was read. -/
def load? (environment : Environment) (file : ByteArray) : Option (Environment × Bool) :=
  let s := match Utf8.symbols file with
    | some '\uFEFF' :: rest => rest
    | s => s
  setAll? ⟨environment, []⟩ (lines (s.length + 1) .nothing [] s)

end CameraFleet.Settings.DotEnv
