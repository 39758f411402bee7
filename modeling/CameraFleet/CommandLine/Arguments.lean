import CameraFleet.Number.Natural
import CameraFleet.Settings.Environment
import CameraFleet.Text.Split

/-!
# Arguments

Options on a command line. A long option has its value behind an equals sign or in the next
argument, which does not begin with a hyphen; a short one also right behind its letter. No option
is given twice. What the command line leaves out may be in the environment.
-/

namespace CameraFleet.CommandLine

/-- An option. -/
structure Flag where
  name : String
  letter : Option Char
  takesValue : Bool
  deriving DecidableEq

/-- An option with a value. -/
def Flag.valued (name : String) : Flag := ⟨name, none, true⟩

/-- An option without a value. -/
def Flag.plain (name : String) : Flag := ⟨name, none, false⟩

/-- The options that were given, with their values. -/
abbrev Given := List (String × String)

namespace Given

/-- Adds an option that was not given before. -/
def add? (given : Given) (name value : String) : Option Given :=
  if (given.lookup name).isSome then none else some (given ++ [(name, value)])

/-- The value of an option, from the environment if need be. -/
def value? (given : Given) (name inEnvironment : String) (env : Settings.Environment) :
    Option String :=
  (given.lookup name).or (env.lookup inEnvironment)

end Given

/-- Whether an argument looks like an option, so that it is no value. -/
def looksLikeFlag (arg : String) : Bool :=
  arg ≠ "-" && arg.toList.head? = some '-'

/-- An argument that is an option: the option, and the value inside the argument. -/
def flag? (flags : List Flag) (arg : String) : Option (Flag × Option String) :=
  match arg.toList with
  | '-' :: '-' :: cs =>
    let (name, value) := Text.cutAt '=' cs
    (flags.find? (·.name.toList = name)).map fun flag => (flag, value.map String.ofList)
  | '-' :: c :: cs =>
    (flags.find? (·.letter = some c)).map fun flag =>
      let value := match cs with
        | [] => none
        | '=' :: rest => some (String.ofList rest)
        | _ => some (String.ofList cs)
      (flag, value)
  | _ => none

/-- The value of an option, from inside its argument or from those behind it, and the arguments
that are left. -/
def takeValue? (flag : Flag) (inside : Option String) (rest : List String) :
    Option (String × { left : List String // left.length ≤ rest.length }) :=
  match flag.takesValue, inside, rest with
  | false, none, rest => some ("", ⟨rest, Nat.le_refl _⟩)
  | true, some value, rest => some (value, ⟨rest, Nat.le_refl _⟩)
  | true, none, value :: rest =>
    if looksLikeFlag value then none else some (value, ⟨rest, Nat.le_succ _⟩)
  | _, _, _ => none

/-- Reads options up to the first argument that is none, and gives what is left. Behind two
hyphens no options are expected. -/
def readFlags (flags : List Flag) (given : Given) : List String → Option (Given × List String)
  | [] => some (given, [])
  | arg :: rest =>
    if arg = "--" then if rest.isEmpty then some (given, []) else none
    else if !looksLikeFlag arg then some (given, arg :: rest)
    else match flag? flags arg with
    | none => none
    | some (flag, inside) =>
      match takeValue? flag inside rest with
      | none => none
      | some (value, ⟨left, _⟩) =>
        match given.add? flag.name value with
        | none => none
        | some given => readFlags flags given left
termination_by args => args.length
decreasing_by simp only [List.length_cons]; omega

/-- The options of a command line that has nothing else. -/
def onlyFlags? (flags : List Flag) (args : List String) : Option Given :=
  match readFlags flags [] args with
  | some (given, []) => some given
  | _ => none

/-! ## Values -/

/-- A value that has to be read where it is given. -/
def readValue? {α : Type} (read : String → Option α) : Option String → Option (Option α)
  | none => some none
  | some s => (read s).map some

/-- A whole number below `limit`, with a sign or none. -/
def number? (limit : Nat) (s : String) : Option Nat :=
  match s.toList with
  | '-' :: cs => (Natural.ofDigits? cs).filter (· = 0)
  | cs => Natural.word? limit cs

/-- A path, which is not empty. -/
def path? (s : String) : Option String :=
  if s = "" then none else some s

end CameraFleet.CommandLine
