/-!
# The grammar of command lines

A command takes operands and options in any order. An option is named by a word after two dashes,
or by a letter after one; its value follows as the next argument, or in the same one. After two
bare dashes all arguments are operands. Reading goes from left to right and ends at the first
mistake or request for help.
-/

namespace Ridership.Command

inductive Refusal
  | help
  | usage
deriving DecidableEq, Repr

/-- What an option does to the request read so far. -/
inductive Effect (σ : Type)
  | flag (set : σ → Except Refusal σ)
  | valued (set : σ → String → Except Refusal σ)

structure Opt (σ : Type) where
  word : String
  letter : Option Char := none
  effect : Effect σ

/-- An option that takes a value, with the value if the same argument gives it. -/
structure Pending (σ : Type) where
  set : σ → String → Except Refusal σ
  given : Option String

structure Grammar (σ : Type) where
  options : List (Opt σ)
  operand : σ → String → Except Refusal σ

namespace Grammar

variable {σ : Type}

/-- The argument is a value and not the name of an option. -/
def isValue (arg : String) : Bool :=
  !arg.startsWith "-" || arg == "-"

def byWord (g : Grammar σ) (word : String) : Except Refusal (Effect σ) :=
  if word = "help" then .ok (.flag fun _ => .error .help)
  else match g.options.find? (·.word == word) with
    | some o => .ok o.effect
    | none => .error .usage

def byLetter (g : Grammar σ) (letter : Char) : Except Refusal (Effect σ) :=
  if letter = 'h' then .ok (.flag fun _ => .error .help)
  else match g.options.find? (·.letter == some letter) with
    | some o => .ok o.effect
    | none => .error .usage

def splitWord (cs : List Char) : String × Option String :=
  (String.ofList (cs.takeWhile (· ≠ '=')),
    match cs.dropWhile (· ≠ '=') with
    | [] => none
    | _ :: value => some (String.ofList value))

def readWord (g : Grammar σ) (s : σ) (cs : List Char) :
    Except Refusal (σ × Option (Pending σ)) := do
  let (word, given) := splitWord cs
  match ← g.byWord word, given with
  | .flag set, none => return (← set s, none)
  | .flag _, some _ => throw .usage
  | .valued set, given => return (s, some ⟨set, given⟩)

/-- Reads letters behind one dash, up to the first one that takes a value. What follows that
letter is its value, with or without an equals sign in front. -/
def readLetters (g : Grammar σ) (s : σ) : List Char → Except Refusal (σ × Option (Pending σ))
  | [] => .ok (s, none)
  | c :: cs => do
    match ← g.byLetter c, cs with
    | .flag set, cs => readLetters g (← set s) cs
    | .valued set, [] => return (s, some ⟨set, none⟩)
    | .valued set, '=' :: value => return (s, some ⟨set, some (String.ofList value)⟩)
    | .valued set, value => return (s, some ⟨set, some (String.ofList value)⟩)

/-- Reads one argument that is not two bare dashes. -/
def readArgument (g : Grammar σ) (s : σ) (arg : String) :
    Except Refusal (σ × Option (Pending σ)) :=
  match arg.toList with
  | '-' :: '-' :: cs => g.readWord s cs
  | '-' :: c :: cs => g.readLetters s (c :: cs)
  | _ => (g.operand s arg).map fun s => (s, none)

def read (g : Grammar σ) (s : σ) : List String → Except Refusal σ
  | [] => .ok s
  | arg :: rest =>
    if arg = "--" then rest.foldlM g.operand s
    else
      match g.readArgument s arg with
      | .error r => .error r
      | .ok (s, none) => read g s rest
      | .ok (s, some ⟨set, some value⟩) => (set s value).bind fun s => read g s rest
      | .ok (s, some ⟨set, none⟩) =>
        match rest with
        | [] => .error .usage
        | value :: rest =>
          if isValue value then (set s value).bind fun s => read g s rest else .error .usage

end Grammar

end Ridership.Command
