import Sitewright.Text.Basic

/-!
# Arguments

A command line is a list of words: options that every command has, the name of a command, its
options and its operands. Options and operands may be mixed. Options have a long name and may have
a letter; letters may share a word, and a value may stand in the same word. After `--` all words
are operands.
-/

namespace Sitewright.CommandLine

inductive Command
  | project (uidl : String) (template out preset : Option String)
  | component (uidl generator : String) (importPrefix : Option String)
  | init (name preset : String)
  deriving Repr, DecidableEq, Inhabited

structure Invocation where
  config : String
  verbose : Bool
  command : Command
  deriving Repr, DecidableEq, Inhabited

/-- Why no command is run. -/
inductive Usage
  | help
  | version
  | nothingGiven
  | missingCommand
  | unknownCommand
  | missingOperand
  | unknownArgument
  | missingValue
  | unexpectedValue
  | repeatedOption
  deriving Repr, DecidableEq, Inhabited

/-- Asking for help is no mistake. -/
def Usage.exitCode : Usage → Nat
  | help | version => 0
  | _ => 2

/-- What an option takes: nothing, any text, or a path, which is not empty. -/
inductive Parameter
  | none
  | text
  | path
  deriving Repr, DecidableEq, Inhabited

structure Switch where
  name : String
  letter : Option Char
  parameter : Parameter
  deriving Repr, DecidableEq, Inhabited

/-- The words before the name of a command, or those after it. -/
inductive Scope
  | top
  | project
  | component
  | init
  deriving Repr, DecidableEq, Inhabited

namespace Scope

def ofName? : String → Option Scope
  | "project" => some project
  | "component" => some component
  | "init" => some init
  | _ => none

def switches (s : Scope) : List Switch :=
  let own : List Switch := match s with
    | top => []
    | project =>
      [⟨"template", some 't', .path⟩, ⟨"out", some 'o', .path⟩, ⟨"preset", some 'p', .text⟩]
    | component => [⟨"generator", some 'g', .text⟩, ⟨"prefix", none, .text⟩]
    | init => [⟨"preset", some 'p', .text⟩]
  own ++ [⟨"verbose", some 'v', .none⟩, ⟨"config", some 'c', .text⟩, ⟨"help", some 'h', .none⟩,
    ⟨"version", some 'V', .none⟩]

def operand : Scope → Parameter
  | top => .none
  | project | component => .path
  | init => .text

def needsOperand : Scope → Bool
  | project | component => true
  | top | init => false

end Scope

/-- What has been given but not taken yet. It is taken when the next option or operand is known to
be one, or at the end. -/
inductive Pending
  /-- An option and its value, if that has come. -/
  | option (o : Switch) (value : Option String)
  | operand (word : String)
  deriving Inhabited

/-- What has been read of the words of a scope. -/
structure Reading where
  scope : Scope := .top
  /-- The options so far with their values, the last one first. -/
  given : List (String × String) := []
  operand : Option String := none
  pending : Option Pending := none
  /-- Whether there has been an operand, taken or pending. -/
  hasOperand : Bool := false
  /-- Whether only operands follow. -/
  literal : Bool := false
  deriving Inhabited

namespace Reading

/-- Whether the next word is the value of an option, unless it is an option itself. -/
def isWaiting (r : Reading) : Bool :=
  match r.pending with
  | some (.option _ none) => true
  | _ => false

def checkValue (parameter : Parameter) (value : String) : Except Usage Unit :=
  if parameter = .path ∧ value = "" then .error .missingValue else .ok ()

/-- Take an option with its value, which is empty for a flag. -/
def give (r : Reading) (o : Switch) (value : String) : Except Usage Reading :=
  if o.name = "help" then .error .help
  else if o.name = "version" then .error .version
  else if (r.given.lookup o.name).isSome then .error .repeatedOption
  else do
    checkValue o.parameter value
    pure { r with given := (o.name, value) :: r.given }

def settle (r : Reading) : Except Usage Reading :=
  match r.pending with
  | none => .ok r
  | some (.option _ none) => .error .missingValue
  | some (.option o (some value)) => { r with pending := none }.give o value
  | some (.operand word) => do
    checkValue r.scope.operand word
    pure { r with pending := none, operand := some word }

/-- An option that may have its value in the same word. -/
def takeSwitch (r : Reading) (o : Switch) (value : Option String) : Except Usage Reading :=
  match o.parameter, value with
  | .none, some _ => .error .unexpectedValue
  | .none, none => do (← r.settle).give o ""
  | _, some value => do (← r.settle).give o value
  | _, none => do
    pure { ← r.settle with pending := some (.option o none) }

/-- A word that begins with two dashes. -/
def takeName (r : Reading) (word : List Char) : Except Usage Reading :=
  let name := String.ofList (word.takeWhile (· ≠ '='))
  let value := match word.dropWhile (· ≠ '=') with
    | [] => none
    | _ :: value => some (String.ofList value)
  match r.scope.switches.find? (·.name = name) with
  | some o => r.takeSwitch o value
  | none => .error .unknownArgument

/-- Letters behind one dash: flags, and an option whose value is what is left of the word. -/
def takeLetters (r : Reading) : List Char → Except Usage Reading
  | [] => .ok r
  | c :: rest =>
    match r.scope.switches.find? (·.letter = some c) with
    | none => .error .unknownArgument
    | some o =>
      if o.parameter = .none then do (← r.takeSwitch o none).takeLetters rest
      else match rest with
        | [] => r.takeSwitch o none
        | '=' :: value | value => r.takeSwitch o (some (String.ofList value))

/-- A word that is neither an option nor the value of one. -/
def takeOperand (r : Reading) (word : String) : Except Usage Reading :=
  if r.scope = .top then
    .error (if r.literal ∧ (word = "help" ∨ (Scope.ofName? word).isSome) then .unknownArgument
      else .unknownCommand)
  else if r.hasOperand then .error .unknownArgument
  else do
    pure { ← r.settle with pending := some (.operand word), hasOperand := true }

/-- A word that is no option. -/
def takeWord (r : Reading) (word : String) : Except Usage Reading :=
  match r.pending with
  | some (.option o none) => .ok { r with pending := some (.option o (some word)) }
  | _ => r.takeOperand word

def helpOn : List String → Usage
  | [] => .help
  | [name] => if name = "help" ∨ (Scope.ofName? name).isSome then .help else .unknownCommand
  | _ => .unknownCommand

def finish (r : Reading) : Except Usage Reading := do
  let r ← r.settle
  if r.scope.needsOperand ∧ r.operand = none then throw .missingOperand
  pure r

def within (outer inner : Reading) : Except Usage Reading := do
  pure { inner with given := inner.given ++ (← outer.settle).given }

def takeAll (r : Reading) : List String → Except Usage Reading
  | [] => r.finish
  | word :: rest =>
    let mayName := r.scope = .top ∧ !r.literal ∧ !r.isWaiting
    if r.literal then do (← r.takeOperand word).takeAll rest
    else if mayName ∧ word = "help" then .error (helpOn rest)
    else match (if mayName then Scope.ofName? word else none) with
      | some scope => do r.within (← takeAll { scope } rest)
      | none =>
        if word = "--" then { r with literal := true }.takeAll rest
        else match word.toList with
          | '-' :: '-' :: name => do (← r.takeName name).takeAll rest
          | '-' :: c :: letters => do (← r.takeLetters (c :: letters)).takeAll rest
          | _ => do (← r.takeWord word).takeAll rest

def value? (r : Reading) (name : String) : Option String := r.given.lookup name

def command (r : Reading) : Except Usage Command :=
  match r.scope with
  | .top => .error (if r.given.isEmpty then .nothingGiven else .missingCommand)
  | .project => .ok (.project (r.operand.getD "") (r.value? "template") (r.value? "out")
      (r.value? "preset"))
  | .component => .ok (.component (r.operand.getD "")
      ((r.value? "generator").getD "react-component") (r.value? "prefix"))
  | .init => .ok (.init (r.operand.getD ".") ((r.value? "preset").getD "react"))

end Reading

def Invocation.ofWords (words : List String) : Except Usage Invocation := do
  let r ← ({} : Reading).takeAll words
  let command ← r.command
  pure { config := (r.value? "config").getD "uidlgen.toml"
         verbose := (r.value? "verbose").isSome
         command }

end Sitewright.CommandLine
