import Stencil.Text

/-!
# Invocations

What the arguments of the command line ask for. Options come before or after the template; a
value follows its option as the next argument, or in the same argument with an equals sign or,
after a single letter, without one. Single letters can be put together. What follows a request for
help is not read.
-/

set_option autoImplicit false

namespace Stencil

/-- What the arguments ask for. -/
structure Invocation where
  /-- The template file; standard input is read without one. -/
  input : Option Text := none
  data : Option Text := none
  templates : Option Text := none
  config : Option Text := none
  lint : Bool := false
  grammar : Bool := false
  help : Bool := false
deriving DecidableEq, Repr

namespace Invocation

/-- The options. -/
inductive Opt where
  | data
  | templates
  | config
  | lint
  | grammar
  | help
deriving DecidableEq, Repr

/-- The option with a long name. -/
def Opt.ofName? (name : Text) : Option Opt :=
  match String.ofList name with
  | "data" => some .data
  | "templates" => some .templates
  | "config" => some .config
  | "lint" => some .lint
  | "grammar" => some .grammar
  | "help" => some .help
  | _ => none

/-- The option with a single letter. -/
def Opt.ofLetter? : Char → Option Opt
  | 'd' => some .data
  | 't' => some .templates
  | 'c' => some .config
  | 'l' => some .lint
  | 'g' => some .grammar
  | 'h' => some .help
  | _ => none

/-- Does the option take a value? -/
def Opt.takesValue : Opt → Bool
  | .data | .templates | .config => true
  | _ => false

/-- The invocation with a value for an option, which is given once at most and not empty. -/
def setValue (invocation : Invocation) (option : Opt) (value : Text) : Option Invocation :=
  if value = [] then none
  else match option with
  | .data =>
    if invocation.data.isSome then none else some { invocation with data := some value }
  | .templates =>
    if invocation.templates.isSome then none else some { invocation with templates := some value }
  | .config =>
    if invocation.config.isSome then none else some { invocation with config := some value }
  | _ => none

/-- The invocation with an option that takes no value, which is given once at most. -/
def setFlag (invocation : Invocation) (option : Opt) : Option Invocation :=
  match option with
  | .lint => if invocation.lint then none else some { invocation with lint := true }
  | .grammar => if invocation.grammar then none else some { invocation with grammar := true }
  | .help => some { invocation with help := true }
  | _ => none

/-- The invocation with a template file, of which there is one at most. -/
def setInput (invocation : Invocation) (value : Text) : Option Invocation :=
  if value = [] ∨ invocation.input.isSome then none
  else some { invocation with input := some value }

/-- Can the argument be the value of the option before it? -/
def isValue : Text → Bool
  | '-' :: _ :: _ => false
  | _ => true

/-- What single letters ask for, and the option that still needs a value. -/
def readLetters (invocation : Invocation) : Text → Option (Invocation × Option Opt)
  | [] => some (invocation, none)
  | letter :: rest =>
    match Opt.ofLetter? letter with
    | none => none
    | some option =>
      -- what follows a letter that takes a value is its value, not more letters
      if option.takesValue then
        match rest with
        | [] => some (invocation, some option)
        | '=' :: value => (setValue invocation option value).map fun i => (i, none)
        | value => (setValue invocation option value).map fun i => (i, none)
      else
        match setFlag invocation option with
        | none => none
        | some invocation =>
          if invocation.help then some (invocation, none) else readLetters invocation rest

/-- What a long name, with its value if there is an equals sign, asks for, and the option that
still needs a value. -/
def readName (invocation : Invocation) (argument : Text) : Option (Invocation × Option Opt) :=
  let name := argument.takeWhile (· != '=')
  let rest := argument.dropWhile (· != '=')
  match Opt.ofName? name with
  | none => none
  | some option =>
    match option.takesValue, rest with
    | true, '=' :: value => (setValue invocation option value).map fun i => (i, none)
    | true, _ => some (invocation, some option)
    | false, [] => (setFlag invocation option).map fun i => (i, none)
    | false, _ => none

/-- What arguments after the first ones ask for, with the option that needs the next argument as
its value. After `--` all are template files. -/
def readFrom : Bool → Invocation → Option Opt → List Text → Option Invocation
  | _, invocation, none, [] => some invocation
  | _, _, some _, [] => none
  | onlyInput, invocation, some option, argument :: rest =>
    if isValue argument then
      match setValue invocation option argument with
      | some invocation => readFrom onlyInput invocation none rest
      | none => none
    else none
  | true, invocation, none, argument :: rest =>
    match setInput invocation argument with
    | some invocation => readFrom true invocation none rest
    | none => none
  | false, invocation, none, argument :: rest =>
    match argument with
    | ['-', '-'] => readFrom true invocation none rest
    | '-' :: '-' :: name =>
      match readName invocation name with
      | some (invocation, pending) =>
        if invocation.help then some invocation else readFrom false invocation pending rest
      | none => none
    | '-' :: letter :: letters =>
      match readLetters invocation (letter :: letters) with
      | some (invocation, pending) =>
        if invocation.help then some invocation else readFrom false invocation pending rest
      | none => none
    | argument =>
      match setInput invocation argument with
      | some invocation => readFrom false invocation none rest
      | none => none

/-- What arguments ask for, if they can be understood. -/
def ofArguments? (arguments : List Text) : Option Invocation := readFrom false {} none arguments

end Invocation

end Stencil
