set_option autoImplicit false

/-!
# Arguments of the command line

The options and subcommands, and how a list of arguments is read. An option may be given once at
each level; its value is the next argument or is attached to it, and an argument that starts with a
hyphen is never the value of the one before. After a double hyphen every argument is positional.
-/

namespace PipelineLineage.CommandLine

inductive OptionName
  | config
  | verbose
  | version
  | manifest
  | profilesDir
  | profile
  | target
  deriving DecidableEq

inductive Operand
  | none
  | text
  /-- A path, which is not empty. -/
  | path
  deriving DecidableEq

structure OptionForm where
  name : OptionName
  long : String
  short : Option Char
  operand : Operand

def globalForms : List OptionForm :=
  [⟨.config, "config", some 'c', .path⟩, ⟨.verbose, "verbose", some 'v', .none⟩]

def rootForms : List OptionForm :=
  globalForms ++ [⟨.version, "version", some 'V', .none⟩]

def lineageForms : List OptionForm :=
  globalForms ++
    [⟨.manifest, "manifest", some 'f', .path⟩, ⟨.profilesDir, "profiles-dir", none, .path⟩,
      ⟨.profile, "profile", none, .text⟩, ⟨.target, "target", none, .text⟩]

/-- The options given at one level, with their values. -/
abbrev Given := List (OptionName × String)

/-- Adds an option, unless it was given before or its value is not fit. -/
def Given.add? (given : Given) (form : OptionForm) (value : String) : Option Given :=
  if (given.lookup form.name).isSome || (form.operand = .path && value = "") then none
  else some ((form.name, value) :: given)

/-- Whether an argument can be the value of the option before it. -/
def isOperand (argument : String) : Bool :=
  argument = "-" || argument.toList.head? ≠ some '-'

/-- What the start of the arguments of a level amounts to. -/
inductive Step
  /-- Options, of which the last one may still want a value. -/
  | options (given : Given) (pending : Option OptionForm)
  | version
  | refused

/-- Reads a cluster of short options after its hyphen. -/
def shortOptions (forms : List OptionForm) (given : Given) : List Char → Step
  | [] => .options given none
  | c :: rest =>
    match forms.find? fun form => form.short = some c with
    | none => .refused
    | some form =>
      if form.operand = .none then
        if form.name = .version then .version
        else
          match given.add? form "" with
          | some given => shortOptions forms given rest
          | none => .refused
      else
        match rest with
        | [] => .options given (some form)
        | attached =>
          let value := if attached.head? = some '=' then attached.drop 1 else attached
          match given.add? form (String.ofList value) with
          | some given => .options given none
          | none => .refused

def longOption (forms : List OptionForm) (given : Given) (cs : List Char) : Step :=
  let name := cs.takeWhile (· != '=')
  match forms.find? (fun form => form.long.toList = name), cs.drop name.length with
  | none, _ => .refused
  | some form, [] =>
    if form.name = .version then .version
    else if form.operand = .none then
      match given.add? form "" with
      | some given => .options given none
      | none => .refused
    else .options given (some form)
  | some form, _ :: attached =>
    if form.operand = .none then .refused
    else
      match given.add? form (String.ofList attached) with
      | some given => .options given none
      | none => .refused

/-- The arguments of a level as read: options and positional arguments. At the root, reading stops
at the first positional argument, which names the subcommand; the rest belongs to it. -/
inductive Level
  | parsed (given : Given) (positional : List String) (rest : List String)
  | version
  | refused

def readLevel (forms : List OptionForm) (isRoot : Bool) (given : Given) (positional : List String) :
    Option OptionForm → List String → Level
  | some _, [] => .refused
  | none, [] => .parsed given positional []
  | some form, argument :: rest =>
    if isOperand argument then
      match given.add? form argument with
      | some given => readLevel forms isRoot given positional none rest
      | none => .refused
    else .refused
  | none, argument :: rest =>
    match argument.toList with
    | ['-', '-'] => .parsed given (positional ++ rest) []
    | '-' :: '-' :: name =>
      match longOption forms given name with
      | .options given pending => readLevel forms isRoot given positional pending rest
      | .version => .version
      | .refused => .refused
    | '-' :: c :: cluster =>
      match shortOptions forms given (c :: cluster) with
      | .options given pending => readLevel forms isRoot given positional pending rest
      | .version => .version
      | .refused => .refused
    | _ =>
      if isRoot then .parsed given [argument] rest
      else readLevel forms isRoot given (positional ++ [argument]) none rest

inductive Command
  | lineage (model manifest : String) (profilesDir profile : Option String) (target : String)
  | validate (bundle : String)
  deriving DecidableEq

structure Invocation where
  config : Option String
  verbose : Bool
  command : Command
  deriving DecidableEq

inductive Request
  | run (invocation : Invocation)
  | version
  /-- The arguments cannot be understood. -/
  | usage
  deriving DecidableEq

/-- The command of a subcommand's options and positional arguments. A profile needs the directory of
profiles. -/
def commandOf (subcommand : String) (given : Given) (positional : List String) : Option Command :=
  match subcommand, positional with
  | "dbt-io", [model] =>
    let profilesDir := given.lookup .profilesDir
    let profile := given.lookup .profile
    if profile.isSome && profilesDir.isNone then none
    else
      some (.lineage model ((given.lookup .manifest).getD "target/manifest.json") profilesDir
        profile ((given.lookup .target).getD "data"))
  | "validate", [bundle] => if bundle = "" then none else some (.validate bundle)
  | _, _ => none

def formsOf? : String → Option (List OptionForm)
  | "dbt-io" => some lineageForms
  | "validate" => some globalForms
  | _ => none

/-- Reads the arguments of a run. An option given at both levels counts where it stands deeper. -/
def readArguments (arguments : List String) : Request :=
  match readLevel rootForms true [] [] none arguments with
  | .version => .version
  | .refused => .usage
  | .parsed outer [subcommand] rest =>
    match formsOf? subcommand with
    | none => .usage
    | some forms =>
      match readLevel forms false [] [] none rest with
      | .parsed inner positional _ =>
        match commandOf subcommand inner positional with
        | none => .usage
        | some command =>
          .run
            { config := (inner.lookup .config).or (outer.lookup .config)
              verbose := (inner.lookup .verbose).isSome || (outer.lookup .verbose).isSome
              command }
      | _ => .usage
  | .parsed _ _ _ => .usage

end PipelineLineage.CommandLine
