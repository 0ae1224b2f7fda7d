import Accounts.Command.Basic
import Accounts.Text.Cut

/-! Commands from the words of a command line. Subcommands form a tree; at its leaves stand words
with places of their own and options, in any order. A word after two hyphens alone is no option,
whatever it looks like. -/
namespace Accounts.Command

/-- What a word looks like. -/
inductive Argument where
  /-- Two hyphens alone. -/
  | separator
  /-- A long option, and what stands after its equals sign. -/
  | long (name : String) (value : Option String)
  /-- A row of short options. There is at least one, of which this is the first. -/
  | short (first : Char)
  | word
  deriving DecidableEq, Repr

def Argument.ofString (s : String) : Argument :=
  match s.toList with
  | ['-', '-'] => separator
  | '-' :: '-' :: rest =>
    match Text.cut? '=' rest with
    | some (name, value) => long (String.ofList name) (some (String.ofList value))
    | none => long (String.ofList rest) none
  | '-' :: c :: _ => short c
  | _ => word

/-- What has been gathered of a command: its words in order, its parameters in order, and whether
JSON was asked for. -/
structure Gathered where
  words : List String
  params : List (String × String)
  json : Bool
  deriving DecidableEq, Repr

/-- A leaf of the tree: how many words it has, which options, and the command that they make. -/
structure Leaf where
  places : Nat
  takesParams : Bool
  takesJson : Bool
  command? : Gathered → Option Command

/-- A parameter from a text with a name, an equals sign and a value. The value may be empty. -/
def readParam? (text : String) : Option (String × String) :=
  match Text.cut? '=' text.toList with
  | some (name, value) =>
    if name = [] then none else some (String.ofList name, String.ofList value)
  | none => none

/-- A parameter that is not complete: its option has been read, and then perhaps its text, which
is looked at when the next argument has found its place. -/
inductive Unfinished where
  | nothing
  | awaiting
  | holding (text : String)
  deriving DecidableEq, Repr

/-- Complete a parameter. -/
def Gathered.complete (g : Gathered) : Unfinished → Except Usage Gathered
  | .nothing => .ok g
  | .awaiting => .error .missingValue
  | .holding text => match readParam? text with
    | some p => .ok { g with params := g.params ++ [p] }
    | none => .error .malformedValue

/-- Gather the arguments of a leaf with the given name. Of several faults the first is reported,
where a parameter is at fault when it is completed. -/
def gather (name : String) (leaf : Leaf) (literal : Bool) (param : Unfinished) (g : Gathered) :
    List String → Except Usage Gathered
  | [] => g.complete param
  | arg :: rest =>
    let information := fun (usage : Usage) (value : Option String) =>
      if value.isSome then .error .surplusValue
      else match g.complete param with
        | .error e => .error e
        | .ok _ => .error usage
    match (if literal then Argument.word else .ofString arg) with
    | .separator => gather name leaf true param g rest
    | .word =>
      if param = .awaiting ∧ literal = false then gather name leaf literal (.holding arg) g rest
      else if g.words.length < leaf.places then
        match g.complete param with
        | .error e => .error e
        | .ok g => gather name leaf literal .nothing { g with words := g.words ++ [arg] } rest
      else .error .unknownArgument
    | .short c =>
      if c = 'h' then information (.help name) none
      else if c = 'V' then information (.version name) none
      else .error .unknownArgument
    | .long option value =>
      if option = "help" then information (.help name) value
      else if option = "version" then information (.version name) value
      else if option = "param" ∧ leaf.takesParams then
        match g.complete param with
        | .error e => .error e
        | .ok g => match value with
          | none => gather name leaf literal .awaiting g rest
          | some text => match g.complete (.holding text) with
            | .error e => .error e
            | .ok g => gather name leaf literal .nothing g rest
      else if option = "json" ∧ leaf.takesJson then
        if value.isSome then .error .surplusValue
        else if g.json then .error .repeatedOption
        else gather name leaf literal param { g with json := true } rest
      else .error .unknownArgument

/-- The command of a leaf from its arguments. -/
def Leaf.parse (leaf : Leaf) (name : String) (args : List String) : Except Usage Command :=
  match gather name leaf false .nothing ⟨[], [], false⟩ args with
  | .error e => .error e
  | .ok g => match leaf.command? g with
    | some command => .ok command
    | none => .error .missingArgument

/-- A tree of subcommands. A branch may stand for a command by itself. -/
inductive Tree where
  | leaf (leaf : Leaf)
  | branch (alone : Option Command) (children : List (String × Tree))

namespace Tree

/-- The subcommands of a tree by name. -/
def children : Tree → List (String × Tree)
  | leaf _ => []
  | branch _ children => children

/-- The subcommand that every branch has, which gives help on the subcommands named after it. -/
def helpName : String := "help"

/-- Whether a tree has a subcommand with this name. -/
def hasChild (t : Tree) (name : String) : Bool :=
  match t with
  | leaf _ => false
  | branch _ children => name = helpName || (children.lookup name).isSome

/-- Find the subcommand that help is asked for. -/
def help (name : String) (t : Tree) : List String → Usage
  | [] => .help name
  | arg :: rest =>
    if t.hasChild arg then
      match t.children.lookup arg with
      | some child => child.help (name ++ "-" ++ arg) rest
      | none => if rest = [] then .help (name ++ "-" ++ arg) else .unknownSubcommand
    else .unknownSubcommand

/-- The command that arguments ask for, in a tree with the given name. -/
def parse (name : String) : Tree → List String → Except Usage Command
  | leaf l, args => l.parse name args
  | branch alone _, [] => match alone with
    | some command => .ok command
    | none => .error .missingSubcommand
  | branch alone children, arg :: rest =>
    let information := fun (usage : Usage) (value : Option String) =>
      .error (if value.isSome then .surplusValue else usage)
    match Argument.ofString arg with
    | .separator => match rest, alone with
      | [], some command => .ok command
      | [], none => .error .missingSubcommand
      | word :: _, _ =>
        .error (if (branch alone children).hasChild word then .unknownArgument
          else .unknownSubcommand)
    | .word => match children.lookup arg with
      | some child => child.parse (name ++ "-" ++ arg) rest
      | none =>
        .error (if arg = helpName then (branch alone children).help name rest
          else .unknownSubcommand)
    | .short c =>
      .error (if c = 'h' then .help name else if c = 'V' then .version name else .unknownArgument)
    | .long option value =>
      if option = "help" then information (.help name) value
      else if option = "version" then information (.version name) value
      else .error .unknownArgument

end Tree

/-- A leaf without arguments. -/
def plainLeaf (command : Command) : Tree := .leaf ⟨0, false, false, fun _ => some command⟩

/-- The subcommands of the program. Without one it lists the accounts. -/
def tree : Tree := .branch (some .list) [
  ("list", plainLeaf .list),
  ("create", .leaf ⟨2, true, false, fun g => match g.words with
    | [manager, protocol] => some (.create manager protocol g.params)
    | _ => none⟩),
  ("set", .leaf ⟨3, false, false, fun g => match g.words with
    | [group, key, value] => some (.set group key value)
    | _ => none⟩),
  ("get", .leaf ⟨2, false, false, fun g => match g.words with
    | [group, key] => some (.get group key)
    | _ => none⟩),
  ("remove", .leaf ⟨1, false, false, fun g => match g.words with
    | [group] => some (.remove group)
    | _ => none⟩),
  ("dump", .leaf ⟨0, false, true, fun g => some (.dump g.json)⟩),
  ("health", plainLeaf .health),
  ("config", .branch none [("init", plainLeaf .configInit)]),
  ("version", plainLeaf .version)]

/-- The name of the program. -/
def programName : String := "keeper"

/-- The command that arguments ask for. -/
def parse (args : List String) : Except Usage Command := tree.parse programName args

end Accounts.Command
