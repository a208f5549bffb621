import ItemLexicon.Number.Numeral
import ItemLexicon.Text.Cut

namespace ItemLexicon.CommandLine

inductive Command
  | resolve (name : String)
  | name (material : String) (tags : Option String) (damage : Nat)
  | info
  deriving DecidableEq

structure Invocation where
  platform : String
  sources : List String
  missing : Bool
  command : Command
  deriving DecidableEq

inductive Topic
  | resolve
  | name
  | info
  | help
  deriving DecidableEq

inductive Request
  | run (invocation : Invocation)
  | help (topic : Option Topic)
  | version
  | misuse
  deriving DecidableEq

inductive Switch
  | platform
  | aliases
  | missing
  | tags
  | damage
  | help
  | version
  deriving DecidableEq

namespace Switch

def takesValue : Switch → Bool
  | platform | aliases | tags | damage => true
  | missing | help | version => false

def long : Switch → String
  | platform => "platform"
  | aliases => "aliases"
  | missing => "missing"
  | tags => "tags"
  | damage => "damage"
  | help => "help"
  | version => "version"

def short? : Switch → Option Char
  | platform => some 'p'
  | aliases => some 'a'
  | missing => none
  | tags => some 't'
  | damage => some 'd'
  | help => some 'h'
  | version => some 'V'

end Switch

namespace Topic

def ofWord? : String → Option Topic
  | "resolve" => some resolve
  | "name" => some name
  | "info" => some info
  | "help" => some help
  | _ => none

def switches : Topic → List Switch
  | name => [.platform, .aliases, .missing, .tags, .damage, .help]
  | _ => [.platform, .aliases, .missing, .help]

end Topic

def outerSwitches : List Switch := [.platform, .aliases, .missing, .help, .version]

structure Given where
  platform : Option String
  sources : List String
  missing : Bool
  tags : Option String
  damage : Option Nat
  operand : Option String

namespace Given

def nothing : Given := ⟨none, [], false, none, none, none⟩

def maxDamage : Nat := 65535

def damage? (s : String) : Option Nat :=
  match Numeral.integer (Nat.pow 2 63 - 1) s.toList with
  | .ok n => if 0 ≤ n && n ≤ maxDamage then some n.toNat else none
  | .error _ => none

def take? (g : Given) (s : Switch) (value : String) : Option Given :=
  match s with
  | .platform =>
    if value = "" ∨ g.platform.isSome then none else some { g with platform := some value }
  | .aliases => if value = "" then none else some { g with sources := g.sources ++ [value] }
  | .tags => if g.tags.isSome then none else some { g with tags := some value }
  | .damage =>
    if g.damage.isSome then none
    else (damage? value).map fun n => { g with damage := some n }
  | .missing => if g.missing then none else some { g with missing := true }
  | .help | .version => none

def takeOperand? (g : Given) (value : String) : Option Given :=
  if g.operand.isSome then none else some { g with operand := some value }

end Given

inductive Argument
  | word
  | separator
  | option (s : Switch) (value : Option String)
  | unknown

namespace Argument

def ofLong (switches : List Switch) (name : List Char) (value : Option (List Char)) : Argument :=
  match switches.find? fun s => s.long.toList = name with
  | some s => option s (value.map String.ofList)
  | none => unknown

def ofShort (switches : List Switch) (c : Char) (rest : List Char) : Argument :=
  match switches.find? fun s => s.short? = some c with
  | some s =>
    if s.takesValue then
      match rest with
      | [] => option s none
      | '=' :: value => option s (some (String.ofList value))
      | value => option s (some (String.ofList value))
    else option s none
  | none => unknown

def read (switches : List Switch) (s : String) : Argument :=
  match s.toList with
  | ['-', '-'] => separator
  | '-' :: '-' :: rest =>
    match Text.cut '=' rest with
    | some (name, value) => ofLong switches name (some value)
    | none => ofLong switches rest none
  | '-' :: c :: rest => ofShort switches c rest
  | _ => word

end Argument

inductive Stop
  | finished (g : Given)
  | word (g : Given) (s : String) (rest : List String)
  | help
  | version
  | misuse

def operands (g : Given) : List String → Stop
  | [] => .finished g
  | s :: ss =>
    match g.takeOperand? s with
    | some g => operands g ss
    | none => .misuse

def scan (switches : List Switch) (expectsOperand : Bool) (g : Given) : List String → Stop
  | [] => .finished g
  | s :: ss =>
    match Argument.read switches s with
    | .word =>
      if expectsOperand then
        match g.takeOperand? s with
        | some g => scan switches expectsOperand g ss
        | none => .misuse
      else .word g s ss
    | .separator =>
      if expectsOperand then operands g ss else if ss.isEmpty then .finished g else .misuse
    | .unknown => .misuse
    | .option .help none => .help
    | .option .version none => .version
    | .option switch (some value) =>
      if switch.takesValue then
        match g.take? switch value with
        | some g => scan switches expectsOperand g ss
        | none => .misuse
      else .misuse
    | .option switch none =>
      if !switch.takesValue then
        match g.take? switch "" with
        | some g => scan switches expectsOperand g ss
        | none => .misuse
      else
        match ss with
        | [] => .misuse
        | value :: ss =>
          match Argument.read switches value with
          | .word =>
            match g.take? switch value with
            | some g => scan switches expectsOperand g ss
            | none => .misuse
          | _ => .misuse

def defaultPlatform : String := "platform.json"

def invocation (outer inner : Given) (command : Command) : Request :=
  .run {
    platform := (inner.platform.or outer.platform).getD defaultPlatform
    sources := if inner.sources.isEmpty then outer.sources else inner.sources
    missing := inner.missing || outer.missing
    command := command }

def Topic.command? (t : Topic) (g : Given) : Option Command :=
  match t with
  | .resolve => g.operand.map .resolve
  | .name => g.operand.map fun material => .name material g.tags (g.damage.getD 0)
  | .info => some .info
  | .help => none

def helpOn : List String → Request
  | [] => .help none
  | [s] => (Topic.ofWord? s).elim .misuse fun t => .help (some t)
  | _ => .misuse

def behind (outer : Given) (t : Topic) (args : List String) : Request :=
  match scan t.switches (t != .info) .nothing args with
  | .finished g => (t.command? g).elim .misuse (invocation outer g)
  | .word .. => .misuse
  | .help => .help (some t)
  | .version => .version
  | .misuse => .misuse

def Request.ofArguments (args : List String) : Request :=
  match scan outerSwitches false .nothing args with
  | .word g s rest =>
    match Topic.ofWord? s with
    | some .help => helpOn rest
    | some t => behind g t rest
    | none => .misuse
  | .finished _ => .misuse
  | .help => .help none
  | .version => .version
  | .misuse => .misuse

end ItemLexicon.CommandLine
