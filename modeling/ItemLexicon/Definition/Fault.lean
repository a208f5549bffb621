import ItemLexicon.Tag.Relaxed

namespace ItemLexicon

inductive Fault
  | tooManyBrackets (offset : Nat) (bracket : Char)
  | notEnoughBrackets (offset : Nat) (bracket : Char)
  | unknownVariation (name : String)
  | emptyName
  | malformedState (text : String)
  | missingStateId (text : String)
  | missingTagId (text : String)
  | invalidTags (text : String) (cause : TagFault)
  | invalidMinecraftId (id : String)
  | statesOnItem (id : String)
  | invalidVariationSection (name : String)
  | unexpectedSection
  | outsideSection
  | invalidLine (text : String)
  | unknownGender (token : String)
  | uselessVariation (key : String)
  | emptyAlias (name : String)
  deriving DecidableEq

namespace Fault

/-- A fault of the wrong grain to lose data over: loading goes on with what there is. -/
def isWarning : Fault → Bool
  | uselessVariation _ => true
  | emptyAlias _ => true
  | _ => false

def message : Fault → String
  | tooManyBrackets n b =>
    "too many closing brackets: '" ++ b.toString ++ "' at offset " ++ toString n
  | notEnoughBrackets n b =>
    "not enough closing brackets: '" ++ b.toString ++ "' at offset " ++ toString n
      ++ " is never closed"
  | unknownVariation name => "unknown variation " ++ name
  | emptyName => "alias name is empty"
  | malformedState text => "malformed block state '" ++ text ++ "', expected key=value"
  | missingStateId text => "missing id or '-' before block states in '" ++ text ++ "'"
  | missingTagId text => "missing id or '-' before tags in '" ++ text ++ "'"
  | invalidTags text cause => "invalid tags '" ++ text ++ "': " ++ cause.message
  | invalidMinecraftId id => "'" ++ id ++ "' is not a valid Minecraft id"
  | statesOnItem id => "'" ++ id ++ "' is not a block, so it cannot have block states"
  | invalidVariationSection name =>
    "'" ++ name ++ "' is not a valid variation section, its name must be wrapped in braces"
  | unexpectedSection => "unexpected section"
  | outsideSection => "aliases must be placed inside a section"
  | invalidLine text => "cannot parse line '" ++ text ++ "'"
  | unknownGender token => "unknown gender '" ++ token ++ "'"
  | uselessVariation key => "variation '" ++ key ++ "' has no id, tags or block states"
  | emptyAlias name => "alias '" ++ name ++ "' is empty"

end Fault

end ItemLexicon
