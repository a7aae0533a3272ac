import InitializerLint.Finding

/-! The rule's identity, its wording and the substitution of a type's name into it. -/
namespace InitializerLint

structure RuleDescriptor where
  id : String
  title : String
  messageFormat : String
  description : String
  category : Category
  defaultSeverity : Severity
  enabledByDefault : Bool

/-- Put `name` for each `{0}` of a template, from left to right; the inserted text is not
searched again. -/
def fillTemplate (name : List Char) : List Char → List Char
  | '{' :: '0' :: '}' :: rest => name ++ fillTemplate name rest
  | c :: rest => c :: fillTemplate name rest
  | [] => []

def RuleDescriptor.formatMessage (r : RuleDescriptor) (name : String) : String :=
  String.ofList (fillTemplate name.toList r.messageFormat.toList)

def staticInitializerRule : RuleDescriptor where
  id := "UNOM0003"
  title := "Large number of static methods in a type with a static initializer"
  messageFormat := "{0} has a static type initializer and contains too many static methods. Refactor to use instance methods or remove the static type initializer."
  description := "This type has a static type initializer and contains too many static methods; this creates a large boiler plate code in every static method"
  category := .performance
  defaultSeverity := .warning
  enabledByDefault := true

end InitializerLint
