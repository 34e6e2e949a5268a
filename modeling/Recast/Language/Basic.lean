import Recast.Text.LowerCase
import Recast.Text.Quoted

/-!
# Languages

The ten languages between which programs are recast, their canonical names, and the look-up of a
language by a name that a user wrote.
-/

namespace Recast

/-- A supported language. -/
inductive Language where
  | python
  | javascript
  | typescript
  | java
  | cpp
  | go
  | rust
  | csharp
  | php
  | ruby
  deriving DecidableEq, Repr

namespace Language

/-- All languages, in the order in which they are listed. -/
def all : List Language :=
  [python, javascript, typescript, java, cpp, go, rust, csharp, php, ruby]

/-- The canonical name. -/
def name : Language → Text
  | python => "python"
  | javascript => "javascript"
  | typescript => "typescript"
  | java => "java"
  | cpp => "cpp"
  | go => "go"
  | rust => "rust"
  | csharp => "csharp"
  | php => "php"
  | ruby => "ruby"

/-- The other names under which a language is known. -/
def aliases : Language → List Text
  | python => ["py", "python3"]
  | javascript => ["js", "node"]
  | typescript => ["ts"]
  | cpp => ["c++", "cxx"]
  | go => ["golang"]
  | rust => ["rs"]
  | csharp => ["cs", "c#"]
  | ruby => ["rb"]
  | java | php => []

/-- The language with the given canonical name. -/
def ofName? (t : Text) : Option Language :=
  all.find? (·.name == t)

/-- The language with the given canonical name or alias, whatever its case and the blanks around
it. -/
def lookup? (identifier : Text) : Option Language :=
  let key := Text.lower (Text.trim identifier)
  all.find? fun language ↦ language.name == key || language.aliases.contains key

/-- The language that stands in where none can be told. -/
def fallback : Language :=
  javascript

/-- The language of an identifier, or the fallback when it is missing or unknown. -/
def resolve (identifier : Option Text) : Language :=
  (identifier.bind lookup?).getD fallback

/-- Why a strict look-up fails. -/
inductive LookupError where
  | unknown (identifier : Option Text)
  deriving DecidableEq

/-- The wording of the failure; a missing identifier is called `None`. -/
def LookupError.message : LookupError → Text
  | unknown identifier => "Unknown language: " ++ Text.quoted (identifier.getD "None")

/-- The language of an identifier that has to be known. -/
def resolveStrict (identifier : Option Text) : Except LookupError Language :=
  match identifier.bind lookup? with
  | some language => .ok language
  | none => .error (.unknown identifier)

end Language

end Recast
