import Recast.Grammar.CSharp
import Recast.Grammar.Cpp
import Recast.Grammar.Java
import Recast.Grammar.Php
import Recast.Grammar.Python
import Recast.Grammar.Ruby
import Recast.Grammar.Rust
import Recast.Grammar.Script

/-!
# The grammars

Each language with its grammar.
-/

namespace Recast

/-- How constructs are written in a language. -/
def Language.grammar : Language → Grammar
  | python => Grammar.python
  | javascript => Grammar.script
  | typescript => Grammar.script
  | java => Grammar.java
  | cpp => Grammar.cpp
  | go => Grammar.go
  | rust => Grammar.rust
  | csharp => Grammar.csharp
  | php => Grammar.php
  | ruby => Grammar.ruby

/-- The recognizers of a category in a language. -/
def Language.recognizers (language : Language) (category : Category) : List Recognizer :=
  language.grammar.recognizers category

end Recast
