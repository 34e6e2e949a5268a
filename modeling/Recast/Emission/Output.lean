import Recast.Emission.Basic

/-!
# Output
-/

namespace Recast.Emission

/-- The arguments of one string, with spaces between them. -/
def spaced (args : List Text) : Text :=
  Text.joinWith " + \" \" + " args

/-- The arguments of an output stream, with spaces between them. -/
def streamed (args : List Text) : Text :=
  let parts : List Text := args.intersperse ['"', ' ', '"']
  Text.joinWith " << " ([("std::cout" : Text)] ++ parts ++ [("std::endl" : Text)])

/-- The arguments of a format macro. -/
def formatted (args : List Text) : Text :=
  match args with
  | [] => []
  | [arg] =>
    if Text.startsWith arg ['"'] && Text.endsWith arg ['"'] then arg
    else ['"', '{', '}', '"', ',', ' '] ++ arg
  | args =>
    "\"" ++ Text.joinWith " " (args.map fun _ ↦ ['{', '}']) ++ "\", " ++ Text.joinWith ", " args

/-- The statement that prints the arguments. -/
def printText (target : Language) (args : List Text) : Text :=
  let list := Text.joinWith ", " args
  match target with
  | .python => "print(" ++ list ++ ")"
  | .javascript | .typescript => "console.log(" ++ list ++ ")"
  | .java => "System.out.println(" ++ spaced args ++ ")"
  | .csharp => "Console.WriteLine(" ++ spaced args ++ ")"
  | .go => "fmt.Println(" ++ list ++ ")"
  | .cpp => streamed args
  | .rust => "println!(" ++ formatted args ++ ")"
  | .php => "echo " ++ (if args.isEmpty then ['"', '"'] else list)
  | .ruby => if args.isEmpty then "puts" else "puts " ++ list

def print (target : Profile) (args : List Text) (dropped : Bool) : Emission :=
  { text := printText target.language args
    warnings :=
      if dropped then ["print keyword arguments have no equivalent and were dropped"] else [] }

end Recast.Emission
