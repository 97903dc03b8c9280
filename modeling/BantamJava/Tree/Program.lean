/-
# Programs

The tree of a source text: its classes in order, and the members of each. A
type is kept as its name, with `[]` at the end for an array.

Key definitions: `Program`, `Class`, `Member`, `Program.findClass?`.
-/
import BantamJava.Tree.Stmt

namespace BantamJava

/-- A parameter of a method. -/
structure Formal where
  typeName : String
  name : String
  position : Position
deriving DecidableEq, Inhabited

/-- A field, perhaps with an initial value. -/
structure Field where
  typeName : String
  name : String
  init : Option Expr
  position : Position
deriving DecidableEq, Inhabited

/-- A method. -/
structure Method where
  returnType : String
  name : String
  params : List Formal
  body : Block
  position : Position
deriving DecidableEq, Inhabited

/-- A member of a class. -/
inductive Member where
  | field (field : Field)
  | method (method : Method)
deriving DecidableEq, Inhabited

namespace Member

/-- The name of a member. -/
def name : Member → String
  | .field f => f.name
  | .method m => m.name

/-- The position of a member. -/
def position : Member → Position
  | .field f => f.position
  | .method m => m.position

/-- The field that a member is, if it is one. -/
def field? : Member → Option Field
  | .field f => some f
  | .method _ => none

/-- The method that a member is, if it is one. -/
def method? : Member → Option Method
  | .field _ => none
  | .method m => some m

end Member

/-- A class, perhaps with a class that it extends. -/
structure Class where
  name : String
  parent : Option String
  members : List Member
  position : Position
deriving DecidableEq, Inhabited

namespace Class

/-- The fields of a class, in order. -/
def fields (c : Class) : List Field := c.members.filterMap Member.field?

/-- The methods of a class, in order. -/
def methods (c : Class) : List Method := c.members.filterMap Member.method?

end Class

/-- The classes of one source text, in order. -/
structure Program where
  classes : List Class
  position : Position
deriving DecidableEq, Inhabited

/-- The first class with the given name. -/
def Program.findClass? (p : Program) (name : String) : Option Class :=
  p.classes.find? fun c => c.name == name

end BantamJava
