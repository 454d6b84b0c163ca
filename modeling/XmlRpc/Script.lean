/-
  XmlRpc/Script.lean
  ==================
  **Values built step by step on a stack.**

  A `Recipe` is one way to make a node from texts and numbers. A `Step` makes a
  node and puts it on the stack, or changes the nodes at the top: puts one into
  the one below, wraps it, gives it another text, or takes a part of it out. A
  step that is refused leaves the node it would have changed as it was.

  Stacks have their top first. What is put into another node is taken off the
  stack whether or not the other node accepts it.
-/
import XmlRpc.Arguments

namespace XmlRpc

/-- One way to make a node. -/
inductive Recipe where
  /-- An empty scalar of a registered tag. -/
  | emptyOfTag (tag : String)
  /-- A scalar of a registered tag. -/
  | ofTag (tag raw : String)
  /-- A scalar as a reply may hold it, under any tag. -/
  | ofWireTag (tag raw : String)
  | string (text : String)
  | integer (value : Int64)
  | double (value : Double)
  | boolean (value : Bool)
  /-- An empty array. -/
  | array
  /-- An empty struct. -/
  | struct
  /-- An empty parameter list. -/
  | params
  /-- A parameter list from words that alternate between tags and texts. -/
  | words (all : List String)
  /-- A parameter list from pairs of a tag and a text. -/
  | pairs (all : List (String × String))
deriving Repr

/-- Makes the node. -/
def Recipe.build : Recipe → Except ValueError Node
  | emptyOfTag tag => Node.emptyOfTag tag
  | ofTag tag raw => Node.ofTag tag raw
  | ofWireTag tag raw => .ok (.scalar (Scalar.ofWireTag tag raw))
  | string text => .ok (.string text)
  | integer k => .ok (.integer k)
  | double x => Node.double x
  | boolean b => .ok (.boolean b)
  | array => .ok (.array [])
  | struct => .ok (.struct [])
  | params => .ok (.params [])
  | words all => (Arguments.ofWords all).map .params
  | pairs all => (Arguments.ofPairs all).map .params

/-- A composite of one part, around a node. -/
inductive Wrapping where
  | array
  | params
  | struct (name : String)
deriving DecidableEq, Repr

/-- Puts a node into a new composite. -/
def Wrapping.wrap (wrapping : Wrapping) (node : Node) : Node :=
  match wrapping with
  | array => .array [node]
  | params => .params [node]
  | struct name => .struct [(name, node)]

/-- One step of a script. -/
inductive Step where
  /-- Makes a node and puts it on the stack. -/
  | build (recipe : Recipe)
  /-- Puts the top into the node below it, as its last item. -/
  | add
  /-- Puts the top into the node below it, as the member of a name. -/
  | member (name : String)
  /-- Replaces as many nodes as there are, up to a number, by one array of them. -/
  | collect (count : Nat)
  | drop
  | duplicate
  /-- Wraps the top a number of times. -/
  | wrap (wrapping : Wrapping) (times : Nat)
  /-- Gives the top another text. -/
  | setValue (raw : String)
  /-- Puts a member of the top on the stack. -/
  | get (name : String)
  /-- Puts an item of the top on the stack. -/
  | child (index : Nat)
deriving Repr

/-- What a step reports. -/
inductive StepResult where
  | ok
  | refused (error : ValueError)
  /-- The stack does not hold the nodes that the step works on. -/
  | emptyStack
  /-- Whether the part that was asked for is there. -/
  | found (present : Bool)
deriving DecidableEq, Repr

namespace Step

/-- Replaces the top by a new node, or keeps it if the change is refused. -/
def replaceTop (changed : Except ValueError Node) (old : Node) (rest : List Node) :
    StepResult × List Node :=
  match changed with
  | .ok node => (.ok, node :: rest)
  | .error error => (.refused error, old :: rest)

/-- Puts a part of the top on the stack, if it is there. -/
def pushFound (part : Option Node) (stack : List Node) : StepResult × List Node :=
  match part with
  | some node => (.found true, node :: stack)
  | none => (.found false, stack)

/-- Runs a step on a stack. -/
def run : Step → List Node → StepResult × List Node
  | build recipe, stack =>
    match recipe.build with
    | .ok node => (.ok, node :: stack)
    | .error error => (.refused error, stack)
  | add, top :: below :: rest => replaceTop (below.addChild top) below rest
  | member name, top :: below :: rest => replaceTop (below.addMember name top) below rest
  | collect count, top :: rest =>
    (.ok, .array ((top :: rest).take count).reverse :: (top :: rest).drop count)
  | drop, _ :: rest => (.ok, rest)
  | duplicate, top :: rest => (.ok, top :: top :: rest)
  | wrap wrapping times, top :: rest => (.ok, Nat.repeat wrapping.wrap times top :: rest)
  | setValue raw, top :: rest => replaceTop (top.setValue raw) top rest
  | get name, top :: rest => pushFound (top.get? name) (top :: rest)
  | child index, top :: rest => pushFound top.items[index]? (top :: rest)
  | _, stack => (.emptyStack, stack)

end Step

end XmlRpc
