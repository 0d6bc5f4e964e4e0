/-!
# Drawings of graphs

A `Drawing` is a list of nodes and edges with their texts and colours. It is written in one of two
languages for graphs: `Drawing.dot` gives statements between braces, `Drawing.graphML` gives nested
elements.
-/

namespace FlowRecovery

/-- How a node looks, as far as it looks different from others. -/
structure NodeStyle where
  fill : Option String := none
  border : Option String := none
  line : Option String := none

/-- A node. -/
structure DrawnNode where
  name : String
  text : String
  style : NodeStyle := {}

/-- An edge. -/
structure DrawnEdge where
  source : String
  target : String
  text : Option String := none
  colour : Option String := none
  isWeak : Bool := false

/-- A graph with its looks. -/
structure Drawing where
  nodes : List DrawnNode := []
  edges : List DrawnEdge := []

namespace Drawing

def black : String := "#000000"

def green : String := "#00ff00"

def ofLines (ls : List String) : String := String.join (ls.map (· ++ "\n"))

/-! ### Statements between braces -/

def quotedName (s : String) : String := "\"" ++ s.replace "\"" "\\\"" ++ "\""

def onOneLine (s : String) : String := s.replace "\n" "\\n"

def property (name value : String) : String := name ++ "=\"" ++ value ++ "\""

def dotNode (n : DrawnNode) : String :=
  let properties := [("fillcolor", n.style.fill), ("color", n.style.border), ("style", n.style.line)].filterMap
    (fun (name, value) => value.map (property name))
  quotedName n.name ++ "[" ++ ",".intercalate (property "label" (onOneLine n.text) :: properties) ++ "];"

def dotEdge (e : DrawnEdge) : String :=
  let text := e.text.filter (fun t => !t.isEmpty)
  let properties := (e.colour.map (property "color")).toList ++
    (text.map (fun t => property "label" (onOneLine t))).toList ++
    (if e.isWeak then [property "constraint" "false", property "style" "dashed", property "splines" "false"] else [])
  quotedName e.source ++ " -> " ++ quotedName e.target ++
    (if properties.isEmpty then "" else " [" ++ ",".intercalate properties ++ "]") ++ ";"

def dot (title : String) (d : Drawing) : String :=
  ofLines (["digraph G \x7b",
    "node[shape=rectangle,style=filled,fillcolor=lightsteelblue,color=lightsteelblue]",
    "bgcolor=\"transparent\"",
    "graph [" ++ property "label" title ++ ", labelloc=t, fontsize=35, pad=30]"] ++
    d.nodes.map dotNode ++ d.edges.map dotEdge ++ ["\x7d"])

/-! ### Nested elements -/

def identifier (s : String) : String :=
  let cs := s.toList.map (fun c => if c == '@' || c == '.' || c == ':' then '_' else c)
  match cs with
  | c :: _ => if c.isAlpha then String.ofList cs else "a" ++ String.ofList cs
  | [] => ""

def escaped (s : String) : String := ((s.replace "&" "&amp;").replace ">" "&gt;").replace "<" "&lt;"

def graphMLNode (n : DrawnNode) : String :=
  "<node " ++ property "id" (identifier n.name) ++ ">\n" ++
    "  <data key=\"d0\"><y:ShapeNode><y:NodeLabel>\n" ++ escaped n.text ++
    "  </y:NodeLabel></y:ShapeNode></data>\n" ++ "</node>\n"

def graphMLEdge (e : DrawnEdge) : String :=
  let inner := (e.text.map (fun t => "<y:EdgeLabel>" ++ escaped t ++ "</y:EdgeLabel>\n")).toList ++
    (e.colour.map (fun c => "<y:LineStyle>" ++ escaped (property "color" c) ++ "</y:LineStyle>\n")).toList
  "<edge " ++ property "source" (identifier e.source) ++ " " ++ property "target" (identifier e.target) ++ ">\n" ++
    "  <data key=\"d2\"><y:PolyLineEdge><y:Arrows source=\"none\" target=\"standard\"/>\n" ++ String.join inner ++
    "  </y:PolyLineEdge></data>\n" ++ "</edge>\n"

def graphML (d : Drawing) : String :=
  ofLines ["<?xml version=\"1.0\" encoding=\"UTF-8\" standalone=\"no\"?>",
    "<graphml xmlns=\"http://graphml.graphdrawing.org/xmlns/graphml\" " ++
      "xmlns:xsi=\"http://www.w3.org/2001/XMLSchema-instance\" xmlns:y=\"http://www.yworks.com/xml/graphml\" " ++
      "xsi:schemaLocation=\"http://graphml.graphdrawing.org/xmlns/graphml " ++
      "http://www.yworks.com/xml/schema/graphml/1.0/ygraphml.xsd\">",
    "<key for=\"node\" id=\"d0\" yfiles.type=\"nodegraphics\"/>",
    "<key for=\"edge\" id=\"d2\" yfiles.type=\"edgegraphics\"/>",
    "<graph edgedefault=\"directed\">"] ++
    String.join (d.nodes.map graphMLNode) ++ String.join (d.edges.map graphMLEdge) ++ ofLines ["</graph>", "</graphml>"]

end Drawing

end FlowRecovery
