import CallFlow.Construction.Outcome

/-! The drawing of a call graph, in the language of Graphviz: a labelled node for each node and a
labelled arrow for each edge. -/

namespace CallFlow

def labelChar (c : Char) : List Char :=
  if c = '"' then ['\\', '"']
  else if c = '\\' then ['\\', '\\']
  else if c = '\n' then ['\\', 'l']
  else [c]

def labelText (s : String) : String :=
  "[ label = \"" ++ String.ofList (s.toList.flatMap labelChar) ++ "\" ]"

namespace CallGraph

def nodeDrawing (p : Program) (n : Node) : String :=
  "    " ++ toString n.id ++ " " ++ labelText (n.method.signature p ++ " | " ++ n.context.text p)

def edgeDrawing (e : Edge) : String :=
  "    " ++ toString e.caller ++ " -> " ++ toString e.callee ++ " " ++ labelText e.site.text

def drawingLines (p : Program) (g : CallGraph) : List String :=
  "digraph callgraph \x7b" :: g.nodes.map (nodeDrawing p) ++ g.edges.map edgeDrawing ++ ["\x7d"]

def drawing (p : Program) (g : CallGraph) : String :=
  String.join ((g.drawingLines p).map (· ++ "\n"))

end CallGraph

end CallFlow
