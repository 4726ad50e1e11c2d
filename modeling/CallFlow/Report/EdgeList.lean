import CallFlow.Construction.Outcome

/-! The listing of a call graph's edges: for each one a line of five columns with tabs between them,
the caller, the call, the caller's context, the callee and the callee's context. -/

namespace CallFlow

/-- The file of a function whose name is all that is known: what stands in the name before the
first slash. -/
def scriptOfName (name : String) : String :=
  let cs := match name.toList with
    | 'L' :: rest => rest
    | cs => cs
  String.ofList (cs.takeWhile (· ≠ '/'))

/-- The source position of a call, as file, line and column. -/
def FunctionBody.located? (f : FunctionBody) (pc : Nat) : Option String :=
  (f.position? pc).map fun p => f.file.getD (scriptOfName f.name) ++ ":" ++ p.text

namespace CallGraph

def siteText (p : Program) (sourceNumbers : Bool) (caller : Node) (site : CallSite) : String :=
  let located :=
    if sourceNumbers then
      (caller.method.function?.bind p.function?).bind (·.located? site.pc)
    else none
  located.getD site.text

def edgeColumns (p : Program) (sourceNumbers : Bool) (caller : Node) (site : CallSite)
    (callee : Node) : List String :=
  [caller.method.text p, siteText p sourceNumbers caller site, caller.context.text p,
    callee.method.signature p, callee.context.text p]

def edgeLine? (p : Program) (sourceNumbers : Bool) (g : CallGraph) (e : Edge) : Option String :=
  match g.node? e.caller, g.node? e.callee with
  | some caller, some callee =>
    some (String.intercalate "\t" (edgeColumns p sourceNumbers caller e.site callee))
  | _, _ => none

def edgeLines (p : Program) (sourceNumbers : Bool) (g : CallGraph) : List String :=
  g.edges.filterMap (edgeLine? p sourceNumbers g)

def listing (p : Program) (sourceNumbers : Bool) (g : CallGraph) : String :=
  String.join ((g.edgeLines p sourceNumbers).map (· ++ "\n"))

/-- The listing as it is written, with the number of lines that are said to be in it. -/
def written (p : Program) (sourceNumbers : Bool) (g : CallGraph) : String × Nat :=
  (g.listing p sourceNumbers, (g.edgeLines p sourceNumbers).length)

end CallGraph

end CallFlow
