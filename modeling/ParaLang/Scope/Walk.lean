import ParaLang.Plain
import ParaLang.Scope
import ParaLang.Text

/-! # Walking the scope tree

The nested scopes in depth-first order, and what is read off that order: the number of variables,
the dump, and the comparison of trees. -/

namespace ParaLang

namespace Scope

mutual

/-- Every nested scope with its path, parents first; `heading` is the path of the scope itself. -/
def walk (heading : List String) : Scope → List (List String × Scope)
  | ⟨_, scopes⟩ => walkAll heading scopes

def walkAll (heading : List String) : List (String × Scope) → List (List String × Scope)
  | [] => []
  | (name, child) :: rest =>
    (heading ++ [name], child) :: (child.walk (heading ++ [name]) ++ walkAll heading rest)

end

/-- The scope itself and every nested one. -/
def sections (root : Scope) : List (List String × Scope) :=
  ([], root) :: root.walk []

def variableCount (root : Scope) : Nat :=
  (root.sections.flatMap fun (_, scope) => scope.entries).length

def summary (root : Scope) : String :=
  "<ScopeTree " ++ toString root.variableCount ++ " variables>"

/-! ## Dump -/

/-- The variables of a scope that a dump lists. -/
def visible (includeTemp : Bool) (scope : Scope) : List Variable :=
  (scope.entries.map Prod.snd).filter fun entry => includeTemp || !entry.temp

/-- The heading of a scope: nothing for the root, or else its path and an arrow. -/
def heading (path : List String) : String :=
  if path.isEmpty then "" else formatPath path ++ "-> "

def sectionLines (includeTemp : Bool) (path : List String) (scope : Scope) : List String :=
  (if path.isEmpty then ["// Root scope variables"]
    else ["", "// " ++ heading path ++ "scope variables"]) ++
  (scope.visible includeTemp).map (Variable.line (heading path))

/-- Every variable on its own line: the root scope first, then each nested scope. -/
def dump (includeTemp : Bool) (root : Scope) : String :=
  Text.unlines (root.sections.flatMap fun (path, scope) => sectionLines includeTemp path scope)

/-! ## Agreement -/

def variablesAgree (left right : Variable) : Bool :=
  left.name == right.name && left.value.agrees right.value && left.type.agrees right.type &&
    left.mutable == right.mutable && left.temp == right.temp

/-- Whether each variable on the left is shared or agrees with the one of its name on the right. -/
def allVariablesAgree (shared : String → Bool) (left right : Table Variable) : Bool :=
  left.length == right.length && left.all fun (name, entry) =>
    (Table.get? right name).any fun other => shared name || variablesAgree entry other

mutual

/-- Whether two scopes at the same path hold the same variables and scopes, in whatever order. -/
def agreesAt (shared : List String → Bool) (path : List String) : Scope → Scope → Bool
  | ⟨entries, scopes⟩, other =>
    allVariablesAgree (fun name => shared (path ++ [name])) entries other.entries &&
      scopes.length == other.scopes.length && allScopesAgree shared path scopes other.scopes

def allScopesAgree (shared : List String → Bool) (path : List String) :
    List (String × Scope) → List (String × Scope) → Bool
  | [], _ => true
  | (name, child) :: rest, others =>
    (match Table.get? others name with
      | some other => child.agreesAt shared (path ++ [name]) other
      | none => false) && allScopesAgree shared path rest others

end

/-- Whether two trees agree.  A variable with an undefined number agrees with no other, but a copy
of a variable that has not been written since agrees with it whatever it holds; `shared` tells at
which paths the trees hold such copies. -/
def agrees (shared : List String → Bool) (left right : Scope) : Bool :=
  left.agreesAt shared [] right

end Scope

end ParaLang
