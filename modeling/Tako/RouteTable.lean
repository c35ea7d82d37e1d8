import Mathlib.Data.Prod.Lex
import Tako.StableSelection
import Tako.Texts

/-! The route table of the proxy. A hash map is a function here; the order in which it is iterated
is given to each rebuild. -/
namespace Tako.Routing
open Texts Selection
inductive SourceIpMode where
  | auto
  | direct
  | cloudflareProxy
  | trustedProxy
  deriving DecidableEq

instance : Inhabited SourceIpMode := ⟨.auto⟩

structure RouteEntry where
  app : String
  pattern : Text
  sourceIp : SourceIpMode
  deriving DecidableEq

/-- The scores of the host, of the length of the path and of an exact path, in this
order. -/
abbrev Specificity := ℕ ×ₗ ℕ ×ₗ ℕ

structure CompiledRouteEntry where
  app : String
  host : Text
  path : Option Text
  sourceIp : SourceIpMode
  specificity : Specificity

structure SelectedRoute where
  app : String
  path : Option Text
  sourceIp : SourceIpMode
  deriving DecidableEq

def splitRoute (route : Text) : Text × Option Text :=
  match route.dropWhile (· ≠ '/') with
  | [] => (route, none)
  | c :: rest => (route.takeWhile (· ≠ '/'), some (c :: rest))

variable (pattern : Text)
/-- A tail that is equal up to the case of ASCII letters has as many bytes as
characters of the suffix, so that the lengths may count either. -/
def hostnameMatches (hostname : Text) : Bool :=
  match "*.".toList.isPrefixOf? pattern with
  | some suffix =>
    if lower hostname = lower suffix then false
    else
      suffix.length < hostname.length &&
        hostname[hostname.length - suffix.length - 1]? == some '.' &&
        lower (hostname.drop (hostname.length - suffix.length)) == lower suffix
  | none => lower pattern == lower hostname

def normalizeExactPath (path : Text) : Text :=
  if path = ['/'] then ['/']
  else
    let trimmed := path.rdropWhile (· == '/')
    if trimmed.isEmpty then ['/'] else trimmed

def pathMatches (path : Text) : Bool :=
  match "/*".toList.isSuffixOf? pattern with
  | some stem =>
    match stem.isPrefixOf? path with
    | some rest => rest.isEmpty || rest.head? == some '/'
    | none => false
  | none =>
    if pattern.getLast? = some '*' then pattern.dropLast.isPrefixOf path
    else normalizeExactPath pattern == normalizeExactPath path

def pathSpecificity (path : Option Text) : ℕ × ℕ :=
  match path with
  | none => (0, 0)
  | some p =>
    match "/*".toList.isSuffixOf? p with
    | some stem => (byteLength stem, 0)
    | none =>
      if p.getLast? = some '*' then (byteLength p.dropLast, 0)
      else (byteLength (normalizeExactPath p), 1)

def hostSpecificity (host : Text) : ℕ := if "*.".toList.isPrefixOf host then 1 else 2

def routeSpecificity : Specificity :=
  if pattern.isEmpty then toLex (0, toLex (0, 0))
  else
    let (host, path) := splitRoute pattern
    toLex (hostSpecificity host, toLex (pathSpecificity path))

def routeMatches (host path : Text) : Bool :=
  if pattern.isEmpty then false
  else
    let (patternHost, patternPath) := splitRoute pattern
    hostnameMatches patternHost host && patternPath.all (pathMatches · path)

namespace CompiledRouteEntry
def ofEntry (entry : RouteEntry) : CompiledRouteEntry :=
  { app := entry.app
    host := (splitRoute entry.pattern).1
    path := (splitRoute entry.pattern).2
    sourceIp := entry.sourceIp
    specificity := routeSpecificity entry.pattern }

def matchesRequest (entry : CompiledRouteEntry) (host path : Text) : Bool :=
  hostnameMatches entry.host host && entry.path.all (pathMatches · path)

def selected (entry : CompiledRouteEntry) : SelectedRoute :=
  { app := entry.app, path := entry.path, sourceIp := entry.sourceIp }
end CompiledRouteEntry

/-- Most specific first; the sort keeps the order of ties. -/
def compileRoutes (routes : List RouteEntry) : List CompiledRouteEntry :=
  ((routes.filter fun entry => !entry.pattern.isEmpty).map .ofEntry).insertionSort
    (Better CompiledRouteEntry.specificity)

def selectEntry (routes : List CompiledRouteEntry) (host path : Text) :
    Option CompiledRouteEntry :=
  routes.find? (·.matchesRequest host path)

def selectRouteForRequestCompiled (routes : List CompiledRouteEntry) (host path : Text) :
    Option SelectedRoute :=
  (selectEntry routes host path).map (·.selected)

structure RouteTable where
  appRoutes : String → Option (List Text) := fun _ => none
  appSourceIp : String → Option SourceIpMode := fun _ => none
  compiled : List CompiledRouteEntry := []

inductive RouteUpdate where
  | setAppRoutesWithSourceIp (app : String) (routes : List Text) (sourceIp : SourceIpMode)
  | removeAppRoutes (app : String)

namespace RouteTable
variable (t : RouteTable) (app : String)
def entriesOf : List RouteEntry :=
  (((t.appRoutes app).getD []).filter fun pattern => !pattern.isEmpty).map fun pattern =>
    { app := app, pattern := pattern, sourceIp := (t.appSourceIp app).getD default }

def rebuild (iteration : List String) : RouteTable :=
  { t with compiled := compileRoutes (iteration.flatMap t.entriesOf) }

def setAppRoutesWithSourceIp (routes : List Text) (sourceIp : SourceIpMode)
    (iteration : List String) : RouteTable :=
  rebuild
    { t with
      appSourceIp := fun a => if a = app then some sourceIp else t.appSourceIp a
      appRoutes := fun a => if a = app then some routes else t.appRoutes a } iteration

def removeAppRoutes (iteration : List String) : RouteTable :=
  rebuild
    { t with
      appRoutes := fun a => if a = app then none else t.appRoutes a
      appSourceIp := fun a => if a = app then none else t.appSourceIp a } iteration

def update (u : RouteUpdate) (iteration : List String) : RouteTable :=
  match u with
  | .setAppRoutesWithSourceIp app routes sourceIp =>
    t.setAppRoutesWithSourceIp app routes sourceIp iteration
  | .removeAppRoutes app => t.removeAppRoutes app iteration

def selectWithRoute (host path : Text) : Option SelectedRoute :=
  selectRouteForRequestCompiled t.compiled host path

def select (host path : Text) : Option String :=
  (t.selectWithRoute host path).map (·.app)

/-- An order in which the hash map of the routes can be iterated. -/
structure Iterates (appRoutes : String → Option (List Text)) (iteration : List String) : Prop where
  nodup : iteration.Nodup
  mem : ∀ app, app ∈ iteration ↔ (appRoutes app).isSome

/-- The tables that updates build, each rebuilt in some order of the hash map. -/
inductive Built : RouteTable → Prop where
  | new : Built {}
  | update {t : RouteTable} (u : RouteUpdate) (iteration : List String) (ht : Built t)
      (hiteration : Iterates (t.update u iteration).appRoutes iteration) :
      Built (t.update u iteration)
end RouteTable

end Tako.Routing
