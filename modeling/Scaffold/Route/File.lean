import Scaffold.Run.Basic

/-!
# Route files

The route file of a project and the routes in it. A route is a line that is added at the end of
the file unless the file already holds its text; a missing file is created first.
-/

namespace Scaffold

/-- The route file of a project: one for programs, one for browsers. -/
structure RouteFile where
  root : Path
  /-- Is it the file with the routes for programs? -/
  api : Bool

/-- What became of the registration of a route. -/
structure RouteResult where
  line : String
  file : String
  added : Bool
  /-- Was the file made for it? -/
  created : Bool
  deriving DecidableEq

/-- The statement that registers the routes of a resource. -/
def routeLine (table controller : String) (api : Bool) : String :=
  let method := if api then "apiResource" else "resource"
  s!"Route::{method}('{table}', \\App\\Http\\Controllers\\{controller}::class);"

namespace RouteResult

def message (r : RouteResult) : String :=
  if r.added then s!"Route added: {r.line}" else s!"Route already exists: {r.line}"

end RouteResult

namespace RouteFile

/-- The path of the route file from the root of the project. -/
def relativePath (api : Bool) : String := if api then "routes/api.php" else "routes/web.php"

def path (f : RouteFile) : Path := f.root ++ Path.ofString (relativePath f.api)

/-- The comment at the head of a new file. -/
def banner (title group : String) : List String :=
  ["/*",
    "|--------------------------------------------------------------------------",
    s!"| {title} Routes",
    "|--------------------------------------------------------------------------",
    "|",
    s!"| Here is where you can register {group} routes for your application. These",
    "| routes are loaded by the RouteServiceProvider and all of them will",
    s!"| be assigned to the \"{group.toLower}\" middleware group. Make something great!",
    "|",
    "*/",
    ""]

/-- The content of a new file. -/
def defaultContent (api : Bool) : String :=
  Text.joinLines <|
    if api then
      ["<?php", "", "use Illuminate\\Http\\Request;", "use Illuminate\\Support\\Facades\\Route;", ""] ++
        banner "API" "API" ++
        ["Route::get('/user', function (Request $request) \x7b",
          "    return $request->user();",
          "\x7d)->middleware('auth:sanctum');",
          ""]
    else
      ["<?php", "", "use Illuminate\\Support\\Facades\\Route;", ""] ++
        banner "Web" "web" ++
        ["Route::get('/', function () \x7b",
          "    return view('welcome');",
          "\x7d);",
          ""]

/-- Creates the file if it is missing, and says whether it was. -/
def ensure (f : RouteFile) : Run Bool := do
  if ← Run.query (·.isThere f.path) then return false
  Run.onDisk (DiskOp.writeFile f.path (Text.encode (defaultContent f.api)) true)
  Run.say (LogLine.info "routes" s!"Created {relativePath f.api}.")
  return true

/-- Does the file hold the text of a route? -/
def contains (f : RouteFile) (line : String) : Run Bool := do
  if !(← Run.query (·.isThere f.path)) then return false
  return Text.contains (← Run.readText f.path) line

/-- Adds the route of a controller, unless it is there. -/
def register (f : RouteFile) (table controller : String) : Run RouteResult := do
  let created ← f.ensure
  let line := routeLine table controller f.api
  let content ← Run.readText f.path
  if Text.contains content line then
    Run.say (LogLine.warning "routes" s!"Route already exists: {line}")
    return ⟨line, relativePath f.api, false, created⟩
  Run.onDisk (DiskOp.writeFile f.path (Text.encode (content ++ "\n" ++ line ++ "\n")) true)
  let kind := if f.api then "API" else "Web"
  Run.say (LogLine.info "routes" s!"{kind} route added: {line}")
  return ⟨line, relativePath f.api, true, created⟩

end RouteFile

end Scaffold
