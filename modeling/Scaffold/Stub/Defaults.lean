import Scaffold.Stub.Template

/-!
# Default stubs

The stubs that are used where a project brings none of its own, under their keys.
-/

namespace Scaffold.Stub

/-- Lines of a stub, each with its line feed. -/
def lines (texts : List String) : String := String.join (texts.map (· ++ "\n"))

namespace Slots

def useStatements : String := slot "use_statements"

def model : String := slot "model"

def traits : String := slot "traits"

def primaryKey : String := slot "primary_key"

def fillable : String := slot "fillable"

def casts : String := slot "casts"

def getter : String := slot "getter"

def setter : String := slot "setter"

def relations : String := slot "relations"

def table : String := slot "table"

def columns : String := slot "columns"

def className : String := slot "class"

def rules : String := slot "rules"

def fields : String := slot "fields"

def modelVar : String := slot "modelVar"

def storeBody : String := slot "storeBody"

def record : String := slot "variable"

def updateBody : String := slot "updateBody"

def destroyBody : String := slot "destroyBody"

def relationImports : String := slot "relationImports"

def eagerList : String := slot "with"

def serviceUsage : String := slot "serviceUsage"

def modelPlural : String := slot "modelPlural"

end Slots

open Slots

/-- The stub of a model class. -/
def modelStub : String :=
  lines
    ["<?php",
      "",
      "namespace App\\Models;",
      "",
      "use Illuminate\\Database\\Eloquent\\Model;",
      s!"{useStatements}",
      s!"class {model} extends Model",
      s!"\x7b{traits}{primaryKey}",
      "    protected $fillable = [",
      s!"        {fillable}",
      "    ];",
      "",
      "    protected function casts(): array",
      "    \x7b",
      s!"        return [{casts}];",
      s!"    \x7d{getter}{setter}{relations}",
      "\x7d"]

/-- The stub of a migration that creates a table. -/
def migrationStub : String :=
  lines
    ["<?php",
      "",
      "use Illuminate\\Database\\Migrations\\Migration;",
      "use Illuminate\\Database\\Schema\\Blueprint;",
      "use Illuminate\\Support\\Facades\\Schema;",
      "",
      "return new class extends Migration",
      "\x7b",
      "    public function up(): void",
      "    \x7b",
      s!"        Schema::create('{table}', function (Blueprint $table) \x7b",
      "            $table->id();",
      s!"{columns}",
      "            $table->timestamps();",
      "        \x7d);",
      "    \x7d",
      "",
      "    public function down(): void",
      "    \x7b",
      s!"        Schema::dropIfExists('{table}');",
      "    \x7d",
      "\x7d;"]

/-- What a migration is made from if there is no migration stub: a table without columns. -/
def bareMigration : String :=
  lines
    ["<?php",
      "",
      "use Illuminate\\Database\\Migrations\\Migration;",
      "use Illuminate\\Database\\Schema\\Blueprint;",
      "use Illuminate\\Support\\Facades\\Schema;",
      "",
      "return new class extends Migration",
      "\x7b",
      "    public function up(): void",
      "    \x7b",
      s!"        Schema::create('{table}', function (Blueprint $table) \x7b",
      "            $table->id();",
      "            $table->timestamps();",
      "        \x7d);",
      "    \x7d",
      "",
      "    public function down(): void",
      "    \x7b",
      s!"        Schema::dropIfExists('{table}');",
      "    \x7d",
      "\x7d;"]

/-- The stub of a form request. -/
def requestStub : String :=
  lines
    ["<?php",
      "",
      "namespace App\\Http\\Requests;",
      "",
      "use Illuminate\\Foundation\\Http\\FormRequest;",
      "",
      s!"class {className} extends FormRequest",
      "\x7b",
      "    public function authorize(): bool",
      "    \x7b",
      "        return true;",
      "    \x7d",
      "",
      "    public function rules(): array",
      "    \x7b",
      "        return [",
      s!"            {rules}",
      "        ];",
      "    \x7d",
      "\x7d"]

/-- The stub of a resource. -/
def resourceStub : String :=
  lines
    ["<?php",
      "",
      s!"namespace App\\Http\\Resources\\{model};",
      "",
      "use Illuminate\\Http\\Resources\\Json\\JsonResource;",
      "",
      s!"class {className} extends JsonResource",
      "\x7b",
      "    public function toArray($request): array",
      "    \x7b",
      "        return [",
      s!"            {fields}",
      "        ];",
      "    \x7d",
      "\x7d"]

/-- The stub of a resource collection. -/
def collectionStub : String :=
  lines
    ["<?php",
      "",
      s!"namespace App\\Http\\Resources\\{model};",
      "",
      "use Illuminate\\Http\\Resources\\Json\\ResourceCollection;",
      "",
      s!"class {className} extends ResourceCollection",
      "\x7b",
      "    public function toArray($request): array",
      "    \x7b",
      "        return [",
      s!"            'data' => $this->collection->map(fn (${modelVar}) => new {model}Resource(${modelVar})),",
      "        ];",
      "    \x7d",
      "\x7d"]

/-- The stub of a service without nested requests. -/
def serviceStub : String :=
  lines
    ["<?php",
      "",
      "namespace App\\Services;",
      "",
      s!"use App\\Models\\{model};",
      "use Illuminate\\Http\\UploadedFile;",
      "use Illuminate\\Support\\Facades\\DB;",
      "use Illuminate\\Support\\Str;",
      "",
      s!"class {className}",
      "\x7b",
      "    public function list(array $filters = [])",
      "    \x7b",
      s!"        return {model}::query()->latest()->paginate($filters['per_page'] ?? 15);",
      "    \x7d",
      "",
      s!"    public function store(array $data): {model}",
      "    \x7b",
      s!"{storeBody}",
      "    \x7d",
      "",
      s!"    public function update({model} ${record}, array $data): {model}",
      "    \x7b",
      s!"{updateBody}",
      "    \x7d",
      "",
      s!"    public function delete({model} ${record}): void",
      "    \x7b",
      s!"{destroyBody}",
      "    \x7d",
      "\x7d"]

/-- The stub of a service with nested requests. -/
def nestedServiceStub : String :=
  lines
    ["<?php",
      "",
      "namespace App\\Services;",
      "",
      s!"use App\\Models\\{model};",
      s!"{relationImports}use Illuminate\\Http\\UploadedFile;",
      "use Illuminate\\Support\\Arr;",
      "use Illuminate\\Support\\Facades\\DB;",
      "use Illuminate\\Support\\Str;",
      "",
      s!"class {className}",
      "\x7b",
      "    public function list(array $filters = [])",
      "    \x7b",
      s!"        return {model}::query()->with([{eagerList}])->latest()->paginate($filters['per_page'] ?? 15);",
      "    \x7d",
      "",
      "    /**",
      s!"     * Create a {record} together with its nested relations.",
      "     */",
      s!"    public function store(array $data): {model}",
      "    \x7b",
      s!"{storeBody}",
      "    \x7d",
      "",
      "    /**",
      s!"     * Update a {record} and reconcile its nested relations.",
      "     */",
      s!"    public function update({model} ${record}, array $data): {model}",
      "    \x7b",
      s!"{updateBody}",
      "    \x7d",
      "",
      s!"    public function delete({model} ${record}): void",
      "    \x7b",
      s!"{destroyBody}",
      "    \x7d",
      "\x7d"]

/-- How every controller begins. -/
def controllerHead : String :=
  lines
    ["<?php",
      "",
      "namespace App\\Http\\Controllers;",
      "",
      s!"use App\\Http\\Requests\\{model}Request;",
      s!"use App\\Http\\Resources\\{model}\\{model}Collection;",
      s!"use App\\Http\\Resources\\{model}\\{model}Resource;",
      s!"use App\\Models\\{model};"]

/-- The stub of a controller that uses a service. -/
def controllerStub : String :=
  controllerHead ++ lines
    [s!"use App\\Services\\{model}Service;",
      "use Illuminate\\Http\\JsonResponse;",
      "use Illuminate\\Http\\Request;",
      "",
      s!"class {className} extends Controller",
      "\x7b",
      s!"    public function __construct(private {model}Service ${serviceUsage})",
      "    \x7b",
      "    \x7d",
      "",
      s!"    public function index(Request $request): {model}Collection",
      "    \x7b",
      s!"        return new {model}Collection($this->{serviceUsage}->list($request->all()));",
      "    \x7d",
      "",
      s!"    public function store({model}Request $request): {model}Resource",
      "    \x7b",
      s!"        ${record} = $this->{serviceUsage}->store($request->validated());",
      "",
      s!"        return new {model}Resource(${record});",
      "    \x7d",
      "",
      s!"    public function show({model} ${record}): {model}Resource",
      "    \x7b",
      s!"        return new {model}Resource(${record});",
      "    \x7d",
      "",
      s!"    public function update({model}Request $request, {model} ${record}): {model}Resource",
      "    \x7b",
      s!"        ${record} = $this->{serviceUsage}->update(${record}, $request->validated());",
      "",
      s!"        return new {model}Resource(${record});",
      "    \x7d",
      "",
      s!"    public function destroy({model} ${record}): JsonResponse",
      "    \x7b",
      s!"        $this->{serviceUsage}->delete(${record});",
      "",
      s!"        return response()->json(['message' => '{model} deleted successfully.']);",
      "    \x7d",
      "\x7d"]

/-- The stub of a controller whose service stores nested payloads. -/
def nestedControllerStub : String :=
  controllerHead ++ lines
    [s!"use App\\Services\\{model}Service;",
      "use Illuminate\\Http\\JsonResponse;",
      "use Illuminate\\Http\\Request;",
      "",
      s!"class {className} extends Controller",
      "\x7b",
      s!"    public function __construct(private {model}Service ${serviceUsage})",
      "    \x7b",
      "    \x7d",
      "",
      s!"    public function index(Request $request): {model}Collection",
      "    \x7b",
      s!"        return new {model}Collection($this->{serviceUsage}->list($request->all()));",
      "    \x7d",
      "",
      "    /**",
      s!"     * Nested {modelPlural} payload keys are persisted in one transaction.",
      "     */",
      s!"    public function store({model}Request $request): {model}Resource",
      "    \x7b",
      s!"        ${record} = $this->{serviceUsage}->store($request->validated());",
      "",
      s!"        return new {model}Resource(${record});",
      "    \x7d",
      "",
      s!"    public function show({model} ${record}): {model}Resource",
      "    \x7b",
      s!"        return new {model}Resource(${record}->load([{eagerList}]));",
      "    \x7d",
      "",
      s!"    public function update({model}Request $request, {model} ${record}): {model}Resource",
      "    \x7b",
      s!"        ${record} = $this->{serviceUsage}->update(${record}, $request->validated());",
      "",
      s!"        return new {model}Resource(${record});",
      "    \x7d",
      "",
      s!"    public function destroy({model} ${record}): JsonResponse",
      "    \x7b",
      s!"        $this->{serviceUsage}->delete(${record});",
      "",
      s!"        return response()->json(['message' => '{model} deleted successfully.']);",
      "    \x7d",
      "\x7d"]

/-- The stub of a controller that stores records by itself. -/
def standaloneControllerStub : String :=
  controllerHead ++ lines
    [s!"{relationImports}use Illuminate\\Http\\JsonResponse;",
      "use Illuminate\\Http\\Request;",
      "use Illuminate\\Http\\UploadedFile;",
      "use Illuminate\\Support\\Arr;",
      "use Illuminate\\Support\\Facades\\DB;",
      "use Illuminate\\Support\\Str;",
      "",
      s!"class {className} extends Controller",
      "\x7b",
      s!"    public function index(Request $request): {model}Collection",
      "    \x7b",
      s!"        return new {model}Collection({model}::query()->with([{eagerList}])->latest()->paginate($request->integer('per_page', 15)));",
      "    \x7d",
      "",
      s!"    public function store({model}Request $request): {model}Resource",
      "    \x7b",
      s!"        return new {model}Resource($this->persist($request->validated()));",
      "    \x7d",
      "",
      s!"    public function show({model} ${record}): {model}Resource",
      "    \x7b",
      s!"        return new {model}Resource(${record}->load([{eagerList}]));",
      "    \x7d",
      "",
      s!"    public function update({model}Request $request, {model} ${record}): {model}Resource",
      "    \x7b",
      s!"        return new {model}Resource($this->modify(${record}, $request->validated()));",
      "    \x7d",
      "",
      s!"    public function destroy({model} ${record}): JsonResponse",
      "    \x7b",
      s!"        $this->remove(${record});",
      "",
      s!"        return response()->json(['message' => '{model} deleted successfully.']);",
      "    \x7d",
      "",
      s!"    private function persist(array $data): {model}",
      "    \x7b",
      s!"{storeBody}",
      "    \x7d",
      "",
      s!"    private function modify({model} ${record}, array $data): {model}",
      "    \x7b",
      s!"{updateBody}",
      "    \x7d",
      "",
      s!"    private function remove({model} ${record}): void",
      "    \x7b",
      s!"{destroyBody}",
      "    \x7d",
      "\x7d"]

/-- The stub of a factory. -/
def factoryStub : String :=
  lines
    ["<?php",
      "",
      "namespace Database\\Factories;",
      "",
      s!"use App\\Models\\{model};",
      "use Illuminate\\Database\\Eloquent\\Factories\\Factory;",
      "",
      s!"class {model}Factory extends Factory",
      "\x7b",
      s!"    protected $model = {model}::class;",
      "",
      "    public function definition(): array",
      "    \x7b",
      "        return [",
      s!"{fields}",
      "        ];",
      "    \x7d",
      "\x7d"]

/-- The stub of a seeder. -/
def seederStub : String :=
  lines
    ["<?php",
      "",
      "namespace Database\\Seeders;",
      "",
      s!"use App\\Models\\{model};",
      "use Illuminate\\Database\\Seeder;",
      "",
      s!"class {model}Seeder extends Seeder",
      "\x7b",
      "    public function run(): void",
      "    \x7b",
      s!"        {model}::factory()->count(10)->create();",
      "    \x7d",
      "\x7d"]

/-- All default stubs. -/
def defaults : List (String × String) :=
  [("model", modelStub), ("migration", migrationStub), ("request", requestStub),
    ("resource", resourceStub), ("collection", collectionStub), ("service", serviceStub),
    ("service-relation", nestedServiceStub), ("controller", controllerStub),
    ("controller-relation", nestedControllerStub),
    ("controller-without-service", standaloneControllerStub), ("factory", factoryStub),
    ("seeder", seederStub)]

def default? (key : String) : Option String := defaults.lookup key

end Scaffold.Stub
