import RustyArm64.Base.FirstRefusal
import RustyArm64.Orchestrator.Threads

/-! The configuration of the orchestrator, and launches that it refuses. The models are
made and the references to them are checked before the database is opened, and the nodes
are resolved behind it. -/
namespace Orchestrator

open Restart (World)

/-- A value of a TOML document. -/
inductive Toml where
  | string (text : String)
  | table (entries : List (String × Toml))
  | array (truthy : Bool)
  /-- A number, a boolean or a date, with its text. -/
  | scalar (truthy : Bool) (text : String)

abbrev Table := List (String × Toml)

inductive ConfigError where
  | keyError (key : String)
  | typeError
  | attributeError
  | valueError (text : String)
  /-- What the constructor of a model raises. -/
  | client
  deriving DecidableEq, Repr

namespace Toml

/-- `value[key]`. -/
def index (key : String) : Toml → Except ConfigError Toml
  | .table entries =>
    match entries.lookup key with
    | some value => .ok value
    | none => .error (.keyError key)
  | _ => .error .typeError

/-- `value.get(key)`. -/
def get (key : String) : Toml → Except ConfigError (Option Toml)
  | .table entries => .ok (entries.lookup key)
  | _ => .error .attributeError

/-- `value.items()`. -/
def items : Toml → Except ConfigError Table
  | .table entries => .ok entries
  | _ => .error .attributeError

/-- A string without the blanks around it. -/
def stripped : Toml → Toml
  | .string text => .string (strip text)
  | value => value

end Toml

section Configuration

variable {Client : Type} (getenv : String → Option String)
  (chatOpenAI : Toml → Option String → Toml → Option Client)

/-- `os.getenv`. -/
def environment : Toml → Except ConfigError (Option String)
  | .string name => .ok (getenv name)
  | _ => .error .typeError

def makeClient (llm : String × Toml) : Except ConfigError (String × Client) := do
  let model ← llm.2.index "model"
  let apiKeyEnv ← llm.2.index "api_key_env"
  let apiKey ← environment getenv apiKeyEnv
  let baseUrl ← llm.2.index "base_url"
  match chatOpenAI model apiKey baseUrl with
  | some client => .ok (llm.1, client)
  | none => .error .client

/-- The text of the error for a model that is not there. -/
def unknownLlm (nodeName ref : String) : String :=
  "Node '" ++ nodeName ++ "' references unknown LLM '" ++ ref ++ "'"

/-- The check of the reference of a node. What is false is not checked. -/
def checkNode (llmPool : List (String × Client)) (node : String × Toml) :
    Except ConfigError Unit := do
  match ← node.2.get "llm" with
  | some (.string ref) =>
    if ref ≠ "" ∧ ref ∉ llmPool.map Prod.fst then
      .error (.valueError (unknownLlm node.1 ref))
    else .ok ()
  | some (.scalar true text) => .error (.valueError (unknownLlm node.1 text))
  | some (.array true) => .error .typeError
  | some (.table (_ :: _)) => .error .typeError
  | _ => .ok ()

/-- The entries of a table of the document, which may be missing. -/
def tableOf (cfg : Table) (name : String) : Except ConfigError Table :=
  match cfg.lookup name with
  | some value => value.items
  | none => .ok []

def loadConfig (cfg : Table) : Except ConfigError (List (String × Client)) := do
  let llms ← tableOf cfg "llms"
  let llmPool ← llms.mapM (makeClient getenv chatOpenAI)
  let nodes ← tableOf cfg "nodes"
  let _ ← nodes.mapM (checkNode llmPool)
  .ok llmPool

/-- The model that a node names, if it names one. -/
def clientOf (llmPool : List (String × Client)) (nodeCfg : Table) :
    Except ConfigError (Option Client) :=
  match nodeCfg.lookup "llm" with
  | none => .ok none
  | some (.string ref) =>
    match llmPool.lookup ref with
    | some client => .ok (some client)
    | none => .error (.keyError ref)
  | some (.scalar _ text) => .error (.keyError text)
  | some _ => .error .typeError

/-- The entries of a node, and its model. -/
def resolveNode (cfg : Table) (llmPool : List (String × Client)) (name : String) :
    Except ConfigError (Table × Option Client) := do
  let nodes ← (Toml.table cfg).index "nodes"
  let node ← nodes.index name
  let entries ← node.items
  let nodeCfg := entries.map fun entry => (entry.1, entry.2.stripped)
  let client ← clientOf llmPool nodeCfg
  .ok (nodeCfg, client)

/-- What `build_graph` takes from the configuration. -/
def resolveNodes (cfg : Table) (llmPool : List (String × Client)) :
    Except ConfigError ((Table × Option Client) × (Table × Option Client)) := do
  let planner ← resolveNode cfg llmPool "planner"
  let coder ← resolveNode cfg llmPool "coder"
  .ok (planner, coder)

def configure (cfg : Table) :
    Except ConfigError ((Table × Option Client) × (Table × Option Client)) := do
  let llmPool ← loadConfig getenv chatOpenAI cfg
  resolveNodes cfg llmPool

/-- A table that a model can be made of. -/
def MakesClient (value : Toml) : Prop :=
  ∃ entries model name baseUrl, value = .table entries ∧ entries.lookup "model" = some model ∧
    entries.lookup "api_key_env" = some (.string name) ∧
    entries.lookup "base_url" = some baseUrl ∧ (chatOpenAI model (getenv name) baseUrl).isSome

/-- What counts as false. -/
def Toml.IsFalse (value : Toml) : Prop :=
  value = .string "" ∨ value = .table [] ∨ value = .array false ∨ ∃ text, value = .scalar false text

/-- A node that passes the check: its reference is false or the name of a model. -/
def RefersTo (names : List String) (value : Toml) : Prop :=
  ∃ entries, value = .table entries ∧ ∀ ref, entries.lookup "llm" = some ref →
    ref.IsFalse ∨ ∃ name ∈ names, ref = .string name

/-- A node that is resolved: without blanks its reference is the name of a model. -/
def Resolves (names : List String) (nodes : Table) (name : String) : Prop :=
  ∃ entries, nodes.lookup name = some (.table entries) ∧ ∀ ref, entries.lookup "llm" = some ref →
    ∃ text, ref = .string text ∧ strip text ∈ names

variable {getenv chatOpenAI}

theorem bind_eq_ok {Refusal First Second : Type} {first : Except Refusal First}
    {second : First → Except Refusal Second} {result : Second} :
    (first >>= second) = .ok result ↔ ∃ value, first = .ok value ∧ second value = .ok result := by
  cases first <;> simp [bind, Except.bind]

/-- Indexing succeeds on a table that has the key. -/
theorem index_eq_ok {key : String} {value found : Toml} :
    value.index key = .ok found ↔
      ∃ entries, value = .table entries ∧ entries.lookup key = some found := by
  cases value with
  | table entries => cases hFound : entries.lookup key <;> simp [Toml.index, hFound]
  | _ => simp [Toml.index]

/-- Iterating succeeds on tables only. -/
theorem items_eq_ok {value : Toml} {entries : Table} :
    value.items = .ok entries ↔ value = .table entries := by
  cases value <;> simp [Toml.items]

/-- A lookup with default succeeds on tables, with or without the key. -/
theorem get_eq_ok {key : String} {value : Toml} {found : Option Toml} :
    value.get key = .ok found ↔
      ∃ entries, value = .table entries ∧ entries.lookup key = found := by
  cases value <;> simp [Toml.get]

/-- A variable that is not set is no error here: the constructor is given no key. -/
theorem environment_eq_ok {value : Toml} {found : Option String} :
    environment getenv value = .ok found ↔ ∃ name, value = .string name ∧ getenv name = found := by
  cases value <;> simp [environment]

/-- All that has to be there for one client, in the words of the configuration. -/
theorem makeClient_eq_ok {llm : String × Toml} {made : String × Client} :
    makeClient getenv chatOpenAI llm = .ok made ↔
      ∃ entries model name baseUrl client, llm.2 = .table entries ∧
        entries.lookup "model" = some model ∧
        entries.lookup "api_key_env" = some (.string name) ∧
        entries.lookup "base_url" = some baseUrl ∧
        chatOpenAI model (getenv name) baseUrl = some client ∧ made = (llm.1, client) := by
  simp only [makeClient, bind_eq_ok, index_eq_ok, environment_eq_ok]
  constructor
  · rintro ⟨model, ⟨entries, hTable, hModel⟩, keyName, ⟨entries', hTable', hKey⟩, apiKey,
      ⟨name, rfl, rfl⟩, baseUrl, ⟨entries'', hTable'', hUrl⟩, hMade⟩
    obtain rfl := Toml.table.inj (hTable.symm.trans hTable')
    obtain rfl := Toml.table.inj (hTable.symm.trans hTable'')
    split at hMade
    · rename_i client hClient
      exact ⟨entries, model, name, baseUrl, client, hTable, hModel, hKey, hUrl, hClient,
        (Except.ok.inj hMade).symm⟩
    · cases hMade
  · rintro ⟨entries, model, name, baseUrl, client, hTable, hModel, hKey, hUrl, hClient, rfl⟩
    exact ⟨model, ⟨entries, hTable, hModel⟩, .string name, ⟨entries, hTable, hKey⟩, getenv name,
      ⟨name, rfl, rfl⟩, baseUrl, ⟨entries, hTable, hUrl⟩, by simp [hClient]⟩

theorem exists_makeClient {llm : String × Toml} :
    (∃ made, makeClient getenv chatOpenAI llm = .ok made) ↔
      MakesClient getenv chatOpenAI llm.2 := by
  simp only [makeClient_eq_ok, MakesClient, Option.isSome_iff_exists]
  constructor
  · rintro ⟨-, entries, model, name, baseUrl, client, hTable, hModel, hKey, hUrl, hClient, -⟩
    exact ⟨entries, model, name, baseUrl, hTable, hModel, hKey, hUrl, client, hClient⟩
  · rintro ⟨entries, model, name, baseUrl, hTable, hModel, hKey, hUrl, client, hClient⟩
    exact ⟨_, entries, model, name, baseUrl, client, hTable, hModel, hKey, hUrl, hClient, rfl⟩

/-- The pool has the names of the document. -/
theorem names_of_mapM {llms : Table} {llmPool : List (String × Client)}
    (hPool : llms.mapM (makeClient getenv chatOpenAI) = .ok llmPool) :
    llmPool.map Prod.fst = llms.map Prod.fst := by
  have hEach := FirstRefusal.mapM_eq_ok.mp hPool
  clear hPool
  induction hEach with
  | nil => rfl
  | cons hMade _ ih =>
      obtain ⟨-, -, -, -, -, -, -, -, -, -, rfl⟩ := makeClient_eq_ok.mp hMade
      rw [List.map_cons, List.map_cons, ih]

/-- What the check says of a reference. -/
theorem checkNode_table {llmPool : List (String × Client)} {name : String} {entries : Table} :
    checkNode llmPool (name, .table entries) = .ok () ↔
      ∀ ref, entries.lookup "llm" = some ref →
        ref.IsFalse ∨ ∃ name ∈ llmPool.map Prod.fst, ref = .string name := by
  have hGet : (Toml.table entries).get "llm" = .ok (entries.lookup "llm") := rfl
  rw [checkNode, hGet]
  cases entries.lookup "llm" with
  | none => simp [bind, Except.bind]
  | some ref =>
      rcases ref with text | ⟨_ | ⟨entry, rest⟩⟩ | ⟨_ | _⟩ | ⟨_ | _, text⟩
      · by_cases hBlank : text = ""
        · simp [bind, Except.bind, Toml.IsFalse, hBlank]
        · simp [bind, Except.bind, Toml.IsFalse, hBlank]
      all_goals simp [bind, Except.bind, Toml.IsFalse]

/-- A node passes when its reference, if it has one, names a client. -/
theorem exists_checkNode {llmPool : List (String × Client)} {node : String × Toml} :
    (∃ checked, checkNode llmPool node = .ok checked) ↔
      RefersTo (llmPool.map Prod.fst) node.2 := by
  obtain ⟨name, value⟩ := node
  constructor
  · rintro ⟨⟨⟩, hChecked⟩
    have hFirst := hChecked
    rw [checkNode, bind_eq_ok] at hFirst
    obtain ⟨found, hGet, -⟩ := hFirst
    obtain ⟨entries, hTable, -⟩ := get_eq_ok.mp hGet
    obtain rfl : value = .table entries := hTable
    exact ⟨entries, rfl, checkNode_table.mp hChecked⟩
  · rintro ⟨entries, hTable, hRef⟩
    obtain rfl : value = .table entries := hTable
    exact ⟨(), checkNode_table.mpr hRef⟩

/-- A configuration is loaded when a model is made of each table and each node passes. -/
theorem loadConfig_eq_ok {cfg : Table} {llmPool : List (String × Client)} :
    loadConfig getenv chatOpenAI cfg = .ok llmPool ↔
      ∃ llms nodes, tableOf cfg "llms" = .ok llms ∧ tableOf cfg "nodes" = .ok nodes ∧
        llms.mapM (makeClient getenv chatOpenAI) = .ok llmPool ∧
        ∀ node ∈ nodes, RefersTo (llms.map Prod.fst) node.2 := by
  simp only [loadConfig, bind_eq_ok]
  constructor
  · rintro ⟨llms, hLlms, pool, hPool, nodes, hNodes, checked, hChecked, hSame⟩
    obtain rfl := Except.ok.inj hSame
    refine ⟨llms, nodes, hLlms, hNodes, hPool, fun node hNode => ?_⟩
    rw [← names_of_mapM hPool]
    exact exists_checkNode.mp (FirstRefusal.exists_mapM_eq_ok.mp ⟨checked, hChecked⟩ node hNode)
  · rintro ⟨llms, nodes, hLlms, hNodes, hPool, hRefs⟩
    rw [← names_of_mapM hPool] at hRefs
    obtain ⟨checked, hChecked⟩ := FirstRefusal.exists_mapM_eq_ok.mpr fun node hNode =>
      exists_checkNode.mpr (hRefs node hNode)
    exact ⟨llms, hLlms, llmPool, hPool, nodes, hNodes, checked, hChecked, rfl⟩

theorem lookup_stripped (entries : Table) (key : String) :
    (entries.map fun entry => (entry.1, entry.2.stripped)).lookup key =
      (entries.lookup key).map Toml.stripped := by
  induction entries with
  | nil => rfl
  | cons entry rest ih =>
      rw [List.map_cons, List.lookup_cons, List.lookup_cons, ih]
      cases key == entry.1 <;> rfl

theorem exists_lookup {Value : Type} {entries : List (String × Value)} {key : String} :
    (∃ value, entries.lookup key = some value) ↔ key ∈ entries.map Prod.fst := by
  induction entries with
  | nil => simp
  | cons entry rest ih =>
      rw [List.lookup_cons, List.map_cons, List.mem_cons]
      by_cases hKey : key = entry.1
      · simp [hKey]
      · have hOther : (key == entry.1) = false := beq_false_of_ne hKey
        simp only [hOther, hKey, false_or]
        exact ih

/-- What is made of a reference without blanks. -/
theorem exists_clientOf {llmPool : List (String × Client)} {entries : Table} :
    (∃ client, clientOf llmPool (entries.map fun entry => (entry.1, entry.2.stripped)) =
      .ok client) ↔ ∀ ref, entries.lookup "llm" = some ref →
        ∃ text, ref = .string text ∧ strip text ∈ llmPool.map Prod.fst := by
  rw [clientOf, lookup_stripped]
  cases entries.lookup "llm" with
  | none => simp
  | some ref =>
      cases ref with
      | string text =>
          rw [Option.map_some, Toml.stripped]
          cases hLookup : llmPool.lookup (strip text) with
          | none =>
              have hNot : strip text ∉ llmPool.map Prod.fst := by
                rw [← exists_lookup, hLookup]
                simp
              simpa [hLookup] using hNot
          | some client =>
              have hName := exists_lookup.mp ⟨client, hLookup⟩
              simpa [hLookup] using hName
      | _ => simp [Toml.stripped]

theorem lookup_nodes {cfg nodes : Table} (hNodes : tableOf cfg "nodes" = .ok nodes) {name : String}
    {node : Toml} (hNode : nodes.lookup name = some node) :
    cfg.lookup "nodes" = some (.table nodes) := by
  rw [tableOf] at hNodes
  cases hLookup : cfg.lookup "nodes" with
  | none =>
      rw [hLookup] at hNodes
      obtain rfl := Except.ok.inj hNodes
      cases hNode
  | some value =>
      rw [hLookup] at hNodes
      rw [items_eq_ok.mp hNodes]

/-- A node is resolved from its own entry or from the default. -/
theorem exists_resolveNode {cfg nodes : Table} (hNodes : tableOf cfg "nodes" = .ok nodes)
    {llmPool : List (String × Client)} {name : String} :
    (∃ resolved, resolveNode cfg llmPool name = .ok resolved) ↔
      Resolves (llmPool.map Prod.fst) nodes name := by
  simp only [resolveNode, bind_eq_ok, index_eq_ok, items_eq_ok, Resolves, ← exists_clientOf]
  constructor
  · rintro ⟨resolved, value, ⟨document, hDocument, hValue⟩, node, ⟨table, rfl, hNode⟩, entries, rfl,
      client, hClient, -⟩
    obtain rfl := Toml.table.inj hDocument
    rw [tableOf, hValue] at hNodes
    obtain rfl := Toml.table.inj (items_eq_ok.mp hNodes)
    exact ⟨entries, hNode, client, hClient⟩
  · rintro ⟨entries, hNode, client, hClient⟩
    exact ⟨_, .table nodes, ⟨cfg, rfl, lookup_nodes hNodes hNode⟩, .table entries,
      ⟨nodes, rfl, hNode⟩, entries, rfl, client, hClient, rfl⟩

/-- The whole configuration is accepted exactly when the models can be made, each node
passes the check, and the planner and the coder are there with references that name a
model without the blanks around them. Whether a model answers is not part of it. -/
theorem configure_iff (getenv : String → Option String)
    (chatOpenAI : Toml → Option String → Toml → Option Client) (cfg : Table) :
    (∃ resolved, configure getenv chatOpenAI cfg = .ok resolved) ↔
      ∃ llms nodes, tableOf cfg "llms" = .ok llms ∧ tableOf cfg "nodes" = .ok nodes ∧
        (∀ llm ∈ llms, MakesClient getenv chatOpenAI llm.2) ∧
        (∀ node ∈ nodes, RefersTo (llms.map Prod.fst) node.2) ∧
        Resolves (llms.map Prod.fst) nodes "planner" ∧
        Resolves (llms.map Prod.fst) nodes "coder" := by
  simp only [configure, bind_eq_ok, resolveNodes]
  constructor
  · rintro ⟨resolved, llmPool, hPool, planner, hPlanner, coder, hCoder, -⟩
    obtain ⟨llms, nodes, hLlms, hNodes, hMade, hRefs⟩ := loadConfig_eq_ok.mp hPool
    have hClients := FirstRefusal.exists_mapM_eq_ok.mp ⟨llmPool, hMade⟩
    have hNames := names_of_mapM hMade
    refine ⟨llms, nodes, hLlms, hNodes, fun llm hLlm => exists_makeClient.mp (hClients llm hLlm),
      hRefs, ?_, ?_⟩
    · exact hNames ▸ (exists_resolveNode hNodes).mp ⟨planner, hPlanner⟩
    · exact hNames ▸ (exists_resolveNode hNodes).mp ⟨coder, hCoder⟩
  · rintro ⟨llms, nodes, hLlms, hNodes, hClients, hRefs, hPlanner, hCoder⟩
    obtain ⟨llmPool, hMade⟩ := FirstRefusal.exists_mapM_eq_ok.mpr fun llm hLlm =>
      exists_makeClient.mpr (hClients llm hLlm)
    rw [← names_of_mapM hMade] at hPlanner hCoder
    obtain ⟨planner, hPlanner⟩ := (exists_resolveNode hNodes).mpr hPlanner
    obtain ⟨coder, hCoder⟩ := (exists_resolveNode hNodes).mpr hCoder
    exact ⟨(planner, coder), llmPool,
      loadConfig_eq_ok.mpr ⟨llms, nodes, hLlms, hNodes, hMade, hRefs⟩,
      planner, hPlanner, coder, hCoder, rfl⟩

theorem bind_eq_error {Refusal First Second : Type} {first : Except Refusal First}
    {second : First → Except Refusal Second} {refusal : Refusal} :
    (first >>= second) = .error refusal ↔
      first = .error refusal ∨ ∃ value, first = .ok value ∧ second value = .error refusal := by
  cases first <;> simp [bind, Except.bind]

theorem tableOf_ne_valueError {cfg : Table} {name text : String} :
    tableOf cfg name ≠ .error (.valueError text) := by
  rw [tableOf]
  rcases cfg.lookup name with _ | _ | _ | _ | _ <;> simp [Toml.items]

theorem index_ne_valueError {value : Toml} {key text : String} :
    value.index key ≠ .error (.valueError text) := by
  cases value with
  | table entries => cases hFound : entries.lookup key <;> simp [Toml.index, hFound]
  | _ => simp [Toml.index]

theorem makeClient_ne_valueError {llm : String × Toml} {text : String} :
    makeClient getenv chatOpenAI llm ≠ .error (.valueError text) := by
  intro hError
  simp only [makeClient, bind_eq_error, index_ne_valueError, false_or] at hError
  obtain ⟨model, -, keyName, -, hError⟩ := hError
  rcases hError with hEnvironment | ⟨apiKey, -, baseUrl, -, hClient⟩
  · cases keyName <;> simp [environment] at hEnvironment
  · split at hClient <;> cases hClient

/-- The one check with a message of its own; all other faults are those of a lookup. -/
theorem checkNode_eq_valueError {llmPool : List (String × Client)} {node : String × Toml}
    {text : String} : checkNode llmPool node = .error (.valueError text) ↔
      ∃ entries ref, node.2 = .table entries ∧
        ((entries.lookup "llm" = some (.string ref) ∧ ref ≠ "" ∧ ref ∉ llmPool.map Prod.fst) ∨
          entries.lookup "llm" = some (.scalar true ref)) ∧
        text = unknownLlm node.1 ref := by
  obtain ⟨name, value⟩ := node
  cases value with
  | table entries =>
      have hGet : (Toml.table entries).get "llm" = .ok (entries.lookup "llm") := rfl
      rw [checkNode, hGet]
      cases hLlm : entries.lookup "llm" with
      | none => simp [bind, Except.bind, hLlm]
      | some ref =>
          rcases ref with ref | ⟨_ | ⟨entry, rest⟩⟩ | ⟨_ | _⟩ | ⟨_ | _, ref⟩
          · by_cases hBad : ref ≠ "" ∧ ref ∉ llmPool.map Prod.fst
            · simp only [bind, Except.bind, if_pos hBad]
              constructor
              · intro hError
                cases hError
                exact ⟨entries, ref, rfl, Or.inl ⟨hLlm, hBad⟩, rfl⟩
              · rintro ⟨entries', ref', hTable, hRef, rfl⟩
                obtain rfl := Toml.table.inj hTable
                rw [hLlm] at hRef
                rcases hRef with ⟨hRef, -⟩ | hRef
                · cases hRef
                  rfl
                · cases hRef
            · simp only [bind, Except.bind, if_neg hBad]
              constructor
              · intro hError
                cases hError
              · rintro ⟨entries', ref', hTable, hRef, rfl⟩
                obtain rfl := Toml.table.inj hTable
                rw [hLlm] at hRef
                rcases hRef with ⟨hRef, hNot⟩ | hRef
                · cases hRef
                  exact (hBad hNot).elim
                · cases hRef
          all_goals simp [bind, Except.bind, hLlm, eq_comm]
  | _ => simp [checkNode, Toml.get, bind, Except.bind]

/-- The error text is that of the first node whose reference is neither false nor the name
of a model, when the models could be made. What the other refusals say is not modelled. -/
theorem unknownLlm_iff (getenv : String → Option String)
    (chatOpenAI : Toml → Option String → Toml → Option Client) (cfg : Table) (text : String) :
    loadConfig getenv chatOpenAI cfg = .error (.valueError text) ↔
      ∃ llms before node after, tableOf cfg "llms" = .ok llms ∧
        (∀ llm ∈ llms, MakesClient getenv chatOpenAI llm.2) ∧
        tableOf cfg "nodes" = .ok (before ++ node :: after) ∧
        (∀ other ∈ before, RefersTo (llms.map Prod.fst) other.2) ∧
        ∃ entries ref, node.2 = .table entries ∧
          ((entries.lookup "llm" = some (.string ref) ∧ ref ≠ "" ∧ ref ∉ llms.map Prod.fst) ∨
            entries.lookup "llm" = some (.scalar true ref)) ∧
          text = unknownLlm node.1 ref := by
  have hClients : ∀ llms : Table, llms.mapM (makeClient getenv chatOpenAI) ≠
      .error (.valueError text) := by
    intro llms hError
    obtain ⟨-, llm, -, -, -, hLlm⟩ := FirstRefusal.mapM_eq_error.mp hError
    exact makeClient_ne_valueError hLlm
  simp only [loadConfig, bind_eq_error, tableOf_ne_valueError, hClients, false_or]
  constructor
  · rintro ⟨llms, hLlms, llmPool, hPool, nodes, hNodes, hChecked | ⟨-, -, hEnd⟩⟩
    · obtain ⟨before, node, after, rfl, hBefore, hNode⟩ := FirstRefusal.mapM_eq_error.mp hChecked
      have hNames := names_of_mapM hPool
      have hMade := FirstRefusal.exists_mapM_eq_ok.mp ⟨llmPool, hPool⟩
      rw [checkNode_eq_valueError, hNames] at hNode
      refine ⟨llms, before, node, after, hLlms, fun llm hLlm => ?_, hNodes,
        fun other hOther => ?_, hNode⟩
      · exact exists_makeClient.mp (hMade llm hLlm)
      · exact hNames ▸ exists_checkNode.mp (hBefore other hOther)
    · cases hEnd
  · rintro ⟨llms, before, node, after, hLlms, hMade, hNodes, hBefore, hNode⟩
    obtain ⟨llmPool, hPool⟩ := FirstRefusal.exists_mapM_eq_ok.mpr fun llm hLlm =>
      exists_makeClient.mpr (hMade llm hLlm)
    rw [← names_of_mapM hPool] at hBefore hNode
    refine ⟨llms, hLlms, llmPool, hPool, _, hNodes, Or.inl ?_⟩
    exact FirstRefusal.mapM_eq_error.mpr ⟨before, node, after, rfl,
      fun other hOther => exists_checkNode.mpr (hBefore other hOther),
      checkNode_eq_valueError.mpr hNode⟩

end Configuration

section Starting

variable {Id Client : Type} (hexDigest : String → String)
  (chatOpenAI : Toml → Option String → Toml → Option Client) (cfg : Table)

/-- Why there is no process. -/
inductive StartError where
  | config (error : ConfigError)
  | exit (message : String)
  deriving DecidableEq, Repr

/-- The program up to its loop, with what the disk holds then. A reset comes first. -/
def startProgram (getenv : String → Option String) (disk : Option (Database Id))
    (args : Arguments) : Option (Database Id) × Except StartError (Process Id) :=
  match loadConfig getenv chatOpenAI cfg with
  | .error error => (launchDisk hexDigest disk args, .error (.config error))
  | .ok llmPool =>
    match launch hexDigest disk args with
    | (db, .error message) => (some db, .error (.exit message))
    | (db, .ok process) =>
      match resolveNodes cfg llmPool with
      | .error error => (some db, .error (.config error))
      | .ok _ => (some db, .ok process)

/-- A start is a launch, or it is refused and leaves what the reset has left. -/
theorem startProgram_cases (getenv : String → Option String) (disk : Option (Database Id))
    (args : Arguments) :
    (∃ error, (startProgram hexDigest chatOpenAI cfg getenv disk args).2 = .error (.config error) ∧
      ∀ threadId, (openSaver (startProgram hexDigest chatOpenAI cfg getenv disk args).1).thread
        threadId = (openSaver (launchDisk hexDigest disk args)).thread threadId) ∨
    ((startProgram hexDigest chatOpenAI cfg getenv disk args).1 =
        some (launch hexDigest disk args).1 ∧
      (startProgram hexDigest chatOpenAI cfg getenv disk args).2.toOption =
        (launch hexDigest disk args).2.toOption ∧
      ∀ error, (startProgram hexDigest chatOpenAI cfg getenv disk args).2 ≠
        .error (.config error)) := by
  have hDisk := launch_fst hexDigest disk args
  rw [startProgram]
  cases loadConfig getenv chatOpenAI cfg with
  | error error => exact Or.inl ⟨error, rfl, fun _ => rfl⟩
  | ok llmPool =>
      rcases hLaunch : launch hexDigest disk args with ⟨db, message | process⟩
      · exact Or.inr ⟨rfl, rfl, fun error hError => nomatch hError⟩
      · have hDb : db = openSaver (launchDisk hexDigest disk args) := by rw [← hDisk, hLaunch]
        simp only
        cases resolveNodes cfg llmPool with
        | error error =>
            refine Or.inl ⟨error, rfl, fun threadId => ?_⟩
            rw [thread_openSaver, Option.map_some, Option.getD_some, hDb]
        | ok nodes => exact Or.inr ⟨rfl, rfl, fun error hError => nomatch hError⟩

variable [DecidableEq Id] [Value Id] (settings : Settings Id)

/-- An event of the whole program. A start finds the environment variables of its time. -/
abbrev ProgramEvent := Restart.Event (Arguments × (String → Option String)) DriverInput Nat

def System.nextStart (system : System Id) : ProgramEvent → System Id
  | .launch pid (args, getenv) =>
    match system.processes pid with
    | some _ => system
    | none =>
      let started := startProgram hexDigest chatOpenAI cfg getenv system.disk args
      ⟨started.1, Function.update system.processes pid started.2.toOption⟩
  | .feed pid input => system.next hexDigest settings (.feed pid input)
  | .save pid => system.next hexDigest settings (.save pid)
  | .crash pid => system.next hexDigest settings (.crash pid)

/-- The same without a configuration: a start that is refused is a process that dies at once. -/
def plainEvents (system : System Id) : ProgramEvent → List SystemEvent
  | .launch pid (args, getenv) =>
    match system.processes pid with
    | some _ => []
    | none =>
      match (startProgram hexDigest chatOpenAI cfg getenv system.disk args).2 with
      | .error (.config _) => [.launch pid args, .crash pid]
      | _ => [.launch pid args]
  | .feed pid input => [.feed pid input]
  | .save pid => [.save pid]
  | .crash pid => [.crash pid]

def plainRun : System Id → List ProgramEvent → List SystemEvent
  | _, [] => []
  | system, event :: rest => plainEvents hexDigest chatOpenAI cfg system event ++
      plainRun (system.nextStart hexDigest chatOpenAI cfg settings event) rest

/-- A start that fails is no event of the plain system, and one that succeeds is a launch. -/
theorem view_nextStart (system : System Id) (event : ProgramEvent) :
    (system.nextStart hexDigest chatOpenAI cfg settings event).view =
      ((plainEvents hexDigest chatOpenAI cfg system event).foldl
        (System.next hexDigest settings) system).view := by
  cases event with
  | launch pid start =>
      obtain ⟨args, getenv⟩ := start
      cases hPid : system.processes pid with
      | some process => simp only [System.nextStart, plainEvents, hPid, List.foldl_nil]
      | none =>
          rcases startProgram_cases hexDigest chatOpenAI cfg getenv system.disk args with
            ⟨error, hError, hDisk⟩ | ⟨hDisk, hProcess, hNot⟩
          · have hStart : system.nextStart hexDigest chatOpenAI cfg settings
                (.launch pid (args, getenv)) = ⟨(startProgram hexDigest chatOpenAI cfg getenv
                  system.disk args).1, Function.update system.processes pid none⟩ := by
              simp only [System.nextStart, hPid, hError, Except.toOption]
            have hPlain : (plainEvents hexDigest chatOpenAI cfg system
                (.launch pid (args, getenv))).foldl (System.next hexDigest settings) system =
                ⟨some (launch hexDigest system.disk args).1,
                  Function.update system.processes pid none⟩ := by
              simp only [plainEvents, hPid, hError, List.foldl_cons, List.foldl_nil, System.next,
                Function.update_idem]
            rw [hStart, hPlain]
            refine congrArg₂ World.mk (funext fun threadId => ?_) rfl
            rw [hDisk, launch_fst, thread_openSaver (some _), Option.map_some, Option.getD_some]
          · have hPlain : plainEvents hexDigest chatOpenAI cfg system (.launch pid (args, getenv)) =
                [.launch pid args] := by
              simp only [plainEvents, hPid]
            rw [hPlain]
            simp only [System.nextStart, hPid, List.foldl_cons, List.foldl_nil, System.next, hDisk,
              hProcess]
  | feed pid input => rfl
  | save pid => rfl
  | crash pid => rfl

theorem view_starts (system : System Id) (events : List ProgramEvent) :
    (events.foldl (System.nextStart hexDigest chatOpenAI cfg settings) system).view =
      ((plainRun hexDigest chatOpenAI cfg settings system events).foldl
        (System.next hexDigest settings) system).view := by
  induction events generalizing system with
  | nil => rfl
  | cons event rest ih =>
      rw [List.foldl_cons, ih, plainRun, List.foldl_append, view_events, view_events,
        view_nextStart]

omit [DecidableEq Id] [Value Id] in
/-- A reset leaves the other threads. -/
theorem thread_of_launchDisk (disk : Option (Database Id)) (args : Arguments) (threadId : String) :
    (openSaver (launchDisk hexDigest disk args)).thread threadId =
      if args.reset ∧ threadId = makeThreadId hexDigest (normalizeGoal args.goal) then []
      else (openSaver disk).thread threadId := by
  rw [launchDisk]
  cases args.reset with
  | false => simp
  | true =>
      by_cases hThread : threadId = makeThreadId hexDigest (normalizeGoal args.goal)
      · simp [hThread, thread_resetThread_self]
      · simp [hThread, thread_resetThread_of_ne]

/-- Starts that the configuration refuses cannot be told from processes that die at once:
the checkpoints and the processes are those of a run of launches and crashes. Such a start
throws away its own thread if it is to reset it, and nothing else. -/
theorem refused_starts_are_unseen (events : List ProgramEvent) :
    let system := events.foldl (System.nextStart hexDigest chatOpenAI cfg settings) System.empty
    let plain := (plainRun hexDigest chatOpenAI cfg settings System.empty events).foldl
      (System.next hexDigest settings) System.empty
    (∀ threadId, (openSaver system.disk).thread threadId =
      (openSaver plain.disk).thread threadId) ∧
    (∀ pid, system.processes pid = plain.processes pid) ∧
    ∀ pid args getenv error, system.processes pid = none →
      (startProgram hexDigest chatOpenAI cfg getenv system.disk args).2 =
        .error (.config error) →
      let after := system.nextStart hexDigest chatOpenAI cfg settings (.launch pid (args, getenv))
      after.processes = system.processes ∧
      ∀ threadId, (openSaver after.disk).thread threadId =
        if args.reset ∧ threadId = makeThreadId hexDigest (normalizeGoal args.goal) then []
        else (openSaver system.disk).thread threadId := by
  intro system plain
  have hView : system.view = plain.view :=
    view_starts hexDigest chatOpenAI cfg settings System.empty events
  refine ⟨fun threadId => congrArg (fun world => world.store threadId) hView, fun pid => ?_, ?_⟩
  · exact Option.map_injective entry_injective
      (congrArg (fun world => world.running pid) hView)
  · intro pid args getenv error hPid hError
    rcases startProgram_cases hexDigest chatOpenAI cfg getenv system.disk args with
      ⟨other, -, hDisk⟩ | ⟨-, -, hNot⟩
    · simp only [System.nextStart, hPid, hError]
      refine ⟨?_, fun threadId => ?_⟩
      · exact (congrArg (Function.update system.processes pid) hPid.symm).trans
          (Function.update_eq_self pid _)
      · rw [hDisk, thread_of_launchDisk]
    · exact (hNot error hError).elim

end Starting

end Orchestrator
