import Mathlib.Data.List.Basic
import Mathlib.Order.MinMax

/-!
# The roles of tools

The model of `contract/src/roles.rs` and of the lookups of `dispatch/src/tool_roles.rs` and
`dispatch/src/remote_ok.rs`: which role a tool requires, whether it changes state, whether a peer
may call it, and the order of the roles.

A role is a text, since users and tokens carry it as one; `roleRank` ranks the known ones and puts
every other text at the bottom.  The tables that the lookups read are filled when the host starts
and as plugins come and go; they are the fields of `ToolTables`.
-/

namespace Orca

/-! ## The order of roles -/

/-- `role_rank` -/
def roleRank : String → Nat
  | "super-admin" => 4
  | "admin" => 3
  | "user" | "member" => 2
  | "read-only" | "read" => 1
  | _ => 0

/-- `satisfies`: an unknown required role is satisfied by nobody. -/
def satisfies (callerRole required : String) : Bool :=
  let need := roleRank required
  (decide (0 < need) || required == "any") && decide (need ≤ roleRank callerRole)

/-- `effective_role`: the lower of the role of a user and the role of a token. -/
def effectiveRole (userRole tokenRole : String) : String :=
  if roleRank tokenRole < roleRank userRole then tokenRole else userRole

/-! ## The tables -/

/-- What is declared for a tool that is linked into the program. -/
structure CoreTool where
  name : String
  requiredRole : String
  /-- Whether it executes by default and plans under `dryRun`. -/
  executeGated : Bool
  /-- Whether it may be run for a remote administrator. -/
  remoteAdmin : Bool

/-- `PluginToolPolicy`, as far as the lookups read it. -/
structure PluginToolPolicy where
  role : String
  /-- Whether its own gate plans on `dryRun`. -/
  executeGated : Bool
  /-- Whether it honours `dryRun` in its body. -/
  dryRunAware : Bool
  /-- Whether it writes to a managed system. -/
  dataMutation : Bool
  /-- Whether peers may not call it. -/
  localOnly : Bool
  /-- Whether it is an `any` tool without an explicit declaration that it reads. -/
  readUnconfirmed : Bool
  /-- Whether it may be run for a remote administrator. -/
  remoteAdmin : Bool

/-- The verb of a unit operation. -/
inductive Verb where
  | list
  | detail
  | create
  | update
  | delete
  | upsert
deriving DecidableEq

/-- The tables the lookups read. -/
structure ToolTables where
  /-- The tools of the registry, each name once. -/
  coreTools : List CoreTool
  roles : String → Option String
  mutations : String → Bool
  pluginTools : String → Option PluginToolPolicy
  /-- The verbs of the live unit operations. -/
  unitOps : String → Option Verb
  /-- The tools that the loaded plugins define. -/
  dynamicTools : List String
  /-- `LOCAL_ONLY`, empty before it is installed. -/
  localOnly : String → Bool

namespace ToolTables

variable (t : ToolTables) (tool : String)

/-- `find`. -/
def find : Option CoreTool := t.coreTools.find? fun c => c.name == tool

/-- `execute_gated_names`. -/
def executeGatedNames : List String := (t.coreTools.filter CoreTool.executeGated).map CoreTool.name

/-- `is_plugin_local_only`. -/
def isPluginLocalOnly : Bool := (t.pluginTools tool).any PluginToolPolicy.localOnly

/-- `plugin_execute_gated`. -/
def pluginExecuteGated : Bool := (t.pluginTools tool).any PluginToolPolicy.executeGated

/-- `plugin_dry_run_aware`. -/
def pluginDryRunAware : Bool := (t.pluginTools tool).any PluginToolPolicy.dryRunAware

/-- `plugin_read_unconfirmed`. -/
def pluginReadUnconfirmed : Bool := (t.pluginTools tool).any PluginToolPolicy.readUnconfirmed

/-- `unit_policy`: the role a unit operation requires, and whether it is a data mutation. -/
def unitPolicy : Option (String × Bool) :=
  (t.unitOps tool).map fun
    | .list | .detail => ("any", false)
    | .create | .update | .upsert | .delete => ("admin", true)

/-- `is_data_mutation`. -/
def isDataMutation : Bool :=
  t.mutations tool || (t.pluginTools tool).any PluginToolPolicy.dataMutation ||
    (t.unitPolicy tool).any Prod.snd

/-- `fixed_surface_role`: the operations of diagnostics and of the power supplies. -/
def fixedSurfaceRole : Option String :=
  if tool = "diagnostics.diagnose" ∨ tool = "diagnostics.repair" then
    some (if tool = "diagnostics.repair" then "admin" else "any")
  else if tool = "ups.state" ∨ tool = "ups.config" ∨ tool = "ups.configure" then
    some (if tool = "ups.configure" then "admin" else "any")
  else none

/-- `known_role`: nothing exactly when the tool cannot be routed. -/
def knownRole : Option String :=
  t.roles tool <|> (t.pluginTools tool).map PluginToolPolicy.role <|>
    (t.unitPolicy tool).map Prod.fst <|> (t.find tool).map CoreTool.requiredRole <|>
    fixedSurfaceRole tool <|> if tool ∈ t.dynamicTools then some "admin" else none

/-- `is_remote_admin_safe`. -/
def isRemoteAdminSafe : Bool :=
  (t.find tool).any CoreTool.remoteAdmin || (t.pluginTools tool).any PluginToolPolicy.remoteAdmin

/-- `is_custody`. -/
def isCustody : Bool := !t.isRemoteAdminSafe tool

/-- `remote_ok::is_allowed`. -/
def isAllowed : Bool := !t.localOnly tool && !t.isPluginLocalOnly tool

end ToolTables

end Orca
