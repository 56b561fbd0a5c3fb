import LuaSkills.Data.JsonText
import LuaSkills.Embedded.Journal.Record

/-!
# The serialized caller

The text serde writes for the trusted caller of a capability. A field with a default that is absent is
left out; the other optional fields are written as `null`.
-/

namespace LuaSkills.Embedded

def skippedField (name : String) : Option String → List (String × String)
  | none => []
  | some s => [(name, JsonText.string s)]

def CapabilityCaller.text (c : CapabilityCaller) : String :=
  JsonText.object <|
    [("runtime_id", JsonText.string c.runtimeId),
      ("plugin_id", JsonText.string c.pluginId),
      ("package_generation", JsonText.string c.packageGeneration),
      ("execution_revision", JsonText.string c.executionRevision),
      ("security_partition", JsonText.string c.securityPartition),
      ("operation_id", JsonText.string c.operationId)] ++
    skippedField "request_id" c.requestId ++
    [("session_id", JsonText.optional c.sessionId),
      ("workspace_root", JsonText.optional c.workspaceRoot)]

end LuaSkills.Embedded
