import ConfigGuard.Prompt.Ancestry

/-!
# The lines that report an access

The formatting helpers of `fanotify.rs`, with `executable_label` of `policy.rs`.
-/

namespace ConfigGuard
open OsPath

def AccessKind.debug : AccessKind → String
  | read => "Read"
  | write => "Write"
  | destructiveWrite => "DestructiveWrite"

def DecisionReason.debug : DecisionReason → String
  | crossOwnerRead => "CrossOwnerRead"
  | crossOwnerWrite => "CrossOwnerWrite"
  | sensitiveReadByDevTool => "SensitiveReadByDevTool"
  | sensitiveWrite => "SensitiveWrite"

/-- `debugPath` stands for `{:?}` of a path. -/
def Decision.debug (debugPath : Path → String) : Decision → String
  | allow => "Allow"
  | deny => "Deny"
  | prompt reason default scope =>
    "Prompt \x7b reason: " ++ reason.debug ++ ", default: " ++ default.debug debugPath ++
      ", scope: " ++ debugPath scope ++ " \x7d"

def claudeVersions : Path := Path.ofString "/home/osso/.local/share/claude/versions"

def executableLabel (executable : Path) : String :=
  if executable.startsWith claudeVersions then "claude:" ++ executable.display
  else executableName executable

/-- What the lines on an access begin with. -/
def reportHead (mode : String) (pid : Int) (executable target : Path) (access : AccessKind) :
    String :=
  s!"FORBID {mode} pid={pid} exe={executableLabel executable} access={access.debug} " ++
    s!"path={target.display} "

def formatPolicyDecision (debugPath : Path → String) (mode : String) (pid : Int)
    (executable target : Path) (access : AccessKind) : Decision → Option String
  | .allow => none
  | .deny => some (reportHead mode pid executable target access ++ "decision=Deny")
  | .prompt reason default scope =>
    some (reportHead mode pid executable target access ++
      s!"decision=Prompt reason={reason.debug} default={default.debug debugPath} " ++
      s!"scope={scope.display}")

def formatAuditDecision (debugPath : Path → String) (pid : Int) (executable target : Path)
    (access : AccessKind) (decision : Decision) : Option String :=
  formatPolicyDecision debugPath "audit" pid executable target access decision

def auditPromptLine (debugPath : Path → String) (pid : Int) (executable target : Path)
    (access : AccessKind) (policyDecision userDecision : Decision) : String :=
  reportHead "audit-prompt" pid executable target access ++
    s!"policy={policyDecision.debug debugPath} user_decision={userDecision.debug debugPath}"

end ConfigGuard
