import ConfigGuard.Policy.Defaults
import ConfigGuard.Reconcile.Convergence

/-!
# The reconcile command

`run_reconcile` of `main.rs`: where the policy and the configuration home are
looked for, and the lines that are printed for a plan.
-/

namespace ConfigGuard
open OsPath

/-- The variables that are read; `path` is `PATH`, split at its colons. -/
structure Variables where
  xdgConfigHome : Option Path
  home : Option Path
  path : List Path

/-- `config_home`. -/
def Variables.configHome (env : Variables) : Option Path :=
  env.xdgConfigHome.or (env.home.map fun home => home.join (Path.ofString ".config"))

def defaultConfigPathIn (tree : ConfigTree) (configHome : Path) : Option Path :=
  let path := (configHome.join (Path.ofString "config-guard")).join (Path.ofString "config.toml")
  if pathExists tree path then some path else none

def defaultConfigPath (env : Variables) (tree : ConfigTree) : Option Path :=
  env.configHome.bind (defaultConfigPathIn tree)

def resolveConfigPath (env : Variables) (tree : ConfigTree) (config : Option Path) : Option Path :=
  config.or (defaultConfigPath env tree)

inductive CommandError where
  | reading (config : Path)
  | parsing (config : Path)
  | noConfigHome
  | reconciling (error : ReconcileError)
  deriving DecidableEq, Repr

def CommandError.message (displayPlace : List Component → String) : CommandError → String
  | reading config => s!"reading {config.display}"
  | parsing config => s!"parsing {config.display}"
  | noConfigHome => "could not determine config home"
  | reconciling error => error.message displayPlace

/-- `load_policy_config`, which looks for the default policy file once more and takes the
built-in policy where there is none. -/
def loadResolvedConfig (parse : String → Option PolicyConfig) (env : Variables) (tree : ConfigTree)
    (config : Option Path) : Except CommandError PolicyConfig :=
  match resolveConfigPath env tree config with
  | none => .ok (defaultPolicyConfig env.home)
  | some config =>
    match readToString tree config with
    | none => .error (.reading config)
    | some content =>
      match parse content with
      | none => .error (.parsing config)
      | some policyConfig => .ok policyConfig

def ActionKind.label : ActionKind → String
  | keepConfigured => "keep"
  | associateCandidate => "associate-candidate"
  | associated => "associated"
  | archiveCandidate => "archive-candidate"
  | archived => "archived"

/-- `print_reconcile_action`. -/
def reconcileLine (action : ReconcileAction) : String :=
  let label := action.kind.label
  match action.target, action.owner, action.binary with
  | some target, _, _ =>
    s!"{label}\t{action.source.display}\t{target.display}\t{action.reason}"
  | none, some owner, some binary =>
    s!"{label}\t{action.source.display}\towner={owner}\tbinary={binary.display}\t{action.reason}"
  | _, _, _ => s!"{label}\t{action.source.display}\t{action.reason}"

def commandOptions (env : Variables) (configHome : Path) (policyConfig : PolicyConfig)
    (configPath : Option Path) (apply : Bool) : ReconcileOptions :=
  let options := ReconcileOptions.new configHome policyConfig env.path
  let options :=
    match configPath with
    | some configPath => options.withConfigPath configPath
    | none => options
  if apply then options.applying else options

/-- The tree that is left and the lines that are printed. -/
def runReconcile (parse : String → Option PolicyConfig) (env : Variables)
    (configHomeArg config : Option Path) (apply : Bool) (clock : Path → Nat) (tree : ConfigTree) :
    ConfigTree × Except CommandError (List String) :=
  let configPath := resolveConfigPath env tree config
  match loadResolvedConfig parse env tree configPath with
  | .error error => (tree, .error error)
  | .ok policyConfig =>
    match configHomeArg.or env.configHome with
    | none => (tree, .error .noConfigHome)
    | some configHome =>
      match planReconcile (commandOptions env configHome policyConfig configPath apply) clock tree with
      | (tree, .error error) => (tree, .error (.reconciling error))
      | (tree, .ok plan) => (tree, .ok (plan.actions.map reconcileLine))

theorem commandOptions_eq (env : Variables) (configHome : Path) (policyConfig : PolicyConfig)
    (configPath : Option Path) (apply : Bool) :
    commandOptions env configHome policyConfig configPath apply =
      { ReconcileOptions.new configHome policyConfig env.path with
        configPath := configPath, apply := apply } := by
  cases configPath <;> cases apply <;> rfl

end ConfigGuard
