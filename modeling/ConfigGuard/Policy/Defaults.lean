import ConfigGuard.Policy.Config

/-!
# The built-in policy

`PolicyConfig::default` of `policy.rs`, which holds where there is no policy file.
-/

namespace ConfigGuard
open OsPath

def homeRelativePath (home : Option Path) (suffix : String) : Path :=
  (home.getD (Path.ofString "/home/osso")).join (Path.ofString suffix)

/-- The owners, with their paths below the home directory. -/
def defaultOwners : List (String × String) :=
  [("kitty", ".config/kitty"), ("nvim", ".config/nvim"), ("gh", ".config/gh"),
    ("slack", ".config/Slack"), ("firefox", ".mozilla/firefox"), ("chromium", ".config/chromium")]

def defaultOwnedPaths (home : Option Path) : List OwnedPath :=
  defaultOwners.map fun (owner, suffix) => { path := homeRelativePath home suffix, owner }

def defaultSharedSubjects : List String :=
  ["gtk-launch", "xdg-open", "xdg-desktop-portal", "xdg-desktop-portal-gtk",
    "xdg-desktop-portal-kde"]

def defaultSharedPaths (home : Option Path) : List SharedPath :=
  [".config/mimeapps.list", ".config/user-dirs.dirs", ".config/gtk-3.0", ".config/gtk-4.0",
    ".config/fontconfig"].map fun suffix =>
      { path := homeRelativePath home suffix, allowedSubjects := defaultSharedSubjects }

def defaultSensitiveSuffixes : List String :=
  [".config/gh", ".config/gcloud", ".config/hass", ".config/sentry", ".ssh", ".mozilla/firefox"]

def defaultSensitivePaths (home : Option Path) : List PathRule :=
  defaultSensitiveSuffixes.map fun suffix => { path := homeRelativePath home suffix }

/-- `PolicyConfig::default`; `home` is the variable `HOME`. -/
def defaultPolicyConfig (home : Option Path) : PolicyConfig where
  ownedPaths := defaultOwnedPaths home
  sharedPaths := defaultSharedPaths home
  sensitivePaths := defaultSensitivePaths home

end ConfigGuard
