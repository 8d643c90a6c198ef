import ConfigGuard.Library.PathJoin
import ConfigGuard.Policy.AliasOrder

/-!
# The configuration root of a path

The part of `learning.rs` that finds the directory an access is learned for:
under the home directory by itself, else behind a symlink in `~/.config`.
-/

namespace ConfigGuard
open OsPath Selection

def dotConfigDir : Path := Path.ofString ".config"

def configSubdirRoot (home : Path) (subdir : String) : Option Path :=
  if subdir.isEmpty then none else some ((home.join dotConfigDir).join (Path.ofString subdir))

def configRootForHome (path home : Path) : Option Path :=
  match path.stripPrefix home with
  | none => none
  | some relative =>
    match relative.components with
    | [] => none
    | first :: rest =>
      match toStr first.asOsStr with
      | none => none
      | some first =>
        if first = ".config" then
          match rest with
          | [] => none
          | second :: _ => (toStr second.asOsStr).bind (configSubdirRoot home)
        else if first = ".codex" then some (home.join (Path.ofString ".codex"))
        else if first = ".kube" then some (home.join (Path.ofString ".kube"))
        else if first = ".ssh" then some (home.join (Path.ofString ".ssh"))
        else if first = ".mozilla" then some (home.join (Path.ofString ".mozilla"))
        else none

def configRootForAlias (path : Path) (aliases : List PathAlias) : Option Path :=
  aliases.findSome? fun link => (path.stripPrefix link.realRoot).map fun _ => link.logicalRoot

def configRootForHomeOrAlias (path home : Path) (aliases : List PathAlias) : Option Path :=
  (configRootForHome path home).or (configRootForAlias path aliases)

/-- A direct child of `~/.config`, or one of the directories beside it. -/
inductive ConfigRoot (home : Path) : Path → Prop
  | subdir {name : Bytes} {c : Component} (hslash : Path.slash ∉ name)
    (hparse : Path.parseSegment name = some c) :
    ConfigRoot home ((home.join dotConfigDir).join ⟨name⟩)
  | top {name : String} (h : name ∈ [".codex", ".kube", ".ssh", ".mozilla"]) :
    ConfigRoot home (home.join (Path.ofString name))

theorem isName_dotConfig : Path.IsName (utf8 ".config") := by
  constructor <;> decide

theorem isName_top {name : String} (h : name ∈ [".codex", ".kube", ".ssh", ".mozilla"]) :
    Path.IsName (utf8 name) := by
  simp only [List.mem_cons, List.not_mem_nil, or_false] at h
  rcases h with rfl | rfl | rfl | rfl <;> constructor <;> decide

theorem components_dotConfigDir (home : Path) :
    (home.join dotConfigDir).components = home.components ++ [.normal (utf8 ".config")] :=
  Path.components_join isName_dotConfig

theorem components_subdir (home : Path) {name : Bytes} {c : Component} (hslash : Path.slash ∉ name)
    (hparse : Path.parseSegment name = some c) :
    ((home.join dotConfigDir).join ⟨name⟩).components =
      home.components ++ [.normal (utf8 ".config"), c] := by
  rw [Path.components_join_segment hslash hparse, components_dotConfigDir, List.append_assoc]
  rfl

/-- One root is not inside another. -/
theorem ConfigRoot.eq_of_inside {home a b : Path} (ha : ConfigRoot home a) (hb : ConfigRoot home b)
    (h : a.components <+: b.components) : a = b := by
  cases ha with
  | subdir hslash hparse =>
    rw [components_subdir home hslash hparse] at h
    cases hb with
    | subdir hslash' hparse' =>
      rw [components_subdir home hslash' hparse', List.prefix_append_right_inj] at h
      obtain rfl := (List.cons_prefix_cons.mp (List.cons_prefix_cons.mp h).2).1
      rw [← Path.asOsStr_parseSegment hparse, ← Path.asOsStr_parseSegment hparse']
    | top htop =>
      rw [Path.ofString, Path.components_join (isName_top htop), List.prefix_append_right_inj] at h
      exact absurd h.length_le (by simp)
  | @top name htop =>
    rw [Path.ofString, Path.components_join (isName_top htop)] at h
    cases hb with
    | subdir hslash' hparse' =>
      rw [components_subdir home hslash' hparse', List.prefix_append_right_inj] at h
      have hname : Component.normal (utf8 name) = .normal (utf8 ".config") :=
        (List.cons_prefix_cons.mp h).1
      simp only [List.mem_cons, List.not_mem_nil, or_false] at htop
      rcases htop with rfl | rfl | rfl | rfl <;> exact absurd hname (by decide)
    | top htop' =>
      rw [Path.ofString, Path.components_join (isName_top htop'),
        List.prefix_append_right_inj] at h
      have hname := (List.cons_prefix_cons.mp h).1
      rw [Component.normal.injEq] at hname
      rw [Path.ofString, Path.ofString, hname]

/-- No two roots are over one path. -/
theorem ConfigRoot.unique {home a b target : Path} (ha : ConfigRoot home a) (hb : ConfigRoot home b)
    (hunder : target.startsWith a = true) (hunder' : target.startsWith b = true) : a = b := by
  rw [Path.startsWith_iff] at hunder hunder'
  rcases List.prefix_or_prefix_of_prefix hunder hunder' with h | h
  · exact ha.eq_of_inside hb h
  · exact (hb.eq_of_inside ha h).symm

theorem components_of_top {home root : Path} {first : Component} {text name : String}
    (htext : utf8 text = first.asOsStr) (hname : text = name)
    (hroot : some (home.join (Path.ofString name)) = some root)
    (h : name ∈ [".codex", ".kube", ".ssh", ".mozilla"]) :
    ConfigRoot home root ∧ root.components = home.components ++ [first] := by
  subst hname
  rw [← Option.some.inj hroot]
  refine ⟨.top h, ?_⟩
  rw [Path.ofString, Path.components_join (isName_top h),
    Path.eq_normal_of_asOsStr htext.symm (isName_top h)]

theorem components_of_subdir {path home root : Path} {first second : Component}
    {rest : List Component} (hpath : path.components = home.components ++ first :: second :: rest)
    (htext : utf8 ".config" = first.asOsStr)
    (h : (toStr second.asOsStr).bind (configSubdirRoot home) = some root) :
    ConfigRoot home root ∧ root.components = home.components ++ [first, second] := by
  obtain ⟨subdir, hsubdir, hroot⟩ := Option.bind_eq_some_iff.mp h
  rw [configSubdirRoot] at hroot
  split at hroot
  · cases hroot
  · have hmem : second ∈ path.components.tail := by
      rw [hpath]
      cases home.components with
      | nil => exact List.mem_cons_self
      | cons c cs => exact List.mem_append_right _ (List.mem_cons_of_mem _ List.mem_cons_self)
    obtain ⟨hslash, hparse⟩ := Path.segment_of_mem_tail hmem
    obtain rfl := Option.some.inj hroot
    rw [Path.ofString, utf8_of_toStr hsubdir]
    refine ⟨.subdir hslash hparse, ?_⟩
    rw [components_subdir home hslash hparse,
      Path.eq_normal_of_asOsStr htext.symm isName_dotConfig]

/-- A root that is found for what goes on from its components is found for all
the paths under it. -/
theorem found_under {path home root : Path} {pre rest : List Component}
    (hpath : path.components = home.components ++ (pre ++ rest))
    (hroot : root.components = home.components ++ pre)
    (hfound : ∀ (target relative : Path) (after : List Component),
      target.stripPrefix home = some relative → relative.components = pre ++ after →
        configRootForHome target home = some root) :
    path.startsWith root = true ∧
      ∀ target : Path, target.startsWith root = true →
        configRootForHome target home = some root := by
  constructor
  · rw [Path.startsWith_iff, hroot, hpath, List.prefix_append_right_inj]
    exact List.prefix_append _ _
  · intro target hunder
    obtain ⟨after, hafter⟩ := Path.startsWith_iff.mp hunder
    rw [hroot, List.append_assoc] at hafter
    have hhome : target.startsWith home = true := Path.startsWith_iff.mpr ⟨_, hafter⟩
    rw [← Path.stripPrefix_isSome, Option.isSome_iff_exists] at hhome
    obtain ⟨relative, hrelative⟩ := hhome
    rw [Path.components_stripPrefix hrelative] at hafter
    exact hfound target relative after hrelative (List.append_cancel_left hafter).symm

/-- The root found under the home directory is one, the path is under it, and
it is found for all the paths under it. -/
theorem configRootForHome_spec {path home root : Path}
    (h : configRootForHome path home = some root) :
    ConfigRoot home root ∧ path.startsWith root = true ∧
      ∀ target : Path, target.startsWith root = true →
        configRootForHome target home = some root := by
  unfold configRootForHome at h
  split at h
  · cases h
  · rename_i relative hrelative
    have hpath := Path.components_stripPrefix hrelative
    split at h
    · cases h
    · rename_i first rest hcomponents
      rw [hcomponents] at hpath
      split at h
      · cases h
      · rename_i text htoStr
        have htext := utf8_of_toStr htoStr
        by_cases hconfig : text = ".config"
        · rw [if_pos hconfig] at h
          split at h
          · cases h
          · rename_i second rest'
            obtain ⟨hroot, hrootComponents⟩ := components_of_subdir hpath (hconfig ▸ htext) h
            -- the two components that were looked at are all the root depends on
            refine ⟨hroot, found_under hpath hrootComponents ?_⟩
            intro target left after hleft hleftComponents
            simp only [configRootForHome, hleft, hleftComponents, List.cons_append, htoStr]
            rw [if_pos hconfig]
            exact h
        · have hfound : ConfigRoot home root ∧ root.components = home.components ++ [first] := by
            rw [if_neg hconfig] at h
            split_ifs at h with hcodex hkube hssh hmozilla
            · exact components_of_top htext hcodex h (by decide)
            · exact components_of_top htext hkube h (by decide)
            · exact components_of_top htext hssh h (by decide)
            · exact components_of_top htext hmozilla h (by decide)
          obtain ⟨hroot, hrootComponents⟩ := hfound
          refine ⟨hroot, found_under hpath hrootComponents ?_⟩
          intro target left after hleft hleftComponents
          simp only [configRootForHome, hleft, hleftComponents, List.cons_append, htoStr]
          rw [if_neg hconfig] at h ⊢
          exact h

end ConfigGuard
