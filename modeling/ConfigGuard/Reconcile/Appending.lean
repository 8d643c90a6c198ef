import ConfigGuard.Library.TomlLines
import ConfigGuard.Policy.File
import ConfigGuard.Reconcile.Association
import ConfigGuard.Reconcile.Convergence

/-!
# The policy file with a rule appended

The path and the owner are written between quotes as they are, and under a
header of their own.
-/

namespace ConfigGuard
open OsPath Toml

theorem isBare_ownedPaths : IsBare "owned_paths" := IsBare.of_all (by decide) (by decide)

theorem isBare_path : IsBare "path" := IsBare.of_all (by decide) (by decide)

theorem isBare_owner : IsBare "owner" := IsBare.of_all (by decide) (by decide)

theorem isBare_allowedSubjects : IsBare "allowed_subjects" := IsBare.of_all (by decide) (by decide)

theorem toList_opening : "\n[[owned_paths]]\npath = \"".toList =
    '\n' :: (headerText "owned_paths" ++ openingText "path") := by decide +kernel

theorem toList_between : "\"\nowner = \"".toList = '"' :: '\n' :: openingText "owner" := by
  decide +kernel

theorem toList_closing : "\"\nallowed_subjects = []\n".toList =
    '"' :: '\n' :: emptyArrayText "allowed_subjects" := by decide +kernel

theorem toList_ruleText (path : Path) (owner : String) :
    (ruleText path owner).toList =
      '\n' :: (headerText "owned_paths" ++ (openingText "path" ++
        (path.display.toList ++ '"' :: '\n' :: (openingText "owner" ++
          (owner.toList ++ '"' :: '\n' :: (emptyArrayText "allowed_subjects" ++ [])))))) := by
  unfold ruleText
  rw [String.toList_append, String.toList_append, String.toList_append,
    String.toList_append, toList_opening, toList_between, toList_closing]
  -- otherwise the texts are compared character by character
  generalize headerText "owned_paths" = header
  generalize openingText "path" = pathOpening
  generalize openingText "owner" = ownerOpening
  generalize emptyArrayText "allowed_subjects" = subjects
  simp only [List.append_assoc, List.cons_append, List.append_nil]

/-- The path of a directory that can be written between quotes as it is. -/
def IsWritable (entry : Path) : Prop :=
  ∃ text, toStr entry.bytes = some text ∧ ∀ c ∈ text.toList, IsPlain c

theorem display_of_toStr {path : Path} {text : String} (h : toStr path.bytes = some text) :
    path.display = text := by
  rw [Path.display, h]
  rfl

section

variable {r : Reader} (hr : r.Lawful) {content : String} {root : Table} {config : PolicyConfig}
  (hroot : r.parse content.toList = some root) (hconfig : readPolicyConfig root = some config)

include hr hroot hconfig

/-- A rule that is plain text is read behind those there are, and the next one
can be appended in the same way. -/
theorem parse_appended (hextendable : Extendable root "owned_paths") {path : Path}
    {owner : String} (hpath : IsWritable path) (howner : ∀ c ∈ owner.toList, IsPlain c) :
    ∃ root', r.parse (content ++ ruleText path owner).toList = some root' ∧
      Extendable root' "owned_paths" ∧
      readPolicyConfig root' = some (config.withRule { path, owner }) := by
  obtain ⟨text, htext, hpath⟩ := hpath
  have hpath' : path = Path.ofString path.display := by
    rw [display_of_toStr htext, Path.ofString, utf8_of_toStr htext]
  rw [← display_of_toStr htext] at hpath
  obtain ⟨s, hread, rfl⟩ := Option.map_eq_some_iff.mp hroot
  -- the header, the two strings and the array are read one after the other
  obtain ⟨s₁, hopen⟩ := Option.isSome_iff_exists.mp (hr.openTable_isSome.mpr hextendable)
  have hempty : emptyTable.get "path" = none := rfl
  obtain ⟨s₂, hdefine₁, hwithin₁⟩ := hr.define_within (hr.openTable_within hopen) hempty
    (.string (String.ofList path.display.toList))
  have hnoOwner : (emptyTable.set "path"
      (.string (String.ofList path.display.toList))).get "owner" = none := by
    rw [Table.get_set_ne _ (by decide)]
    rfl
  obtain ⟨s₃, hdefine₂, hwithin₂⟩ := hr.define_within hwithin₁ hnoOwner
    (.string (String.ofList owner.toList))
  have hnoSubjects : ((emptyTable.set "path"
      (.string (String.ofList path.display.toList))).set "owner"
      (.string (String.ofList owner.toList))).get "allowed_subjects" = none := by
    rw [Table.get_set_ne _ (by decide), Table.get_set_ne _ (by decide)]
    rfl
  obtain ⟨s₄, hdefine₃, hwithin₃⟩ := hr.define_within hwithin₂ hnoSubjects (.array [])
  have hfile : r.read r.start (content ++ ruleText path owner).toList = some s₄ := by
    rw [String.toList_append, toList_ruleText, hr.read_lineBreak hread,
      hr.read_header isBare_ownedPaths, hopen, Option.bind_some,
      hr.read_quoted isBare_path hpath, hdefine₁, Option.bind_some,
      hr.read_quoted isBare_owner howner, hdefine₂, Option.bind_some,
      hr.read_emptyArray isBare_allowedSubjects, hdefine₃, Option.bind_some, hr.read_nil]
  refine ⟨r.root s₄, by rw [Reader.parse, hfile, Option.map_some], ?_, ?_⟩
  · intro value hvalue
    rw [hwithin₃.root, Table.get_set_self] at hvalue
    exact ⟨_, (Option.some.inj hvalue).symm⟩
  · rw [hwithin₃.root]
    refine readPolicyConfig_update hextendable hconfig ?_
    rw [String.ofList_toList, String.ofList_toList]
    nth_rewrite 2 [hpath']
    rfl

/-- If the rule comes back, it could be appended and was plain text. -/
theorem of_parsePolicy_appended {path : Path} {owner : String}
    (h : parsePolicy r (content ++ ruleText path owner) =
      some (config.withRule { path, owner })) :
    Extendable root "owned_paths" ∧ IsWritable path := by
  obtain ⟨s, hread, rfl⟩ := Option.map_eq_some_iff.mp hroot
  obtain ⟨root', hroot', hconfig'⟩ := Option.bind_eq_some_iff.mp h
  obtain ⟨s', hread', rfl⟩ := Option.map_eq_some_iff.mp hroot'
  rw [String.toList_append, toList_ruleText, hr.read_lineBreak hread,
    hr.read_header isBare_ownedPaths] at hread'
  obtain ⟨s₁, hopen, hread'⟩ := Option.bind_eq_some_iff.mp hread'
  have hextendable : Extendable (r.root s) "owned_paths" := by
    rw [← hr.openTable_isSome, hopen, Option.isSome_some]
  refine ⟨hextendable, ?_⟩
  obtain ⟨value, s₂, rest, hdefine, hrest, hplain⟩ :=
    hr.quoted_of_read isBare_path (by decide : 'o' ≠ '"') (by decide) (by decide) hread'
  -- the path is what the string gave, and stays it
  have hempty : emptyTable.get "path" = none := rfl
  obtain ⟨s₂', hdefine', hwithin⟩ := hr.define_within (hr.openTable_within hopen) hempty
    (.string (String.ofList value))
  obtain rfl : s₂ = s₂' := Option.some.inj (hdefine.symm.trans hdefine')
  have hlast : (elements (r.root s₂) "owned_paths")[(elements (r.root s) "owned_paths").length]? =
      some (emptyTable.set "path" (.string (String.ofList value))) := by
    rw [hwithin.elements, List.getElem?_concat_length]
  obtain ⟨table, htable, htext⟩ := hr.string_kept hrest hlast (Table.get_set_self _ _ _)
  obtain ⟨rule', hrule', htableRule⟩ := rule_of_table hconfig' htable
  have hsame : rule' = { path, owner } := by
    rw [PolicyConfig.withRule, ← length_ownedPaths hextendable hconfig,
      List.getElem?_concat_length] at hrule'
    exact (Option.some.inj hrule').symm
  have hpath : path = Path.ofString (String.ofList value) := by
    rw [← readOwnedPath_path htext htableRule, hsame]
  have htext : toStr path.bytes = some (String.ofList value) := by
    rw [hpath]
    exact toStr_utf8 _
  refine ⟨_, htext, ?_⟩
  rw [display_of_toStr htext, String.toList_ofList] at hplain
  rw [String.toList_ofList]
  exact hplain rfl

end

/-- Rules that are plain text are read back one after the other. -/
theorem rulesParseBack {r : Reader} (hr : r.Lawful) {content : String} {root : Table}
    {config : PolicyConfig} (hroot : r.parse content.toList = some root)
    (hconfig : readPolicyConfig root = some config) (hextendable : Extendable root "owned_paths")
    {actions : List ReconcileAction} (hplain : ∀ action ∈ actions, action.kind = .associated →
      IsWritable action.source ∧ ∀ c ∈ (action.owner.getD "").toList, IsPlain c) :
    RulesParseBack (parsePolicy r) content actions := by
  induction actions generalizing content root config with
  | nil => trivial
  | cons action actions ih =>
    have hrest : ∀ other ∈ actions, other.kind = .associated →
        IsWritable other.source ∧ ∀ c ∈ (other.owner.getD "").toList, IsPlain c :=
      fun other hother => hplain other (List.mem_cons_of_mem _ hother)
    have hparse : parsePolicy r content = some config := by
      rw [parsePolicy, hroot, Option.bind_some, hconfig]
    by_cases hkind : action.kind = .associated
    · obtain ⟨hwritable, howner⟩ := hplain action List.mem_cons_self hkind
      obtain ⟨root', hroot', hextendable', hconfig'⟩ :=
        parse_appended hr hroot hconfig hextendable hwritable howner
      rw [RulesParseBack, appended, if_pos hkind]
      refine ⟨?_, ih hroot' hconfig' hextendable' hrest⟩
      intro _ loaded hloaded
      obtain rfl := Option.some.inj (hparse.symm.trans hloaded)
      rw [parsePolicy, hroot', Option.bind_some, hconfig', associationRule]
    · rw [RulesParseBack, appended, if_neg hkind, String.append_empty]
      exact ⟨fun h => absurd h hkind, ih hroot hconfig hextendable hrest⟩

theorem isPlain_of_letter {c : Char} (hlow : 97 ≤ c.toNat) (hhigh : c.toNat ≤ 122) :
    IsPlain c := by
  refine ⟨?_, ?_, .inr ⟨by omega, by omega⟩⟩
  · rintro rfl
    exact absurd hlow (by decide)
  · rintro rfl
    exact absurd hlow (by decide)

theorem isPlain_toLower {c : Char} (h : IsPlain c) : IsPlain c.toLower := by
  unfold Char.toLower
  split
  · rename_i hupper
    have hlow : 65 ≤ c.val.toNat := UInt32.le_iff_toNat_le.mp hupper.1
    have hhigh : c.val.toNat ≤ 90 := UInt32.le_iff_toNat_le.mp hupper.2
    have hoffset : ('a'.val - 'A'.val).toNat = 32 := by decide
    have hcode : (c.val + ('a'.val - 'A'.val)).toNat = c.val.toNat + 32 := by
      rw [UInt32.toNat_add, hoffset]
      exact Nat.mod_eq_of_lt (by omega)
    refine isPlain_of_letter ?_ ?_ <;>
    · rw [Char.toNat, hcode]
      omega
  · exact h

theorem withoutCli_subset (name : List Char) : withoutCli name ⊆ name := by
  have hbase : baseName name ⊆ name := (List.dropWhile_suffix _).subset
  rw [withoutCli]
  cases hsuffix : cliSuffix.isSuffixOf? (baseName name) with
  | none => exact hbase
  | some pre =>
    rw [← isSuffixOf?_eq_some.mp hsuffix] at hbase
    exact fun c hc => hbase (List.mem_append_left _ hc)

theorem isPlain_replaceSpace {replacement text : List Char}
    (hreplacement : ∀ c ∈ replacement, IsPlain c) (htext : ∀ c ∈ text, IsPlain c) :
    ∀ c ∈ replaceSpace replacement text, IsPlain c := by
  intro c hc
  obtain ⟨d, hd, hc⟩ := List.mem_flatMap.mp hc
  split at hc
  · exact hreplacement c hc
  · rw [List.mem_singleton.mp hc]
    exact htext d hd

theorem isPlain_toAsciiLowercase {text : List Char} (h : ∀ c ∈ text, IsPlain c) :
    ∀ c ∈ toAsciiLowercase text, IsPlain c := by
  intro c hc
  obtain ⟨d, hd, rfl⟩ := List.mem_map.mp hc
  exact isPlain_toLower (h d hd)

/-- What is derived from a plain name is plain. -/
theorem isPlain_owner {name owner : List Char} (hname : ∀ c ∈ name, IsPlain c)
    (h : owner ∈ ownerNames name) : ∀ c ∈ owner, IsPlain c := by
  have hcli : ∀ c ∈ withoutCli name, IsPlain c := fun c hc => hname c (withoutCli_subset name hc)
  have hmem := (mem_ownerNames.mp h).1
  simp only [ownerCandidates, List.mem_cons, List.not_mem_nil, or_false] at hmem
  rcases hmem with rfl | rfl | rfl | rfl
  · exact hcli
  · exact isPlain_toAsciiLowercase hcli
  · exact isPlain_toAsciiLowercase (isPlain_replaceSpace (IsPlain.of_all (by decide)) hcli)
  · exact isPlain_toAsciiLowercase (isPlain_replaceSpace (IsPlain.of_all (by decide)) hcli)

theorem toNat_lt_of_not_plain {c : Char} (h : ¬ IsPlain c) : c.toNat < 128 := by
  by_contra hlarge
  refine h ⟨?_, ?_, .inr ⟨by omega, by omega⟩⟩
  · rintro rfl
    exact hlarge (by decide)
  · rintro rfl
    exact hlarge (by decide)

/-- The name of a directory is plain if its path can be written as it is. -/
theorem IsWritable.name {home : Path} {name : String} (hname : Path.IsName (utf8 name))
    (h : IsWritable (home.join ⟨utf8 name⟩)) : ∀ c ∈ name.toList, IsPlain c := by
  obtain ⟨text, htext, hplain⟩ := h
  intro c hc
  by_contra hnot
  have hascii := toNat_lt_of_not_plain hnot
  obtain ⟨base, hbase⟩ := Path.join_name home
  rw [hbase _ hname.noSlash] at htext
  have hbyte : c.val.toUInt8 ∈ utf8 text := by
    rw [utf8_of_toStr htext]
    exact List.mem_append_right _ ((mem_utf8_ascii hascii).mpr hc)
  exact hnot (hplain c ((mem_utf8_ascii hascii).mp hbyte))

/-- A rule for a directory of the configuration home, and an owner derived from
its name, is appended to a policy file that could be loaded. -/
structure AppendedRule (r : Reader) (configPath home : Path) (name owner : String) (root : Table)
    (config : PolicyConfig) (tree tree' : ConfigTree) : Prop where
  isName : Path.IsName (utf8 name)
  derived : ∃ owners, ownerNamesForEntry (home.join ⟨utf8 name⟩) = some owners ∧ owner ∈ owners
  document : ∃ content, readToString tree configPath = some content ∧
    r.parse content.toList = some root
  parsed : readPolicyConfig root = some config
  append : appendOwnedPath (some configPath) (home.join ⟨utf8 name⟩) owner tree = .ok tree'

theorem AppendedRule.loaded {r : Reader} {configPath home : Path} {name owner : String}
    {root : Table} {config : PolicyConfig} {tree tree' : ConfigTree}
    (h : AppendedRule r configPath home name owner root config tree tree') :
    ∃ content, r.parse content.toList = some root ∧
      loadPolicyConfig (parsePolicy r) configPath tree' =
        parsePolicy r (content ++ ruleText (home.join ⟨utf8 name⟩) owner) := by
  obtain ⟨content, hread, hparse⟩ := h.document
  obtain ⟨content', hread', hwrite⟩ := appendOwnedPath_ok h.append
  obtain rfl := Option.some.inj (hread.symm.trans hread')
  have hfile : readToString tree' configPath =
      some (content ++ ruleText (home.join ⟨utf8 name⟩) owner) := by
    rw [readToString_eq_some, FileTree.write_node hwrite, placeOf, if_pos rfl]
  refine ⟨content, hparse, ?_⟩
  rw [loadPolicyConfig, hfile, Option.bind_some]

theorem AppendedRule.plain_owner {r : Reader} {configPath home : Path} {name owner : String}
    {root : Table} {config : PolicyConfig} {tree tree' : ConfigTree}
    (h : AppendedRule r configPath home name owner root config tree tree')
    (hwritable : IsWritable (home.join ⟨utf8 name⟩)) : ∀ c ∈ owner.toList, IsPlain c := by
  obtain ⟨owners, howners, howner⟩ := h.derived
  rw [ownerNamesForEntry, Path.fileName_join h.isName, Option.bind_some, toStr_utf8] at howners
  dsimp only at howners
  split at howners
  · cases howners
  · rw [← Option.some.inj howners] at howner
    obtain ⟨chars, hchars, rfl⟩ := List.mem_map.mp howner
    rw [String.toList_ofList]
    exact isPlain_owner (hwritable.name h.isName) hchars

/-- The policy that is loaded afterwards has the rule behind those it had, and
nothing else has changed, exactly if the file has its rules under headers and
the path can be written between quotes as it is. -/
theorem appended_rule_iff {r : Reader} (hr : r.Lawful) {configPath home : Path}
    {name owner : String} {root : Table} {config : PolicyConfig} {tree tree' : ConfigTree}
    (h : AppendedRule r configPath home name owner root config tree tree') :
    loadPolicyConfig (parsePolicy r) configPath tree' =
        some (config.withRule { path := home.join ⟨utf8 name⟩, owner }) ↔
      Extendable root "owned_paths" ∧ IsWritable (home.join ⟨utf8 name⟩) := by
  obtain ⟨content, hparse, hloaded⟩ := h.loaded
  rw [hloaded]
  constructor
  · exact of_parsePolicy_appended hr hparse h.parsed
  · rintro ⟨hextendable, hwritable⟩
    obtain ⟨root', hroot', -, hconfig'⟩ :=
      parse_appended hr hparse h.parsed hextendable hwritable (h.plain_owner hwritable)
    rw [parsePolicy, hroot', Option.bind_some, hconfig']

/-- A directory of the configuration home and the policy file. -/
def entryAndPolicy (name content : String) : ConfigTree :=
  treeOf [(Path.ofString "/c", .dir), ((Path.ofString "/c").join ⟨utf8 name⟩, .dir),
    (Path.ofString "/p", .file (utf8 content))]

/-- A rule for a directory `name` and the owner of that name. -/
def appendedTo (name content : String) : Except ReconcileError ConfigTree :=
  appendOwnedPath (some (Path.ofString "/p")) ((Path.ofString "/c").join ⟨utf8 name⟩) name
    (entryAndPolicy name content)

theorem appendedTo_isOk {name content : String} (h : (appendedTo name content).isOk = true) :
    ∃ tree', appendedTo name content = .ok tree' := by
  cases hresult : appendedTo name content with
  | error error =>
    rw [hresult] at h
    cases h
  | ok tree' => exact ⟨tree', rfl⟩

theorem parse_nil : lineReader.parse "".toList = some emptyTable := rfl

theorem appendedRule_of_ok {name content : String} {root : Table} {config : PolicyConfig}
    {tree' : ConfigTree} (hname : Path.IsName (utf8 name))
    (howner : ownerNamesForEntry ((Path.ofString "/c").join ⟨utf8 name⟩) = some [name])
    (hcontent : readToString (entryAndPolicy name content) (Path.ofString "/p") = some content)
    (hroot : lineReader.parse content.toList = some root)
    (hconfig : readPolicyConfig root = some config) (h : appendedTo name content = .ok tree') :
    AppendedRule lineReader (Path.ofString "/p") (Path.ofString "/c") name name root config
      (entryAndPolicy name content) tree' :=
  ⟨hname, ⟨[name], howner, List.mem_cons_self⟩, ⟨content, hcontent, hroot⟩, hconfig, h⟩

theorem appended_rule_gh :
    ∃ tree', appendedTo "gh" "" = .ok tree' ∧
      loadPolicyConfig (parsePolicy lineReader) (Path.ofString "/p") tree' =
        some { ownedPaths := [{ path := (Path.ofString "/c").join ⟨utf8 "gh"⟩, owner := "gh" }] } := by
  obtain ⟨tree', happend⟩ := appendedTo_isOk
    (by decide +kernel : (appendedTo "gh" "").isOk = true)
  have happended := appendedRule_of_ok (by constructor <;> decide) (by decide +kernel)
    (by decide +kernel) parse_nil rfl happend
  have hwritable : IsWritable ((Path.ofString "/c").join ⟨utf8 "gh"⟩) :=
    ⟨"/c/gh", by decide +kernel, IsPlain.of_all (by decide +kernel)⟩
  refine ⟨tree', happend, ?_⟩
  exact (appended_rule_iff lineReader_lawful happended).mpr ⟨extendable_emptyTable _, hwritable⟩

/-- A quote in the name ends the string, and a header cannot add to an array. -/
theorem not_appended_rule :
    (¬ ∀ (r : Reader) (configPath home : Path) (name owner : String) (root : Table)
        (config : PolicyConfig) (tree tree' : ConfigTree), r.Lawful →
      AppendedRule r configPath home name owner root config tree tree' →
      Extendable root "owned_paths" →
        loadPolicyConfig (parsePolicy r) configPath tree' =
          some (config.withRule { path := home.join ⟨utf8 name⟩, owner })) ∧
    ¬ ∀ (r : Reader) (configPath home : Path) (name owner : String) (root : Table)
        (config : PolicyConfig) (tree tree' : ConfigTree), r.Lawful →
      AppendedRule r configPath home name owner root config tree tree' →
      IsWritable (home.join ⟨utf8 name⟩) →
        loadPolicyConfig (parsePolicy r) configPath tree' =
          some (config.withRule { path := home.join ⟨utf8 name⟩, owner }) := by
  constructor
  · intro h
    obtain ⟨tree', happend⟩ := appendedTo_isOk
      (by decide +kernel : (appendedTo "a\"b" "").isOk = true)
    have happended := appendedRule_of_ok (by constructor <;> decide +kernel) (by decide +kernel)
      (by decide +kernel) parse_nil rfl happend
    have hloaded := h _ _ _ _ _ _ _ _ _ lineReader_lawful happended (extendable_emptyTable _)
    obtain ⟨content, hparse, heq⟩ := happended.loaded
    rw [heq] at hloaded
    obtain ⟨-, text, htext, hplain⟩ :=
      of_parsePolicy_appended lineReader_lawful hparse happended.parsed hloaded
    have hquote : toStr ((Path.ofString "/c").join ⟨utf8 "a\"b"⟩).bytes = some "/c/a\"b" := by
      decide +kernel
    obtain rfl := Option.some.inj (hquote.symm.trans htext)
    exact (hplain '"' (by decide +kernel)).notQuote rfl
  · intro h
    have hcontent : "owned_paths = []\n".toList = emptyArrayText "owned_paths" ++ [] := by
      decide +kernel
    have hroot : lineReader.parse "owned_paths = []\n".toList =
        some (emptyTable.set "owned_paths" (.array [])) := by
      rw [Reader.parse, hcontent, lineReader_lawful.read_emptyArray isBare_ownedPaths]
      rfl
    obtain ⟨tree', happend⟩ := appendedTo_isOk
      (by decide +kernel : (appendedTo "gh" "owned_paths = []\n").isOk = true)
    have happended := appendedRule_of_ok (by constructor <;> decide) (by decide +kernel)
      (by decide +kernel) hroot (by decide +kernel : _ = some {}) happend
    have hwritable : IsWritable ((Path.ofString "/c").join ⟨utf8 "gh"⟩) :=
      ⟨"/c/gh", by decide +kernel, IsPlain.of_all (by decide +kernel)⟩
    have hloaded := h _ _ _ _ _ _ _ _ _ lineReader_lawful happended hwritable
    obtain ⟨content, hparse, heq⟩ := happended.loaded
    rw [heq] at hloaded
    obtain ⟨items, hitems⟩ :=
      (of_parsePolicy_appended lineReader_lawful hparse happended.parsed hloaded).1 _
        (Table.get_set_self _ _ _)
    cases hitems

end ConfigGuard
