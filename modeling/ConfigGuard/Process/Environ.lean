import ConfigGuard.Library.Utf8
import ConfigGuard.Process.Procfs

/-!
# The environment of a process

What `select_wayland_env` makes of an environment: entries of any bytes, in any order
and number, with zero bytes between them.
-/

namespace ConfigGuard
open OsPath

/-- The pieces of an environment between its zero bytes. -/
def environEntries (bytes : Bytes) : List Bytes := bytes.splitOn 0

/-- The entry that gives a variable its value. -/
def assignment (key value : String) : Bytes := utf8 key ++ equalsSign :: utf8 value

/-- The last of the entries that give the variable a value gives it this one. -/
def LastAssigned (entries : List Bytes) (key value : String) : Prop :=
  ∃ before after, entries = before ++ assignment key value :: after ∧
    ∀ other, assignment key other ∉ after

theorem splitOnce_append {c : UInt8} {l : Bytes} (h : c ∉ l) (r : Bytes) :
    splitOnce c (l ++ c :: r) = some (l, r) := by
  induction l with
  | nil => rw [List.nil_append, splitOnce, if_pos rfl]
  | cons b l ih =>
    have hb : b ≠ c := fun heq => h (heq ▸ List.mem_cons_self)
    rw [List.cons_append, splitOnce, if_neg hb, ih fun hl => h (List.mem_cons_of_mem b hl),
      Option.map_some]

/-- The entries that are read for a variable are the assignments to it. -/
theorem parseEnvEntry_eq_some {entry : Bytes} {key value : String} :
    parseEnvEntry entry = some (key, value) ↔
      entry = assignment key value ∧ equalsSign ∉ utf8 key := by
  constructor
  · intro h
    obtain ⟨⟨l, r⟩, hsplit, h⟩ := Option.bind_eq_some_iff.mp h
    obtain ⟨key', hkey, h⟩ := Option.bind_eq_some_iff.mp h
    obtain ⟨value', hvalue, heq⟩ := Option.map_eq_some_iff.mp h
    obtain ⟨rfl, rfl⟩ := Prod.mk.inj heq
    obtain ⟨rfl, hnone⟩ := splitOnce_spec hsplit
    rw [assignment, utf8_of_toStr hkey, utf8_of_toStr hvalue]
    exact ⟨rfl, hnone⟩
  · rintro ⟨rfl, hnone⟩
    rw [parseEnvEntry, assignment, splitOnce_append hnone, Option.bind_some]
    dsimp only
    rw [toStr_utf8, toStr_utf8]
    rfl

theorem parsesFor_iff {entry : Bytes} {key : String} (hkey : equalsSign ∉ utf8 key) :
    (parseEnvEntry entry).any (fun parsed => parsed.1 == key) = true ↔
      ∃ value, entry = assignment key value := by
  rw [Option.any_eq_true]
  constructor
  · rintro ⟨⟨key', value⟩, hparse, hsame⟩
    obtain rfl := beq_iff_eq.mp hsame
    exact ⟨value, (parseEnvEntry_eq_some.mp hparse).1⟩
  · rintro ⟨value, rfl⟩
    exact ⟨(key, value), parseEnvEntry_eq_some.mpr ⟨rfl, hkey⟩, beq_self_eq_true key⟩

theorem lookup_collectEnv (entries : List (String × String)) (key : String) :
    (collectEnv entries).lookup key =
      (entries.reverse.find? fun entry => entry.1 == key).map (·.2) := by
  induction entries using List.reverseRecOn with
  | nil => rfl
  | append_singleton entries entry ih =>
    have hinsert : collectEnv (entries ++ [entry]) =
        (collectEnv entries).insert entry.1 entry.2 := by
      rw [collectEnv, List.foldl_append]
      rfl
    rw [hinsert, List.reverse_append, List.reverse_singleton, List.singleton_append,
      List.find?_cons]
    by_cases hkey : key = entry.1
    · subst hkey
      rw [AList.lookup_insert, beq_self_eq_true]
      rfl
    · rw [AList.lookup_insert_ne hkey, beq_false_of_ne (Ne.symm hkey), ih]

theorem lookup_parseEnviron (bytes : Bytes) {key : String} (hkey : equalsSign ∉ utf8 key)
    (value : String) :
    (parseEnviron bytes).lookup key = some value ↔
      LastAssigned (environEntries bytes) key value := by
  rw [parseEnviron, ← environEntries]
  generalize environEntries bytes = entries
  rw [lookup_collectEnv, ← List.filterMap_reverse, List.find?_filterMap]
  constructor
  · intro h
    obtain ⟨⟨key', value'⟩, hfound, rfl⟩ := Option.map_eq_some_iff.mp h
    obtain ⟨entry, hfind, hparse⟩ := Option.bind_eq_some_iff.mp hfound
    obtain ⟨hthis, later, earlier, hsplit, hlater⟩ := List.find?_eq_some_iff_append.mp hfind
    obtain ⟨value, rfl⟩ := (parsesFor_iff hkey).mp hthis
    obtain ⟨rfl, rfl⟩ := Prod.mk.inj (Option.some.inj
      (hparse.symm.trans (parseEnvEntry_eq_some.mpr ⟨rfl, hkey⟩)))
    refine ⟨earlier.reverse, later.reverse, ?_, ?_⟩
    · rw [← List.reverse_reverse entries, hsplit]
      simp
    · intro other hmem
      have hnot := hlater _ (List.mem_reverse.mp hmem)
      rw [(parsesFor_iff hkey).mpr ⟨other, rfl⟩] at hnot
      cases hnot
  · rintro ⟨before, after, rfl, hafter⟩
    have hfind : (before ++ assignment key value :: after).reverse.find?
        (fun entry => (parseEnvEntry entry).any fun parsed => parsed.1 == key) =
          some (assignment key value) := by
      refine List.find?_eq_some_iff_append.mpr ⟨(parsesFor_iff hkey).mpr ⟨value, rfl⟩,
        after.reverse, before.reverse, by simp, ?_⟩
      intro entry hmem
      rw [Bool.not_eq_true']
      by_contra hparses
      obtain ⟨other, rfl⟩ := (parsesFor_iff hkey).mp (Bool.not_eq_false _ ▸ hparses)
      exact hafter other (List.mem_reverse.mp hmem)
    rw [hfind, Option.bind_some, parseEnvEntry_eq_some.mpr ⟨rfl, hkey⟩]
    rfl

/-- Of an environment the variables of the session are kept. -/
theorem lookup_selectWaylandEnv (bytes : Bytes) (key value : String) :
    (selectWaylandEnv bytes).lookup key = some value ↔
      key ∈ waylandEnvKeys ∧ (parseEnviron bytes).lookup key = some value := by
  have hmem : ∀ entry : String × String,
      entry ∈ ((parseEnviron bytes).entries.map fun entry => (entry.1, entry.2)).filter
        (fun entry => waylandEnvKeys.contains entry.1) ↔
      (parseEnviron bytes).lookup entry.1 = some entry.2 ∧ entry.1 ∈ waylandEnvKeys := by
    rintro ⟨key, value⟩
    rw [List.mem_filter, List.contains_iff_mem, ← Option.mem_def, AList.mem_lookup_iff, List.mem_map]
    refine and_congr_left' ?_
    constructor
    · rintro ⟨⟨key', value'⟩, hentry, heq⟩
      obtain ⟨rfl, rfl⟩ := Prod.mk.inj heq
      exact hentry
    · intro hentry
      exact ⟨⟨key, value⟩, hentry, rfl⟩
  have hsame : ∀ {key : String} {l : List (String × String)} {entry : String × String},
      (l.find? fun entry => entry.1 == key) = some entry → entry.1 = key := by
    intro key l entry hfind
    exact beq_iff_eq.mp (List.find?_some (p := fun entry : String × String => entry.1 == key) hfind)
  rw [selectWaylandEnv, lookup_collectEnv]
  constructor
  · intro h
    obtain ⟨entry, hfind, rfl⟩ := Option.map_eq_some_iff.mp h
    obtain rfl := hsame hfind
    have hkept := (hmem entry).mp (List.mem_reverse.mp (List.mem_of_find?_eq_some hfind))
    exact ⟨hkept.2, hkept.1⟩
  · rintro ⟨hkey, hlookup⟩
    have hkept := List.mem_reverse.mpr ((hmem (key, value)).mpr ⟨hlookup, hkey⟩)
    have hsome := List.find?_isSome (p := fun entry => entry.1 == key) |>.mpr
      ⟨_, hkept, beq_self_eq_true key⟩
    obtain ⟨entry, hfind⟩ := Option.isSome_iff_exists.mp hsome
    obtain rfl := hsame hfind
    have hentry := (hmem entry).mp (List.mem_reverse.mp (List.mem_of_find?_eq_some hfind))
    rw [hfind, Option.map_some, ← hentry.1, hlookup]

theorem equalsSign_not_mem {key : String} (h : key ∈ waylandEnvKeys) : equalsSign ∉ utf8 key := by
  have hchars : ∀ key ∈ waylandEnvKeys, '=' ∉ key.toList := by decide
  intro hmem
  exact hchars key h ((mem_utf8_ascii (by decide)).mp hmem)

/-- What `read_wayland_env` reads of an environment: of each variable of the session, the
value of the last entry that gives it one. -/
theorem lookup_readWaylandEnv {files : ProcFiles} {bytes : Bytes}
    (hfile : files.environ = some bytes) (key value : String) :
    (readWaylandEnv files).lookup key = some value ↔
      key ∈ waylandEnvKeys ∧ LastAssigned (environEntries bytes) key value := by
  rw [readWaylandEnv, hfile]
  dsimp only
  rw [lookup_selectWaylandEnv]
  refine and_congr_right ?_
  intro hkey
  exact lookup_parseEnviron bytes (equalsSign_not_mem hkey) value

/-- A graphical session is one whose display is named last by a nonempty value. -/
theorem hasGraphicalSession_readWaylandEnv {files : ProcFiles}
    (h : hasGraphicalSession (readWaylandEnv files) = true) :
    ∃ bytes value, files.environ = some bytes ∧ value ≠ "" ∧
      LastAssigned (environEntries bytes) "WAYLAND_DISPLAY" value := by
  obtain ⟨value, hvalue, hne⟩ := (Option.any_eq_true _ _).mp h
  cases hfile : files.environ with
  | none =>
    rw [readWaylandEnv, hfile] at hvalue
    cases hvalue
  | some bytes =>
    exact ⟨bytes, value, rfl, bne_iff_ne.mp hne, ((lookup_readWaylandEnv hfile _ _).mp hvalue).2⟩

end ConfigGuard
