import Mathlib.Data.List.AList

/-!
# A tree of files and directories

Every directory and file of a file system with the place it is at. A directory
that is renamed takes everything below it along.
-/

inductive Node (β : Type*) where
  | dir
  | file (content : β)
  deriving DecidableEq, Repr

/-- A place in the tree, put together from components that may be used. -/
abbrev Place {α : Type*} (Good : α → Prop) := { place : List α // ∀ c ∈ place, Good c }

structure FileTree {α : Type*} [DecidableEq α] (Good : α → Prop) (β : Type*) where
  nodes : AList fun _ : List α => Node β
  good : ∀ place ∈ nodes.keys, ∀ c ∈ place, Good c
  nonempty : ∀ place ∈ nodes.keys, place ≠ []

namespace FileTree

variable {α β : Type*} [DecidableEq α] {Good : α → Prop}

def empty : FileTree Good β where
  nodes := ∅
  good := fun _ h => absurd h List.not_mem_nil
  nonempty := fun _ h => absurd h List.not_mem_nil

def node (t : FileTree Good β) (place : List α) : Option (Node β) := t.nodes.lookup place

def isDir (t : FileTree Good β) (place : List α) : Bool :=
  match t.node place with
  | some .dir => true
  | _ => false

theorem isDir_iff {t : FileTree Good β} {place : List α} :
    t.isDir place = true ↔ t.node place = some .dir := by
  unfold isDir
  split <;> simp_all

/-- Something is inside the place. -/
def hasBelow (t : FileTree Good β) (place : List α) : Bool :=
  t.nodes.keys.any fun other => place.isPrefixOf other && other != place

/-- The last components of what is directly in a directory. -/
def children (t : FileTree Good β) (dir : List α) : List α :=
  t.nodes.keys.filterMap fun place =>
    match dir.isPrefixOf? place with
    | some [c] => some c
    | _ => none

theorem mem_children {t : FileTree Good β} {dir : List α} {c : α} :
    c ∈ t.children dir ↔ (t.node (dir ++ [c])).isSome = true := by
  rw [children, List.mem_filterMap, node, AList.lookup_isSome, AList.mem_keys]
  constructor
  · rintro ⟨place, hplace, hc⟩
    split at hc
    · rename_i c' hpre
      rw [← Option.some.inj hc, List.isPrefixOf?_eq_some_iff_append_eq.mp hpre]
      exact hplace
    · cases hc
  · intro h
    refine ⟨dir ++ [c], h, ?_⟩
    have hpre : dir.isPrefixOf? (dir ++ [c]) = some [c] :=
      List.isPrefixOf?_eq_some_iff_append_eq.mpr rfl
    rw [hpre]

theorem nodup_children (t : FileTree Good β) (dir : List α) : (t.children dir).Nodup := by
  refine t.nodes.keys_nodup.filterMap ?_
  intro place place' c hc hc'
  rw [Option.mem_def] at hc hc'
  split at hc <;> split at hc' <;> simp_all [List.isPrefixOf?_eq_some_iff_append_eq]

theorem good_of_mem_children {t : FileTree Good β} {dir : List α} {c : α} (h : c ∈ t.children dir) :
    Good c := by
  rw [mem_children, node, AList.lookup_isSome, AList.mem_keys] at h
  exact t.good _ h c (List.mem_append_right _ List.mem_cons_self)

/-- Put a node at a place. -/
def set (t : FileTree Good β) (place : Place Good) (hne : place.1 ≠ []) (n : Node β) :
    FileTree Good β where
  nodes := t.nodes.insert place.1 n
  good := by
    intro other hother
    rcases (AList.mem_insert _).mp (AList.mem_keys.mpr hother) with rfl | h
    · exact place.2
    · exact t.good other (AList.mem_keys.mp h)
  nonempty := by
    intro other hother
    rcases (AList.mem_insert _).mp (AList.mem_keys.mpr hother) with rfl | h
    · exact hne
    · exact t.nonempty other (AList.mem_keys.mp h)

theorem node_set (t : FileTree Good β) (place : Place Good) (hne : place.1 ≠ []) (n : Node β)
    (other : List α) :
    (t.set place hne n).node other = if other = place.1 then some n else t.node other := by
  rw [node, set]
  split
  · rename_i h
    rw [h, AList.lookup_insert]
  · rename_i h
    rw [AList.lookup_insert_ne h, node]

/-- The first components of a place. -/
def take (place : Place Good) (n : Nat) : Place Good :=
  ⟨place.1.take n, fun c hc => place.2 c (List.mem_of_mem_take hc)⟩

/-- Make the directories on the way to a place, as far as its first `n`
components, where they are missing. -/
def createDirs (t : FileTree Good β) (place : Place Good) : Nat → Option (FileTree Good β)
  | 0 => some t
  | n + 1 =>
    match createDirs t place n with
    | none => none
    | some t =>
      if hne : (take place (n + 1)).1 = [] then some t
      else
        match t.node (take place (n + 1)).1 with
        | none => some (t.set (take place (n + 1)) hne .dir)
        | some .dir => some t
        | some (.file _) => none

def createDirAll (t : FileTree Good β) (place : Place Good) : Option (FileTree Good β) :=
  t.createDirs place place.1.length

/-- What is there stays as it is, and what is made is a directory on the way. -/
theorem createDirs_node {t t' : FileTree Good β} {place : Place Good} {n : Nat}
    (h : t.createDirs place n = some t') (other : List α) :
    t'.node other = t.node other ∨
      t.node other = none ∧ t'.node other = some .dir ∧ other <+: place.1 := by
  induction n generalizing t' with
  | zero =>
    obtain rfl := Option.some.inj h
    exact .inl rfl
  | succ n ih =>
    rw [createDirs] at h
    split at h
    · cases h
    · rename_i t₁ hmade
      have ih := ih hmade
      split at h
      · rw [← Option.some.inj h]
        exact ih
      · rename_i hne
        split at h
        · rename_i hmissing
          rw [← Option.some.inj h, node_set]
          split
          · rename_i heq
            rw [heq] at ih ⊢
            rcases ih with hsame | ⟨_, hdir, _⟩
            · exact .inr ⟨by rw [← hsame, hmissing], rfl, List.take_prefix _ _⟩
            · rw [hmissing] at hdir
              cases hdir
          · exact ih
        · rw [← Option.some.inj h]
          exact ih
        · cases h

/-- Write a file that is there, or make it in a directory; all of it or, where there is no
place for it, none. -/
def write (t : FileTree Good β) (place : Place Good) (content : β) : Option (FileTree Good β) :=
  if hne : place.1 = [] then none
  else
    match t.node place.1 with
    | some .dir => none
    | some (.file _) => some (t.set place hne (.file content))
    | none =>
      if place.1.dropLast = [] ∨ t.isDir place.1.dropLast = true then
        some (t.set place hne (.file content))
      else none

theorem write_node {t t' : FileTree Good β} {place : Place Good} {content : β}
    (h : t.write place content = some t') (other : List α) :
    t'.node other = if other = place.1 then some (.file content) else t.node other := by
  rw [write] at h
  split at h
  · cases h
  · split at h
    · cases h
    · rw [← Option.some.inj h, node_set]
    · split at h
      · rw [← Option.some.inj h, node_set]
      · cases h

/-- Where a place is after `src` has been renamed. -/
def relocate (src dst place : List α) : List α :=
  match src.isPrefixOf? place with
  | some rest => dst ++ rest
  | none => place

theorem relocate_below (src dst rest : List α) : relocate src dst (src ++ rest) = dst ++ rest := by
  have hpre : src.isPrefixOf? (src ++ rest) = some rest :=
    List.isPrefixOf?_eq_some_iff_append_eq.mpr rfl
  rw [relocate, hpre]

theorem relocate_elsewhere {src place : List α} (dst : List α) (h : ¬ src <+: place) :
    relocate src dst place = place := by
  unfold relocate
  split
  · rename_i rest hpre
    exact absurd ⟨rest, List.isPrefixOf?_eq_some_iff_append_eq.mp hpre⟩ h
  · rfl

theorem relocate_inj {src dst a b : List α} (ha : ¬ dst <+: a) (hb : ¬ dst <+: b)
    (h : relocate src dst a = relocate src dst b) : a = b := by
  -- of two places that meet, one would have been at or below the target already
  by_cases hsa : src <+: a <;> by_cases hsb : src <+: b
  · obtain ⟨x, rfl⟩ := hsa
    obtain ⟨y, rfl⟩ := hsb
    rw [relocate_below, relocate_below] at h
    rw [List.append_cancel_left h]
  · obtain ⟨x, rfl⟩ := hsa
    rw [relocate_below, relocate_elsewhere dst hsb] at h
    exact absurd ⟨x, h⟩ hb
  · obtain ⟨y, rfl⟩ := hsb
    rw [relocate_elsewhere dst hsa, relocate_below] at h
    exact absurd ⟨y, h.symm⟩ ha
  · rwa [relocate_elsewhere dst hsa, relocate_elsewhere dst hsb] at h

theorem not_prefix_of_hasBelow {t : FileTree Good β} {dst place : List α}
    (h : t.hasBelow dst = false) (hplace : place ∈ t.nodes.keys) (hne : place ≠ dst) :
    ¬ dst <+: place := by
  intro hpre
  rw [hasBelow, List.any_eq_false] at h
  have hnot := h place hplace
  rw [Bool.and_eq_true, not_and] at hnot
  exact hnot (List.isPrefixOf_iff_prefix.mpr hpre) (bne_iff_ne.mpr hne)

/-- The entries with everything from `src` on moved to `dst`, which is empty. -/
def moved (t : FileTree Good β) (src dst : List α) : List (Sigma fun _ : List α => Node β) :=
  (t.nodes.entries.filter fun e => e.1 ≠ dst).map fun e => ⟨relocate src dst e.1, e.2⟩

theorem mem_moved {t : FileTree Good β} {src dst : List α}
    {e : Sigma fun _ : List α => Node β} :
    e ∈ t.moved src dst ↔
      ∃ place, t.node place = some e.2 ∧ place ≠ dst ∧ relocate src dst place = e.1 := by
  rw [moved, List.mem_map]
  constructor
  · rintro ⟨old, hold, rfl⟩
    rw [List.mem_filter, decide_eq_true_iff] at hold
    exact ⟨old.1, AList.mem_lookup_iff.mpr hold.1, hold.2, rfl⟩
  · rintro ⟨place, hnode, hne, hplace⟩
    refine ⟨⟨place, e.2⟩, List.mem_filter.mpr ⟨AList.mem_lookup_iff.mp hnode, ?_⟩, ?_⟩
    · exact decide_eq_true hne
    · rw [hplace]

theorem moved_nodupKeys {t : FileTree Good β} (src : List α) {dst : List α}
    (h : t.hasBelow dst = false) : (t.moved src dst).NodupKeys := by
  rw [List.nodupKeys_iff_pairwise, moved, List.pairwise_map]
  have hkeys := (List.nodupKeys_iff_pairwise.mp t.nodes.nodupKeys).filter fun e => e.1 ≠ dst
  refine hkeys.imp_of_mem ?_
  intro a b ha hb hne heq
  rw [List.mem_filter, decide_eq_true_iff] at ha hb
  have ha' := not_prefix_of_hasBelow h (List.mem_map_of_mem ha.1) ha.2
  have hb' := not_prefix_of_hasBelow h (List.mem_map_of_mem hb.1) hb.2
  exact hne (relocate_inj ha' hb' heq)

theorem exists_of_mem_keys_moved {t : FileTree Good β} {src dst place : List α}
    (h : place ∈ (t.moved src dst).keys) :
    ∃ old ∈ t.nodes.keys, relocate src dst old = place := by
  obtain ⟨n, hmem⟩ := List.exists_of_mem_keys h
  obtain ⟨old, hnode, -, hplace⟩ := mem_moved.mp hmem
  exact ⟨old, AList.mem_keys.mp (AList.lookup_isSome.mp (Option.isSome_of_mem hnode)), hplace⟩

/-- The tree after `src` and everything below it went to `dst`. -/
def move (t : FileTree Good β) (src dst : Place Good) (hne : dst.1 ≠ [])
    (h : t.hasBelow dst.1 = false) : FileTree Good β where
  nodes := ⟨t.moved src.1 dst.1, moved_nodupKeys src.1 h⟩
  good := by
    intro place hplace
    obtain ⟨old, hold, rfl⟩ := exists_of_mem_keys_moved hplace
    unfold relocate
    split
    · rename_i rest hpre
      intro c hc
      rcases List.mem_append.mp hc with hc | hc
      · exact dst.2 c hc
      · apply t.good old hold
        rw [← List.isPrefixOf?_eq_some_iff_append_eq.mp hpre]
        exact List.mem_append_right _ hc
    · exact t.good old hold
  nonempty := by
    intro place hplace
    obtain ⟨old, hold, rfl⟩ := exists_of_mem_keys_moved hplace
    unfold relocate
    split
    · exact List.append_ne_nil_of_left_ne_nil hne _
    · exact t.nonempty old hold

/-- A directory may take the place of an empty directory, a file that of a
file; nothing may be moved into itself. -/
def rename (t : FileTree Good β) (src dst : Place Good) : Option (FileTree Good β) :=
  if src.1 = dst.1 then if (t.node src.1).isSome then some t else none
  else if hne : dst.1 = [] then none
  else if src.1.isPrefixOf dst.1 ∨ dst.1.isPrefixOf src.1 then none
  else if ¬ (dst.1.dropLast = [] ∨ t.isDir dst.1.dropLast = true) then none
  else if hbelow : t.hasBelow dst.1 = true then none
  else
    match t.node src.1, t.node dst.1 with
    | some _, none | some .dir, some .dir | some (.file _), some (.file _) =>
      some (t.move src dst hne (Bool.not_eq_true _ ▸ hbelow))
    | _, _ => none

/-- What is known of a renaming that went through. -/
structure Renamed (t t' : FileTree Good β) (src dst : List α) : Prop where
  apart : ¬ src <+: dst
  apart' : ¬ dst <+: src
  empty : t.hasBelow dst = false
  target : t.node dst = none ∨ t.isDir dst = t.isDir src
  nodes : t'.nodes.entries = t.moved src dst

theorem rename_eq_some {t t' : FileTree Good β} {src dst : Place Good} (hne : src.1 ≠ dst.1)
    (h : t.rename src dst = some t') : Renamed t t' src.1 dst.1 := by
  rw [rename, if_neg hne] at h
  split at h
  · cases h
  · split at h
    · cases h
    · rename_i hapart
      split at h
      · cases h
      · split at h
        · cases h
        · rename_i hbelow
          rw [not_or, List.isPrefixOf_iff_prefix, List.isPrefixOf_iff_prefix] at hapart
          rw [Bool.not_eq_true] at hbelow
          -- nothing is at the target, or a directory for a directory, or a file for a file
          split at h
          · rename_i hmissing
            obtain rfl := Option.some.inj h
            exact ⟨hapart.1, hapart.2, hbelow, .inl hmissing, rfl⟩
          · rename_i hsrc hdst
            obtain rfl := Option.some.inj h
            refine ⟨hapart.1, hapart.2, hbelow, .inr ?_, rfl⟩
            rw [isDir_iff.mpr hdst, isDir_iff.mpr hsrc]
          · rename_i hsrc hdst
            obtain rfl := Option.some.inj h
            refine ⟨hapart.1, hapart.2, hbelow, .inr ?_, rfl⟩
            rw [isDir, isDir, hsrc, hdst]
          · cases h

namespace Renamed

variable {t t' : FileTree Good β} {src dst : List α} (h : Renamed t t' src dst)

include h

theorem node_iff {place : List α} {n : Node β} :
    t'.node place = some n ↔ ∃ old, t.node old = some n ∧ old ≠ dst ∧ relocate src dst old = place := by
  have hmem : t'.node place = some n ↔ ⟨place, n⟩ ∈ t.moved src dst := by
    rw [← h.nodes]
    exact AList.mem_lookup_iff
  rw [hmem, mem_moved]

/-- What was below the source is below the target. -/
theorem node_target (rest : List α) : t'.node (dst ++ rest) = t.node (src ++ rest) := by
  ext n
  rw [h.node_iff]
  constructor
  · rintro ⟨old, hold, hne, hplace⟩
    -- what is below the target now came from the source, as nothing was there
    by_cases hsrc : src <+: old
    · obtain ⟨rest', rfl⟩ := hsrc
      rw [relocate_below] at hplace
      rwa [← List.append_cancel_left hplace]
    · rw [relocate_elsewhere dst hsrc] at hplace
      have hkey := AList.mem_keys.mp (AList.lookup_isSome.mp (Option.isSome_of_mem hold))
      exact absurd ⟨rest, hplace.symm⟩ (not_prefix_of_hasBelow h.empty hkey hne)
  · intro hnode
    refine ⟨src ++ rest, hnode, ?_, relocate_below src dst rest⟩
    intro heq
    exact h.apart ⟨rest, heq⟩

/-- Nothing is left at the source or below it. -/
theorem node_source (rest : List α) : t'.node (src ++ rest) = none := by
  rw [Option.eq_none_iff_forall_ne_some]
  intro n hn
  obtain ⟨old, hold, -, hplace⟩ := h.node_iff.mp hn
  by_cases hsrc : src <+: old
  · obtain ⟨rest', rfl⟩ := hsrc
    rw [relocate_below] at hplace
    rcases List.prefix_or_prefix_of_prefix ⟨rest', hplace⟩ (List.prefix_append src rest) with hd | hs
    · exact h.apart' hd
    · exact h.apart hs
  · rw [relocate_elsewhere dst hsrc] at hplace
    exact hsrc ⟨rest, hplace.symm⟩

/-- Everything else stays where it is. -/
theorem node_elsewhere {place : List α} (hsrc : ¬ src <+: place) (hdst : ¬ dst <+: place) :
    t'.node place = t.node place := by
  ext n
  rw [h.node_iff]
  constructor
  · rintro ⟨old, hold, -, hplace⟩
    by_cases hold' : src <+: old
    · obtain ⟨rest, rfl⟩ := hold'
      rw [relocate_below] at hplace
      exact absurd ⟨rest, hplace⟩ hdst
    · rw [relocate_elsewhere dst hold'] at hplace
      rwa [← hplace]
  · intro hnode
    refine ⟨place, hnode, ?_, relocate_elsewhere dst hsrc⟩
    rintro rfl
    exact hdst List.prefix_rfl

end Renamed

end FileTree
