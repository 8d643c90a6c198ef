import ConfigGuard.Library.Utf8

/-!
# Relative paths

What is left of a path below a directory, and a relative path joined to a
directory, in terms of components.
-/

namespace OsPath

/-- How a component is written. -/
def Component.asOsStr : Component → Bytes
  | .rootDir => [Path.slash]
  | .curDir => [Path.dot]
  | .parentDir => [Path.dot, Path.dot]
  | .normal name => name

namespace Path

theorem asOsStr_parseSegment {segment : Bytes} {c : Component} (h : parseSegment segment = some c) :
    c.asOsStr = segment := by
  unfold parseSegment at h
  split at h
  · cases h
  · split at h
    · rename_i hdots
      rw [← Option.some.inj h, hdots]
      rfl
    · rw [← Option.some.inj h]
      rfl

theorem eq_normal_of_asOsStr {c : Component} {name : Bytes} (h : c.asOsStr = name)
    (hname : IsName name) : c = .normal name := by
  subst h
  cases c with
  | rootDir => exact absurd List.mem_cons_self hname.noSlash
  | curDir => exact absurd rfl hname.notDot
  | parentDir => exact absurd rfl hname.notDotDot
  | normal name => rfl

/-- Only the first component may be something else than a segment. -/
theorem segment_of_mem_tail {p : Path} {c : Component} (h : c ∈ p.components.tail) :
    slash ∉ c.asOsStr ∧ parseSegment c.asOsStr = some c := by
  have hbody : c ∈ p.body.filterMap parseSegment := by
    rw [components] at h
    cases hstart : p.start with
    | none =>
      rw [hstart] at h
      exact List.mem_of_mem_tail h
    | some first =>
      rw [hstart] at h
      exact h
  obtain ⟨segment, hsegment, hparse⟩ := List.mem_filterMap.mp hbody
  rw [asOsStr_parseSegment hparse]
  exact ⟨slash_notMem_of_mem_body hsegment, hparse⟩

/-- A component that is a name, if it is not one of the others. -/
def IsComponent (c : Component) : Prop := ∀ name, c = .normal name → IsName name

theorem isComponent_of_mem {p : Path} {c : Component} (h : c ∈ p.components) : IsComponent c := by
  rintro name rfl
  rcases List.mem_append.mp h with hstart | hbody
  · rw [Option.mem_toList, start] at hstart
    split_ifs at hstart <;> cases hstart
  · obtain ⟨segment, hsegment, hparse⟩ := List.mem_filterMap.mp hbody
    have hname : name = segment := asOsStr_parseSegment hparse
    subst hname
    have hslash := slash_notMem_of_mem_body hsegment
    rw [parseSegment] at hparse
    split_ifs at hparse with hskip hdots
    · cases hparse
    · rw [Bool.not_eq_true, skipped, Bool.or_eq_false_iff] at hskip
      exact ⟨beq_eq_false_iff_ne.mp hskip.1, hslash, beq_eq_false_iff_ne.mp hskip.2, hdots⟩

theorem parseSegment_eq_none {segment : Bytes} :
    parseSegment segment = none ↔ skipped segment = true := by
  unfold parseSegment
  by_cases hskip : skipped segment = true
  · simp [hskip]
  · rw [if_neg hskip]
    split <;> simp [hskip]

/-- The components some segments spell behind the start of a path. -/
def parsed (segments : List Bytes) : List Component := segments.filterMap parseSegment

theorem parsed_append (xs ys : List Bytes) : parsed (xs ++ ys) = parsed xs ++ parsed ys :=
  List.filterMap_append

theorem parsed_cons_skipped {segment : Bytes} (h : skipped segment = true) (segments : List Bytes) :
    parsed (segment :: segments) = parsed segments :=
  List.filterMap_cons_none (parseSegment_eq_none.mpr h)

theorem parsed_of_skipped {segments : List Bytes} (h : ∀ s ∈ segments, skipped s = true) :
    parsed segments = [] := by
  rw [parsed, List.filterMap_eq_nil_iff]
  exact fun s hs => parseSegment_eq_none.mpr (h s hs)

theorem parsed_dropWhile (segments : List Bytes) :
    parsed (segments.dropWhile skipped) = parsed segments := by
  have hsplit := congrArg parsed (List.takeWhile_append_dropWhile (p := skipped) (l := segments))
  rw [parsed_append, parsed_of_skipped fun s hs => List.mem_takeWhile_imp hs] at hsplit
  exact hsplit

theorem parsed_rdropWhile (segments : List Bytes) :
    parsed (segments.rdropWhile skipped) = parsed segments := by
  have hsplit := congrArg parsed (List.rdropWhile_append_rtakeWhile (p := skipped) (l := segments))
  have hnone : parsed (segments.rtakeWhile skipped) = [] :=
    parsed_of_skipped fun s hs => List.mem_rtakeWhile_imp hs
  rwa [parsed_append, hnone, List.append_nil] at hsplit

theorem parsed_dropComponents (n : Nat) (segments : List Bytes) :
    parsed (dropComponents n segments) = (parsed segments).drop n := by
  induction segments generalizing n with
  | nil => cases n <;> rfl
  | cons segment segments ih =>
    cases n with
    | zero => rfl
    | succ n =>
      rw [dropComponents]
      split
      · rename_i hskip
        rw [ih, parsed_cons_skipped hskip]
      · rename_i hkeep
        obtain ⟨c, hc⟩ := Option.ne_none_iff_exists'.mp (mt parseSegment_eq_none.mp hkeep)
        rw [ih, parsed, parsed, List.filterMap_cons_some hc, List.drop_succ_cons]

/-- A path is at or above what is joined to it. -/
theorem startsWith_join {p r : Path} (h : r.isAbsolute = false) (hp : p.bytes ≠ []) :
    (p.join r).startsWith p = true := by
  obtain ⟨before, hjoin, hbody⟩ := body_join h hp
  have hparsed : parsed p.body = parsed before := by
    rcases hbody with heq | heq
    · rw [heq]
    · have hempty : parsed [[]] = [] := parsed_of_skipped (by decide)
      rw [heq, parsed_append, hempty, List.append_nil]
  rw [startsWith_iff, components, components, start_join h hp, hjoin, ← parsed, ← parsed, hparsed,
    parsed_append, List.prefix_append_right_inj]
  exact List.prefix_append _ _

theorem components_of_start_none {p : Path} (h : p.start = none) :
    p.components = parsed p.segments := by
  rw [components, body, h]
  rfl

theorem components_of_start_some {p : Path} {c : Component} (h : p.start = some c) :
    p.components = c :: parsed p.segments.tail := by
  rw [components, body, h]
  rfl

theorem segments_intercalate {segments : List Bytes} (hne : segments ≠ [])
    (hslash : ∀ s ∈ segments, slash ∉ s) :
    (⟨[slash].intercalate segments⟩ : Path).segments = segments :=
  List.splitOn_intercalate slash hslash hne

theorem start_of_head {p : Path} {segment : Bytes} (hhead : p.segments.head? = some segment)
    (hkeep : skipped segment = false) : p.start = none := by
  rw [skipped, Bool.or_eq_false_iff] at hkeep
  have hempty : segment ≠ [] := beq_eq_false_iff_ne.mp hkeep.1
  have hdot : segment ≠ [dot] := beq_eq_false_iff_ne.mp hkeep.2
  have habsolute : p.isAbsolute = false := by
    rw [Bool.eq_false_iff]
    intro h
    obtain ⟨bytes⟩ := p
    obtain ⟨rest, rfl⟩ := List.head?_eq_some_iff.mp (beq_iff_eq.mp h)
    rw [segments, List.splitOn_cons_eq_if_modifyHead, if_pos (beq_self_eq_true _)] at hhead
    exact hempty (Option.some.inj hhead).symm
  rw [start, habsolute, hhead, if_neg (by decide), if_neg (by simpa using hdot)]

/-- Segments of which the first is a component make a relative path of them. -/
theorem intercalate_relative (segments : List Bytes) (hslash : ∀ s ∈ segments, slash ∉ s)
    (hhead : ∀ s ∈ segments.head?, skipped s = false) :
    (⟨[slash].intercalate segments⟩ : Path).start = none ∧
      (⟨[slash].intercalate segments⟩ : Path).components = parsed segments := by
  cases segments with
  | nil => exact ⟨rfl, rfl⟩
  | cons segment rest =>
    have hsegments := segments_intercalate (List.cons_ne_nil segment rest) hslash
    have hstart := start_of_head (by rw [hsegments]; rfl) (hhead segment rfl)
    exact ⟨hstart, by rw [components_of_start_none hstart, hsegments]⟩

theorem slash_notMem_of_mem_dropped {p : Path} {n : Nat} {s : Bytes}
    (h : s ∈ ((dropComponents n p.body).dropWhile skipped).rdropWhile skipped) : slash ∉ s := by
  have hdrop := (List.rdropWhile_prefix skipped _).mem h
  exact slash_notMem_of_mem_body
    (mem_of_mem_dropComponents ((List.dropWhile_suffix skipped).mem hdrop))

theorem head_dropped {segments : List Bytes} {s : Bytes}
    (h : s ∈ ((segments.dropWhile skipped).rdropWhile skipped).head?) : skipped s = false := by
  obtain ⟨tail, htail⟩ := List.rdropWhile_prefix skipped (segments.dropWhile skipped)
  have hhead := List.head?_dropWhile_not skipped segments
  rw [← htail, List.head?_append, Option.mem_def.mp h] at hhead
  exact hhead

/-- Below a directory that is not the empty path a relative path is left. -/
theorem stripPrefix_relative {p base r : Path} (hbase : base.components ≠ [])
    (h : p.stripPrefix base = some r) :
    r.start = none ∧ p.components = base.components ++ r.components := by
  rw [stripPrefix] at h
  split at h
  · rename_i hstarts
    split at h
    · rename_i hlength
      exact absurd (List.eq_nil_of_length_eq_zero hlength) hbase
    · rename_i n hlength
      obtain ⟨hstart, hcomponents⟩ := intercalate_relative
        (((dropComponents (n + 1 - p.start.toList.length) p.body).dropWhile
          skipped).rdropWhile skipped) (fun s => slash_notMem_of_mem_dropped)
        (fun s => head_dropped)
      rw [← Option.some.inj h]
      refine ⟨hstart, ?_⟩
      rw [hcomponents, parsed_rdropWhile, parsed_dropWhile, parsed_dropComponents]
      -- the components of the base are the first ones of the path
      obtain ⟨rest, hrest⟩ := startsWith_iff.mp hstarts
      have hdrop : rest = p.components.drop (n + 1) := by
        rw [← hrest, List.drop_left' hlength]
      have hstartLength : p.start.toList.length ≤ n + 1 := by
        cases p.start <;> simp
      have hbody : p.components.drop (n + 1) =
          (parsed p.body).drop (n + 1 - p.start.toList.length) := by
        rw [components, List.drop_append, List.drop_of_length_le hstartLength, List.nil_append]
        rfl
      rw [← hrest, hdrop, hbody]
  · cases h

/-- A first segment, a slash and the others. -/
theorem segments_spelled {first : Bytes} (hfirst : slash ∉ first) {rest : List Bytes}
    (hrest : ∀ s ∈ rest, slash ∉ s) :
    ∃ tail, (⟨first ++ slash :: [slash].intercalate rest⟩ : Path).segments = first :: tail ∧
      parsed tail = parsed rest := by
  rw [segments, List.splitOn_append_cons_self_of_not_mem hfirst]
  cases rest with
  | nil => exact ⟨[[]], rfl, rfl⟩
  | cons segment rest =>
    exact ⟨_, rfl, by rw [List.splitOn_intercalate slash hrest (List.cons_ne_nil _ _)]⟩

theorem components_absolute {rest : List Bytes} (hrest : ∀ s ∈ rest, slash ∉ s) :
    (⟨slash :: [slash].intercalate rest⟩ : Path).components = .rootDir :: parsed rest := by
  obtain ⟨tail, hsegments, htail⟩ := segments_spelled List.not_mem_nil hrest
  rw [List.nil_append] at hsegments
  rw [components_of_start_some (c := .rootDir) rfl, hsegments, List.tail_cons, htail]

theorem components_current {rest : List Bytes} (hrest : ∀ s ∈ rest, slash ∉ s) :
    (⟨dot :: slash :: [slash].intercalate rest⟩ : Path).components = .curDir :: parsed rest := by
  obtain ⟨tail, hsegments, htail⟩ :=
    segments_spelled (show slash ∉ [dot] by decide) hrest
  rw [List.singleton_append] at hsegments
  have hrelative : (⟨dot :: slash :: [slash].intercalate rest⟩ : Path).isAbsolute = false := rfl
  have hstart : (⟨dot :: slash :: [slash].intercalate rest⟩ : Path).start = some .curDir := by
    rw [start, hrelative, hsegments, if_neg (by decide), List.head?_cons, if_pos rfl]
  rw [components_of_start_some hstart, hsegments, List.tail_cons, htail]

theorem isAbsolute_of_segments {p : Path} {next : Bytes} {rest : List Bytes}
    (h : p.segments = [] :: next :: rest) : p.isAbsolute = true := by
  obtain ⟨bytes⟩ := p
  cases bytes with
  | nil => cases h
  | cons c cs =>
    rw [segments, List.splitOn_cons_eq_if_modifyHead] at h
    split at h
    · rename_i hc
      rw [beq_iff_eq] at hc
      rw [hc]
      rfl
    · obtain ⟨y, ys, hy⟩ := List.exists_cons_of_ne_nil (List.splitOn_ne_nil slash cs)
      rw [hy, List.modifyHead_cons] at h
      cases h

/-- What is left of a path without a start, without its separators at the end,
begins with a component. -/
theorem head_trimmed {p : Path} (hstart : p.start = none) {s : Bytes}
    (h : s ∈ (p.segments.rdropWhile skipped).head?) : skipped s = false := by
  obtain ⟨rest, hrest⟩ := List.head?_eq_some_iff.mp h
  obtain ⟨tail, htail⟩ := List.rdropWhile_prefix skipped p.segments
  rw [hrest, List.cons_append] at htail
  rw [Bool.eq_false_iff]
  intro hskip
  rw [skipped, Bool.or_eq_true, beq_iff_eq, beq_iff_eq] at hskip
  have habsolute := isAbsolute_of_start_none hstart
  rcases hskip with rfl | rfl
  · cases hmore : rest ++ tail with
    | nil =>
      rw [hmore] at htail
      rw [← htail, List.rdropWhile_singleton, if_pos (by decide)] at hrest
      cases hrest
    | cons next more =>
      rw [hmore] at htail
      rw [isAbsolute_of_segments htail.symm] at habsolute
      cases habsolute
  · rw [start, habsolute, if_neg (by decide), ← htail, List.head?_cons, if_pos rfl] at hstart
    cases hstart

/-- Below the empty path the whole path is left, without the separators at its end. -/
theorem stripPrefix_nil {p base r : Path} (hbase : base.components = [])
    (h : p.stripPrefix base = some r) : r.components = p.components := by
  rw [stripPrefix, if_pos (startsWith_iff.mpr (by rw [hbase]; exact List.nil_prefix)), hbase] at h
  have hslash : ∀ s ∈ p.body.rdropWhile skipped, slash ∉ s := fun s hs =>
    slash_notMem_of_mem_body ((List.rdropWhile_prefix skipped p.body).mem hs)
  have hbody : parsed (p.body.rdropWhile skipped) = parsed p.body := parsed_rdropWhile p.body
  obtain rfl := Option.some.inj h
  cases hstart : p.start with
  | none =>
    have hsegments : p.body = p.segments := by rw [body, hstart]; rfl
    rw [startBytes, hstart]
    dsimp only
    rw [List.nil_append, (intercalate_relative _ hslash ?_).2, hbody, hsegments,
      components_of_start_none hstart]
    rw [hsegments]
    exact fun s => head_trimmed hstart
  | some c =>
    have hcomponents := components_of_start_some hstart
    have htail : p.body = p.segments.tail := by rw [body, hstart]; rfl
    rw [hcomponents, ← htail, ← hbody, startBytes, hstart]
    rw [start] at hstart
    split at hstart
    · obtain rfl := Option.some.inj hstart
      exact components_absolute hslash
    · split at hstart
      · obtain rfl := Option.some.inj hstart
        dsimp only
        split
        · rename_i hall
          rw [List.rdropWhile_eq_nil_iff.mpr (List.all_eq_true.mp hall)]
          rfl
        · exact components_current hslash
      · cases hstart

/-- What is left of a path follows the components of the base. -/
theorem components_stripPrefix {p base r : Path} (h : p.stripPrefix base = some r) :
    p.components = base.components ++ r.components := by
  by_cases hbase : base.components = []
  · rw [hbase, stripPrefix_nil hbase h, List.nil_append]
  · exact (stripPrefix_relative hbase h).2

/-- The path without its last component and the separators in front of that. -/
def parent (p : Path) : Option Path :=
  match p.components.getLast? with
  | none | some .rootDir => none
  | some _ =>
    let kept := ((p.body.rdropWhile skipped).dropLast).rdropWhile skipped
    match p.start with
    | some .rootDir => some ⟨slash :: [slash].intercalate kept⟩
    | some _ =>
      if p.body.all skipped then some ⟨[]⟩
      else if kept = [] then some ⟨[dot]⟩
      else some ⟨dot :: slash :: [slash].intercalate kept⟩
    | none => some ⟨[slash].intercalate kept⟩

end Path
end OsPath
