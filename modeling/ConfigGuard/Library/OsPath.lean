import Mathlib.Data.List.Basic
import Mathlib.Data.List.DropRight

/-!
# Unix paths as byte strings

Paths are arbitrary bytes; every comparison is made on the components the
bytes spell: repeated slashes, inner `.` segments and a trailing slash do not
count, a leading slash, a leading `.` and every `..` do.
-/

namespace OsPath

abbrev Bytes := List UInt8

/-- The UTF-8 bytes of a string. -/
def utf8 (s : String) : Bytes := s.toUTF8.data.toList

/-- A byte string as text, `none` unless it is valid UTF-8. -/
def toStr (b : Bytes) : Option String := String.fromUTF8? ⟨b.toArray⟩

def isContinuation (b : UInt8) : Bool := 0x80 ≤ b && b ≤ 0xBF

/-- The second bytes a first byte of three or four may be followed by. -/
def isSecond (a b : UInt8) : Bool :=
  if a = 0xE0 then 0xA0 ≤ b && b ≤ 0xBF
  else if a = 0xED then 0x80 ≤ b && b ≤ 0x9F
  else if a = 0xF0 then 0x90 ≤ b && b ≤ 0xBF
  else if a = 0xF4 then 0x80 ≤ b && b ≤ 0x8F
  else isContinuation b

/-- The character that is written for bytes that are not UTF-8. -/
def replacement : Char := Char.ofNat 0xFFFD

/-- The last six bits of a byte behind the bits of the bytes before it. -/
def behind (bits : Nat) (b : UInt8) : Nat := bits * 64 + b.toNat % 64

/-- A byte string as text, with every longest beginning of a character that
does not go on replaced. -/
def lossy : Bytes → List Char
  | [] => []
  | a :: rest =>
    if a < 0x80 then Char.ofNat a.toNat :: lossy rest
    else if 0xC2 ≤ a && a ≤ 0xDF then
      match rest with
      | [] => [replacement]
      | b :: rest =>
        if isContinuation b then Char.ofNat (behind (a.toNat % 32) b) :: lossy rest
        else replacement :: lossy (b :: rest)
    else if 0xE0 ≤ a && a ≤ 0xF4 then
      match rest with
      | [] => [replacement]
      | b :: rest =>
        if !isSecond a b then replacement :: lossy (b :: rest)
        else
          match rest with
          | [] => [replacement]
          | c :: rest =>
            if !isContinuation c then replacement :: lossy (c :: rest)
            else if a ≤ 0xEF then Char.ofNat (behind (behind (a.toNat % 16) b) c) :: lossy rest
            else
              match rest with
              | [] => [replacement]
              | d :: rest =>
                if isContinuation d then
                  Char.ofNat (behind (behind (behind (a.toNat % 8) b) c) d) :: lossy rest
                else replacement :: lossy (d :: rest)
    else replacement :: lossy rest

/-- Split at the first occurrence of a byte, which is dropped. -/
def splitOnce (c : UInt8) : Bytes → Option (Bytes × Bytes)
  | [] => none
  | b :: bs => if b = c then some ([], bs) else (splitOnce c bs).map fun p => (b :: p.1, p.2)

theorem splitOnce_spec {c : UInt8} {b l r : Bytes} (h : splitOnce c b = some (l, r)) :
    b = l ++ c :: r ∧ c ∉ l := by
  induction b generalizing l with
  | nil => cases h
  | cons x xs ih =>
    rw [splitOnce] at h
    split at h
    · rename_i hx
      obtain ⟨rfl, rfl⟩ := Prod.mk.inj (Option.some.inj h)
      exact ⟨by rw [hx]; rfl, List.not_mem_nil⟩
    · rename_i hx
      obtain ⟨⟨l', r'⟩, hp, he⟩ := Option.map_eq_some_iff.mp h
      obtain ⟨rfl, rfl⟩ := Prod.mk.inj he
      obtain ⟨hb, hc⟩ := ih hp
      refine ⟨by rw [hb]; rfl, ?_⟩
      rw [List.mem_cons, not_or]
      exact ⟨fun hcx => hx hcx.symm, hc⟩

/-- One step of a path. -/
inductive Component where
  | rootDir
  | curDir
  | parentDir
  | normal (name : Bytes)
  deriving DecidableEq, Repr

structure Path where
  bytes : Bytes
  deriving DecidableEq, Repr

namespace Path

def slash : UInt8 := 47

def dot : UInt8 := 46

def ofString (s : String) : Path := ⟨utf8 s⟩

/-- The path as it is shown, and written into text. -/
def display (p : Path) : String := (toStr p.bytes).getD (String.ofList (lossy p.bytes))

/-- The bytes between the slashes. -/
def segments (p : Path) : List Bytes := p.bytes.splitOn slash

def isAbsolute (p : Path) : Bool := p.bytes.head? == some slash

/-- An empty segment or a `.` is no component. -/
def skipped (segment : Bytes) : Bool := segment == [] || segment == [dot]

def parseSegment (segment : Bytes) : Option Component :=
  if skipped segment then none
  else if segment = [dot, dot] then some .parentDir else some (.normal segment)

/-- The component a leading slash or a leading `.` stands for. -/
def start (p : Path) : Option Component :=
  if p.isAbsolute then some .rootDir
  else if p.segments.head? = some [dot] then some .curDir else none

/-- The segments after the start of the path. -/
def body (p : Path) : List Bytes := if p.start.isSome then p.segments.tail else p.segments

def components (p : Path) : List Component := p.start.toList ++ p.body.filterMap parseSegment

/-- Equality of paths: the same components. -/
def same (p q : Path) : Bool := p.components == q.components

def startsWith (p base : Path) : Bool := base.components.isPrefixOf p.components

/-- The last component, when it is a name. -/
def fileName (p : Path) : Option Bytes :=
  match p.components.getLast? with
  | some (.normal name) => some name
  | _ => none

/-- Drop segments until `n` components have gone. -/
def dropComponents : Nat → List Bytes → List Bytes
  | 0, segments => segments
  | _ + 1, [] => []
  | n + 1, segment :: segments =>
    if skipped segment then dropComponents (n + 1) segments else dropComponents n segments

/-- How the start of the path is spelled in front of its trimmed body. -/
def startBytes (p : Path) : Bytes :=
  match p.start with
  | some .rootDir => [slash]
  | some _ => if p.body.all skipped then [dot] else [dot, slash]
  | none => []

/-- What is left of `p` after `base`: the remaining bytes without the
separators at either end. -/
def stripPrefix (p base : Path) : Option Path :=
  if p.startsWith base then
    match base.components.length with
    | 0 => some ⟨p.startBytes ++ [slash].intercalate (p.body.rdropWhile skipped)⟩
    | n + 1 => some ⟨[slash].intercalate
        (((dropComponents (n + 1 - p.start.toList.length) p.body).dropWhile skipped).rdropWhile
          skipped)⟩
  else none

/-- Append a path, with a separator where one is missing; an absolute path
replaces the base. -/
def join (p q : Path) : Path :=
  if q.isAbsolute then q
  else if p.bytes.getLast?.any (· != slash) then ⟨p.bytes ++ slash :: q.bytes⟩
  else ⟨p.bytes ++ q.bytes⟩

theorem startsWith_iff {p base : Path} :
    p.startsWith base = true ↔ base.components <+: p.components := List.isPrefixOf_iff_prefix

theorem startsWith_refl (p : Path) : p.startsWith p = true := startsWith_iff.mpr List.prefix_rfl

theorem stripPrefix_isSome {p base : Path} : (p.stripPrefix base).isSome = p.startsWith base := by
  unfold stripPrefix
  split
  · rename_i h
    rw [h]
    split <;> rfl
  · rename_i h
    rw [Bool.not_eq_true] at h
    rw [h]
    rfl

theorem stripPrefix_eq_none {p base : Path} :
    p.stripPrefix base = none ↔ p.startsWith base = false := by
  rw [← stripPrefix_isSome, Option.isSome_eq_false_iff, Option.isNone_iff_eq_none]

/-- The text of one directory entry. -/
structure IsName (name : Bytes) : Prop where
  nonempty : name ≠ []
  noSlash : slash ∉ name
  notDot : name ≠ [dot]
  notDotDot : name ≠ [dot, dot]

theorem notMem_of_mem_splitOn {c : UInt8} {b segment : Bytes} (h : segment ∈ b.splitOn c) :
    c ∉ segment := by
  induction b generalizing segment with
  | nil =>
    rw [List.splitOn_nil, List.mem_singleton] at h
    rw [h]
    exact List.not_mem_nil
  | cons x xs ih =>
    rw [List.splitOn_cons_eq_if_modifyHead] at h
    split at h
    · rw [List.mem_cons] at h
      obtain rfl | h := h
      · exact List.not_mem_nil
      · exact ih h
    · rename_i hx
      obtain ⟨y, ys, hy⟩ := List.exists_cons_of_ne_nil (List.splitOn_ne_nil c xs)
      rw [hy, List.modifyHead_cons, List.mem_cons] at h
      obtain rfl | h := h
      · have hnot := ih (hy ▸ List.mem_cons_self)
        rw [List.mem_cons, not_or]
        exact ⟨fun hc => hx (beq_iff_eq.mpr hc.symm), hnot⟩
      · exact ih (hy ▸ List.mem_cons_of_mem _ h)

theorem slash_notMem_of_mem_body {p : Path} {segment : Bytes} (h : segment ∈ p.body) :
    slash ∉ segment := by
  apply notMem_of_mem_splitOn (b := p.bytes)
  rw [body] at h
  split at h
  · exact List.mem_of_mem_tail h
  · exact h

theorem parseSegment_name {name : Bytes} (h : IsName name) :
    parseSegment name = some (.normal name) := by
  have hskip : skipped name = false := by
    rw [skipped, Bool.or_eq_false_iff]
    exact ⟨beq_eq_false_iff_ne.mpr h.nonempty, beq_eq_false_iff_ne.mpr h.notDot⟩
  rw [parseSegment, hskip, if_neg (by decide), if_neg h.notDotDot]

theorem not_isAbsolute_of_noSlash {name : Bytes} (h : slash ∉ name) :
    (⟨name⟩ : Path).isAbsolute = false := by
  cases name with
  | nil => rfl
  | cons c cs =>
    rw [isAbsolute, List.head?_cons, beq_eq_false_iff_ne]
    intro heq
    exact h (Option.some.inj heq ▸ List.mem_cons_self)

/-- The segments before those a relative path adds. -/
theorem segments_join {p r : Path} (h : r.isAbsolute = false) (hp : p.bytes ≠ []) :
    ∃ before, (p.join r).segments = before ++ r.segments ∧
      (p.segments = before ∨ p.segments = before ++ [[]]) ∧ before ≠ [] := by
  obtain ⟨init, c, hc⟩ := List.eq_nil_or_concat p.bytes |>.resolve_left hp
  rw [List.concat_eq_append] at hc
  rw [join, h, if_neg (by decide), hc, List.getLast?_concat, Option.any_some]
  by_cases hslash : c = slash
  · subst hslash
    refine ⟨init.splitOn slash, ?_, .inr ?_, List.splitOn_ne_nil _ _⟩
    · rw [bne_self_eq_false, if_neg (by decide), segments, List.append_assoc,
        List.singleton_append, List.splitOn_append_cons_self, segments]
    · rw [segments, hc, List.splitOn_append_cons_self, List.splitOn_nil]
  · refine ⟨p.segments, ?_, .inl rfl, List.splitOn_ne_nil _ _⟩
    rw [if_pos (bne_iff_ne.mpr hslash), segments, segments, hc, List.splitOn_append_cons_self,
      segments]

theorem isAbsolute_join {p r : Path} (h : r.isAbsolute = false) (hp : p.bytes ≠ []) :
    (p.join r).isAbsolute = p.isAbsolute := by
  obtain ⟨c, cs, hc⟩ := List.exists_cons_of_ne_nil hp
  rw [join, h, if_neg (by decide)]
  split <;> simp [isAbsolute, hc]

theorem start_join {p r : Path} (h : r.isAbsolute = false) (hp : p.bytes ≠ []) :
    (p.join r).start = p.start := by
  obtain ⟨before, hjoin, hsegments, hne⟩ := segments_join h hp
  obtain ⟨first, rest, rfl⟩ := List.exists_cons_of_ne_nil hne
  have hhead : (p.join r).segments.head? = p.segments.head? := by
    rw [hjoin]
    obtain heq | heq := hsegments <;> rw [heq] <;> rfl
  rw [start, start, isAbsolute_join h hp, hhead]

theorem body_join {p r : Path} (h : r.isAbsolute = false) (hp : p.bytes ≠ []) :
    ∃ before, (p.join r).body = before ++ r.segments ∧
      (p.body = before ∨ p.body = before ++ [[]]) := by
  obtain ⟨before, hjoin, hsegments, hne⟩ := segments_join h hp
  rw [body, body, start_join h hp, hjoin]
  split
  · obtain ⟨first, rest, rfl⟩ := List.exists_cons_of_ne_nil hne
    refine ⟨rest, rfl, ?_⟩
    obtain heq | heq := hsegments
    · exact .inl (by rw [heq]; rfl)
    · exact .inr (by rw [heq]; rfl)
  · exact ⟨before, rfl, hsegments⟩

theorem isAbsolute_of_start_none {p : Path} (h : p.start = none) : p.isAbsolute = false := by
  rw [Bool.eq_false_iff]
  intro habsolute
  rw [start, if_pos habsolute] at h
  cases h

/-- A path that begins with a component is appended. -/
theorem components_join_relative {p r : Path} (h : r.start = none) :
    (p.join r).components = p.components ++ r.components := by
  have hrelative := isAbsolute_of_start_none h
  have hr : r.components = r.segments.filterMap parseSegment := by
    rw [components, body, h]
    rfl
  by_cases hp : p.bytes = []
  · obtain ⟨bytes⟩ := p
    subst hp
    rw [join, hrelative, if_neg (by decide)]
    rfl
  · obtain ⟨before, hjoin, hbody⟩ := body_join hrelative hp
    have hempty : ([[]] : List Bytes).filterMap parseSegment = [] := rfl
    rw [hr, components, components, start_join hrelative hp, hjoin, List.filterMap_append]
    obtain heq | heq := hbody
    · rw [heq, List.append_assoc]
    · rw [heq, List.filterMap_append, hempty, List.append_nil, List.append_assoc]

theorem segments_of_noSlash {name : Bytes} (h : slash ∉ name) :
    (⟨name⟩ : Path).segments = [name] := List.splitOn_eq_singleton h

/-- A segment that is no `.` joined to a path is one more component. -/
theorem components_join_segment {p : Path} {name : Bytes} {c : Component} (hslash : slash ∉ name)
    (hparse : parseSegment name = some c) : (p.join ⟨name⟩).components = p.components ++ [c] := by
  have hdot : name ≠ [dot] := by
    rintro rfl
    cases hparse
  have hstart : (⟨name⟩ : Path).start = none := by
    rw [start, not_isAbsolute_of_noSlash hslash, if_neg (by decide), segments_of_noSlash hslash,
      List.head?_cons, if_neg (by simpa using hdot)]
  have hname : (⟨name⟩ : Path).components = [c] := by
    rw [components, body, hstart, segments_of_noSlash hslash]
    simp only [Option.toList_none, Option.isSome_none, Bool.false_eq_true, if_false,
      List.filterMap_cons, hparse, List.filterMap_nil, List.nil_append]
  rw [components_join_relative hstart, hname]

/-- A name joined to a path is one more component. -/
theorem components_join {p : Path} {name : Bytes} (h : IsName name) :
    (p.join ⟨name⟩).components = p.components ++ [.normal name] :=
  components_join_segment h.noSlash (parseSegment_name h)

/-- Whatever is between two slashes adds one component at most. -/
theorem components_join_noSlash (p : Path) {name : Bytes} (h : slash ∉ name) :
    ∃ rest, (p.join ⟨name⟩).components = p.components ++ rest ∧ rest.length ≤ 1 := by
  have hrelative := not_isAbsolute_of_noSlash h
  by_cases hp : p.bytes = []
  · obtain ⟨bytes⟩ := p
    subst hp
    rw [join, hrelative, if_neg (by decide)]
    refine ⟨(⟨name⟩ : Path).components, rfl, ?_⟩
    rw [components, body, segments_of_noSlash h]
    cases (⟨name⟩ : Path).start with
    | none => exact List.length_filterMap_le parseSegment [name]
    | some c => exact Nat.le_refl 1
  · obtain ⟨before, hjoin, hbody⟩ := body_join hrelative hp
    rw [segments_of_noSlash h] at hjoin
    refine ⟨[name].filterMap parseSegment, ?_, List.length_filterMap_le parseSegment [name]⟩
    have hempty : ([[]] : List Bytes).filterMap parseSegment = [] := rfl
    rw [components, components, start_join hrelative hp, hjoin, List.filterMap_append]
    obtain heq | heq := hbody
    · rw [heq, List.append_assoc]
    · rw [heq, List.filterMap_append, hempty, List.append_nil, List.append_assoc]

theorem fileName_join {dir : Path} {name : Bytes} (h : IsName name) :
    (dir.join ⟨name⟩).fileName = some name := by
  rw [fileName, components_join h, List.getLast?_concat]

/-- A directory puts the same bytes before every name. -/
theorem join_name (dir : Path) :
    ∃ base, ∀ name : Bytes, slash ∉ name → dir.join ⟨name⟩ = ⟨base ++ name⟩ := by
  by_cases hlast : dir.bytes.getLast?.any (· != slash) = true
  · refine ⟨dir.bytes ++ [slash], fun name h => ?_⟩
    rw [join, not_isAbsolute_of_noSlash h, if_neg (by decide), if_pos hlast, List.append_assoc]
    rfl
  · refine ⟨dir.bytes, fun name h => ?_⟩
    rw [join, not_isAbsolute_of_noSlash h, if_neg (by decide), if_neg hlast]

theorem join_below_name {base name : Bytes} (h : IsName name) {relative : Path}
    (hrelative : relative.isAbsolute = false) :
    (⟨base ++ name⟩ : Path).join relative = ⟨base ++ (name ++ slash :: relative.bytes)⟩ := by
  obtain ⟨init, c, rfl⟩ := List.eq_nil_or_concat' name |>.resolve_left h.nonempty
  have hc : c ≠ slash := by
    rintro rfl
    exact h.noSlash (List.mem_append_right _ (List.mem_singleton.mpr rfl))
  have hlast : (base ++ (init ++ [c])).getLast? = some c := by
    rw [← List.append_assoc, List.getLast?_concat]
  rw [join, hrelative, if_neg (by decide), hlast, Option.any_some, if_pos (bne_iff_ne.mpr hc),
    List.append_assoc]

/-- The paths below two names of one directory are apart. -/
theorem name_eq_of_join_eq {dir r r' : Path} {x y : Bytes} (hx : IsName x) (hy : IsName y)
    (hr : r.isAbsolute = false) (hr' : r'.isAbsolute = false)
    (h : (dir.join ⟨x⟩).join r = (dir.join ⟨y⟩).join r') : x = y := by
  obtain ⟨base, hbase⟩ := join_name dir
  rw [hbase x hx.noSlash, hbase y hy.noSlash, join_below_name hx hr, join_below_name hy hr',
    Path.mk.injEq] at h
  have hsplit := congrArg (List.splitOn slash) (List.append_cancel_left h)
  rw [List.splitOn_append_cons_self_of_not_mem hx.noSlash,
    List.splitOn_append_cons_self_of_not_mem hy.noSlash] at hsplit
  exact (List.cons.inj hsplit).1

theorem mem_of_mem_dropComponents {n : Nat} {segments : List Bytes} {segment : Bytes}
    (h : segment ∈ dropComponents n segments) : segment ∈ segments := by
  induction segments generalizing n with
  | nil => cases n <;> exact h
  | cons first rest ih =>
    cases n with
    | zero => exact h
    | succ n =>
      rw [dropComponents] at h
      split at h
      · exact List.mem_cons_of_mem _ (ih h)
      · exact List.mem_cons_of_mem _ (ih h)

theorem not_isAbsolute_intercalate {segment : Bytes} (rest : List Bytes)
    (hempty : segment ≠ []) (hslash : slash ∉ segment) :
    (⟨[slash].intercalate (segment :: rest)⟩ : Path).isAbsolute = false := by
  obtain ⟨c, cs, rfl⟩ := List.exists_cons_of_ne_nil hempty
  have hc : c ≠ slash := fun heq => hslash (heq ▸ List.mem_cons_self)
  have hhead : ([slash].intercalate ((c :: cs) :: rest)).head? = some c := by
    cases rest with
    | nil => rfl
    | cons next rest => rw [List.intercalate_cons_cons]; rfl
  rw [isAbsolute, hhead]
  exact beq_eq_false_iff_ne.mpr fun heq => hc (Option.some.inj heq)

/-- What is left below an absolute directory is relative. -/
theorem not_isAbsolute_stripPrefix {p base relative : Path} (hbase : base.isAbsolute = true)
    (h : p.stripPrefix base = some relative) : relative.isAbsolute = false := by
  rw [stripPrefix] at h
  split at h
  · have hlength : base.components.length =
        (base.body.filterMap parseSegment).length + 1 := by
      simp [components, start, hbase, Nat.add_comm]
    rw [hlength] at h
    simp only [Option.some.injEq] at h
    subst h
    generalize hdropped : dropComponents _ p.body = dropped
    cases hleft : (dropped.dropWhile skipped).rdropWhile skipped with
    | nil => rfl
    | cons segment rest =>
      obtain ⟨tail, htail⟩ : segment :: rest <+: dropped.dropWhile skipped :=
        hleft ▸ List.rdropWhile_prefix skipped _
      have hkept : skipped segment = false := by
        have hhead := List.head?_dropWhile_not skipped dropped
        rw [← htail] at hhead
        exact hhead
      have hmem : segment ∈ dropped :=
        (List.dropWhile_suffix skipped).mem (htail ▸ List.mem_cons_self)
      apply not_isAbsolute_intercalate
      · rintro rfl
        cases hkept
      · exact slash_notMem_of_mem_body (mem_of_mem_dropComponents (hdropped ▸ hmem))
  · cases h

end Path

end OsPath
