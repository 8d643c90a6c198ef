import ConfigGuard.Library.Toml

/-!
# A reader of plain TOML lines

Documents of empty lines, headers of arrays of tables, basic strings and empty
arrays. Everything else is refused.
-/

namespace Toml

/-- What was read, and where keys go to. -/
structure LineState where
  root : Table
  current : Option (String × Nat)

namespace LineState

def start : LineState := ⟨emptyTable, none⟩

def openTable (s : LineState) (key : String) : Option LineState :=
  match s.root.get key with
  | none | some (.tables _) =>
    some ⟨s.root.set key (.tables (elements s.root key ++ [emptyTable])),
      some (key, (elements s.root key).length)⟩
  | some _ => none

def define (s : LineState) (key : String) (value : Value) : Option LineState :=
  match s.current with
  | none =>
    match s.root.get key with
    | none => some { s with root := s.root.set key value }
    | some _ => none
  | some (array, i) =>
    match (elements s.root array)[i]? with
    | none => none
    | some table =>
      match table.get key with
      | none =>
        some { s with
          root := s.root.set array
            (.tables ((elements s.root array).set i (table.set key value))) }
      | some _ => none

def isBareChar (c : Char) : Bool := c.isAlphanum || c == '_' || c == '-'

def readHeader (s : LineState) (line : List Char) : Option LineState :=
  if line.dropWhile isBareChar = [']', ']'] then
    s.openTable (String.ofList (line.takeWhile isBareChar))
  else none

def readKey (s : LineState) (line : List Char) : Option LineState :=
  match line.dropWhile isBareChar with
  | ' ' :: '=' :: ' ' :: '"' :: text =>
    match basicString text with
    | some (value, []) =>
      s.define (String.ofList (line.takeWhile isBareChar)) (.string (String.ofList value))
    | _ => none
  | [' ', '=', ' ', '[', ']'] => s.define (String.ofList (line.takeWhile isBareChar)) (.array [])
  | _ => none

def readLine (s : LineState) (line : List Char) : Option LineState :=
  match line with
  | [] => some s
  | '[' :: '[' :: line => s.readHeader line
  | line => s.readKey line

def read (s : LineState) (text : List Char) : Option LineState :=
  (text.splitOn '\n').foldlM readLine s

end LineState

def lineReader : Reader where
  State := LineState
  start := .start
  root := LineState.root
  current := LineState.current
  read := LineState.read
  openTable := LineState.openTable
  define := LineState.define

namespace LineState

theorem read_nil (s : LineState) : s.read [] = some s := rfl

theorem read_lineBreak {s s' : LineState} {text : List Char} (h : s.read text = some s')
    (more : List Char) : s.read (text ++ '\n' :: more) = s'.read more := by
  rw [read] at h
  rw [read, List.splitOn_append_cons_self, List.foldlM_append, h]
  rfl

theorem read_line {line : List Char} (h : '\n' ∉ line) (s : LineState) :
    s.read line = s.readLine line := by
  rw [read, List.splitOn_eq_singleton h, List.foldlM_cons]
  cases s.readLine line <;> rfl

theorem read_cons {line : List Char} (h : '\n' ∉ line) (s : LineState) (more : List Char) :
    s.read (line ++ '\n' :: more) = (s.readLine line).bind fun s' => s'.read more := by
  rw [read, List.splitOn_append_cons_self, List.splitOn_eq_singleton h, List.singleton_append,
    List.foldlM_cons]
  rfl

/-- What begins without a line break is read with the rest of its line. -/
theorem read_first {opened : List Char} (hopened : '\n' ∉ opened) {s s' : LineState}
    {text : List Char} (h : s.read (opened ++ text) = some s') :
    ∃ line rest s₁ more, text = line ++ rest ∧ (∀ c tail, rest = c :: tail → c = '\n') ∧
      s.readLine (opened ++ line) = some s₁ ∧ s₁.read more = some s' := by
  have hwhole : ∀ {line : List Char}, '\n' ∉ line → '\n' ∉ opened ++ line := by
    intro line hline hmem
    exact (List.mem_append.mp hmem).elim hopened hline
  by_cases hbreak : '\n' ∈ text
  · obtain ⟨line, more, rfl, hline⟩ := List.eq_append_cons_of_mem hbreak
    rw [← List.append_assoc, read_cons (hwhole hline)] at h
    obtain ⟨s₁, hfirst, hmore⟩ := Option.bind_eq_some_iff.mp h
    exact ⟨line, _, s₁, more, rfl, fun _ _ h => (List.cons.inj h).1.symm, hfirst, hmore⟩
  · rw [read_line (hwhole hbreak)] at h
    exact ⟨text, [], s', [], (List.append_nil _).symm, fun _ _ h => (nomatch h), h, rfl⟩

theorem isBareChar_of_mem {key : String} (hkey : IsBare key) {c : Char} (hc : c ∈ key.toList) :
    isBareChar c = true := by
  rw [isBareChar, Bool.or_eq_true, Bool.or_eq_true, beq_iff_eq, beq_iff_eq, or_assoc]
  exact hkey.chars c hc

theorem newline_notMem {key : String} (hkey : IsBare key) : '\n' ∉ key.toList := by
  intro hmem
  exact absurd (isBareChar_of_mem hkey hmem) (by decide)

theorem takeWhile_key {key : String} (hkey : IsBare key) {c : Char} (hc : isBareChar c = false)
    (rest : List Char) : (key.toList ++ c :: rest).takeWhile isBareChar = key.toList := by
  rw [List.takeWhile_append_of_pos fun d hd => isBareChar_of_mem hkey hd,
    List.takeWhile_cons_of_neg (by rw [hc]; decide), List.append_nil]

theorem dropWhile_key {key : String} (hkey : IsBare key) {c : Char} (hc : isBareChar c = false)
    (rest : List Char) : (key.toList ++ c :: rest).dropWhile isBareChar = c :: rest := by
  rw [List.dropWhile_append_of_pos fun d hd => isBareChar_of_mem hkey hd,
    List.dropWhile_cons_of_neg (by rw [hc]; decide)]

theorem readLine_header {key : String} (hkey : IsBare key) (s : LineState) :
    s.readLine ('[' :: '[' :: (key.toList ++ [']', ']'])) = s.openTable key := by
  rw [readLine, readHeader, dropWhile_key hkey (by decide), if_pos rfl,
    takeWhile_key hkey (by decide), String.ofList_toList]

theorem readLine_key {key : String} (hkey : IsBare key) (s : LineState) (rest : List Char) :
    s.readLine (key.toList ++ rest) = s.readKey (key.toList ++ rest) := by
  obtain ⟨c, cs, hcs⟩ := List.exists_cons_of_ne_nil hkey.nonempty
  have hc : c ≠ '[' := by
    rintro rfl
    exact absurd (isBareChar_of_mem hkey (hcs ▸ List.mem_cons_self)) (by decide)
  rw [hcs, List.cons_append]
  unfold readLine
  split
  · rename_i heq
    cases heq
  · rename_i heq
    exact absurd (List.cons.inj heq).1 hc
  · rfl

theorem readLine_opening {key : String} (hkey : IsBare key) (s : LineState) (text : List Char) :
    s.readLine (openingText key ++ text) =
      match basicString text with
      | some (value, []) => s.define key (.string (String.ofList value))
      | _ => none := by
  have hline : openingText key ++ text = key.toList ++ ' ' :: '=' :: ' ' :: '"' :: text := by
    rw [openingText, List.append_assoc]
    rfl
  rw [hline, readLine_key hkey, readKey, dropWhile_key hkey (by decide),
    takeWhile_key hkey (by decide), String.ofList_toList]
  rfl

theorem readLine_emptyArray {key : String} (hkey : IsBare key) (s : LineState) :
    s.readLine (key.toList ++ [' ', '=', ' ', '[', ']']) = s.define key (.array []) := by
  rw [readLine_key hkey, readKey, dropWhile_key hkey (by decide), takeWhile_key hkey (by decide),
    String.ofList_toList]
  rfl

/-- The string stands at this place of the document. -/
def HasString (s : LineState) (array : String) (i : Nat) (key text : String) : Prop :=
  ∃ table : Table, (elements s.root array)[i]? = some table ∧ table.get key = some (.string text)

theorem elements_set_ne (root : Table) {array key : String} (h : array ≠ key) (value : Value) :
    elements (root.set key value) array = elements root array := by
  rw [elements, elements, Table.get_set_ne _ h]

theorem elements_set_self (root : Table) (array : String) (items : List Table) :
    elements (root.set array (.tables items)) array = items := by
  rw [elements, Table.get_set_self]

theorem openTable_some {s s' : LineState} {key : String} (h : s.openTable key = some s') :
    s'.root = s.root.set key (.tables (elements s.root key ++ [emptyTable])) ∧
      s'.current = some (key, (elements s.root key).length) := by
  unfold openTable at h
  split at h
  · rw [← Option.some.inj h]
    exact ⟨rfl, rfl⟩
  · rw [← Option.some.inj h]
    exact ⟨rfl, rfl⟩
  · cases h

theorem openTable_keeps {s s' : LineState} {key array name text : String} {i : Nat}
    (h : s.openTable key = some s') (hs : s.HasString array i name text) :
    s'.HasString array i name text := by
  obtain ⟨table, htable, hstring⟩ := hs
  refine ⟨table, ?_, hstring⟩
  rw [(openTable_some h).1]
  by_cases hkey : array = key
  · rw [← hkey, elements_set_self]
    exact List.getElem?_append_left (List.getElem?_eq_some_iff.mp htable).1 ▸ htable
  · rwa [elements_set_ne _ hkey]

/-- A key that is new in its table replaces no string. -/
theorem exists_string_set {tables : List Table} {i j : Nat} {table table' : Table}
    {name key text : String} (htable : tables[i]? = some table)
    (hstring : table.get name = some (.string text)) (htable' : tables[j]? = some table')
    (hnew : table'.get key = none) (value : Value) :
    ∃ kept : Table, (tables.set j (table'.set key value))[i]? = some kept ∧
      kept.get name = some (.string text) := by
  by_cases hi : i = j
  · subst hi
    obtain rfl := Option.some.inj (htable.symm.trans htable')
    have hne : name ≠ key := by
      rintro rfl
      rw [hnew] at hstring
      cases hstring
    refine ⟨table.set key value, ?_, ?_⟩
    · rw [List.getElem?_set_self (List.getElem?_eq_some_iff.mp htable).1]
    · rw [Table.get_set_ne _ hne, hstring]
  · exact ⟨table, by rw [List.getElem?_set_ne (Ne.symm hi), htable], hstring⟩

theorem define_keeps {s s' : LineState} {key array name text : String} {value : Value} {i : Nat}
    (h : s.define key value = some s') (hs : s.HasString array i name text) :
    s'.HasString array i name text := by
  obtain ⟨table, htable, hstring⟩ := hs
  rw [define] at h
  split at h
  · split at h
    · rename_i hnew
      have hkey : array ≠ key := by
        rintro rfl
        rw [elements, hnew] at htable
        cases htable
      rw [← Option.some.inj h]
      refine ⟨table, ?_, hstring⟩
      dsimp only
      rwa [elements_set_ne _ hkey]
    · cases h
  · rename_i array' j hcurrent
    split at h
    · cases h
    · rename_i table' htable'
      split at h
      · rename_i hnew
        rw [← Option.some.inj h, HasString]
        dsimp only
        by_cases harray : array = array'
        · subst harray
          rw [elements_set_self]
          exact exists_string_set htable hstring htable' hnew value
        · exact ⟨table, by rw [elements_set_ne _ harray, htable], hstring⟩
      · cases h

theorem readLine_keeps {s s' : LineState} {line : List Char} {array name text : String} {i : Nat}
    (h : s.readLine line = some s') (hs : s.HasString array i name text) :
    s'.HasString array i name text := by
  unfold readLine at h
  split at h
  · rwa [← Option.some.inj h]
  · unfold readHeader at h
    split at h
    · exact openTable_keeps h hs
    · cases h
  · unfold readKey at h
    split at h
    · split at h
      · exact define_keeps h hs
      · cases h
    · exact define_keeps h hs
    · cases h

theorem read_keeps {s s' : LineState} {text : List Char} {array name string : String} {i : Nat}
    (h : s.read text = some s') (hs : s.HasString array i name string) :
    s'.HasString array i name string := by
  unfold read at h
  generalize text.splitOn '\n' = lines at h
  induction lines generalizing s with
  | nil => rwa [← Option.some.inj h]
  | cons line lines ih =>
    rw [List.foldlM_cons] at h
    obtain ⟨s₁, hfirst, hrest⟩ := Option.bind_eq_some_iff.mp h
    exact ih (readLine_keeps hfirst hs) hrest

theorem openingText_notMem {key : String} (hkey : IsBare key) : '\n' ∉ openingText key := by
  rw [openingText, List.mem_append, not_or]
  exact ⟨newline_notMem hkey, by decide⟩

theorem read_header {key : String} (hkey : IsBare key) (s : LineState) (more : List Char) :
    s.read (headerText key ++ more) = (s.openTable key).bind fun s' => s'.read more := by
  have htext : headerText key ++ more =
      '[' :: '[' :: (key.toList ++ [']', ']']) ++ '\n' :: more := by
    simp [headerText]
  have hline : '\n' ∉ '[' :: '[' :: (key.toList ++ [']', ']']) := by
    simp [newline_notMem hkey]
  rw [htext, read_cons hline, readLine_header hkey]

theorem read_emptyArray {key : String} (hkey : IsBare key) (s : LineState) (more : List Char) :
    s.read (emptyArrayText key ++ more) =
      (s.define key (.array [])).bind fun s' => s'.read more := by
  have htext : emptyArrayText key ++ more =
      key.toList ++ [' ', '=', ' ', '[', ']'] ++ '\n' :: more := by
    simp [emptyArrayText]
  have hline : '\n' ∉ key.toList ++ [' ', '=', ' ', '[', ']'] := by
    simp [newline_notMem hkey]
  rw [htext, read_cons hline, readLine_emptyArray hkey]

theorem read_string {key : String} (hkey : IsBare key) {text value more : List Char}
    (hvalue : basicString text = some (value, '\n' :: more)) (s : LineState) :
    s.read (openingText key ++ text) =
      (s.define key (.string (String.ofList value))).bind fun s' => s'.read more := by
  obtain ⟨used, rfl, hused, hread⟩ := scan_used hvalue
  have hline : '\n' ∉ openingText key ++ used := fun hmem =>
    (List.mem_append.mp hmem).elim (openingText_notMem hkey) hused
  have hall : basicString used = some (value, []) := by
    have hall := hread []
    rwa [List.append_nil] at hall
  rw [← List.append_assoc, read_cons hline, readLine_opening hkey, hall]

/-- A key with a string is on a line that ends behind the string. -/
theorem string_of_read {key : String} (hkey : IsBare key) {s s' : LineState} {text : List Char}
    (h : s.read (openingText key ++ text) = some s') :
    ∃ line value rest s₁ more, text = line ++ rest ∧ (∀ c tail, rest = c :: tail → c = '\n') ∧
      basicString line = some (value, []) ∧
      s.define key (.string (String.ofList value)) = some s₁ ∧ s₁.read more = some s' := by
  obtain ⟨line, rest, s₁, more, htext, hrest, hfirst, hmore⟩ :=
    read_first (openingText_notMem hkey) h
  rw [readLine_opening hkey] at hfirst
  split at hfirst
  · rename_i value hvalue
    exact ⟨line, value, rest, s₁, more, htext, hrest, hvalue, hfirst, hmore⟩
  · cases hfirst

theorem basic_of_read {key : String} (hkey : IsBare key) {s s' : LineState} {text : List Char}
    (h : s.read (openingText key ++ text) = some s') :
    ∃ value rest s₁ more, basicString text = some (value, rest) ∧
      s.define key (.string (String.ofList value)) = some s₁ ∧ s₁.read more = some s' := by
  obtain ⟨line, value, rest, s₁, more, rfl, -, hvalue, hdefine, hmore⟩ := string_of_read hkey h
  refine ⟨value, rest, s₁, more, ?_, hdefine, hmore⟩
  obtain ⟨used, hline, -, hread⟩ := scan_used hvalue
  rw [List.append_nil] at hline
  rw [hline]
  exact hread rest

/-- No line has a string of several lines. -/
theorem no_multiline {key : String} (hkey : IsBare key) {s s' : LineState} {text : List Char} :
    s.read (openingText key ++ '"' :: '"' :: text) ≠ some s' := by
  intro h
  obtain ⟨line, value, rest, -, -, htext, hrest, hvalue, -⟩ := string_of_read hkey h
  match line with
  | [] => cases hvalue
  | [c] =>
    have hsecond := (List.cons.inj htext).2
    exact absurd (hrest _ _ hsecond.symm) (by decide)
  | c :: d :: line =>
    obtain ⟨rfl, hsecond⟩ := List.cons.inj htext
    obtain ⟨rfl, -⟩ := List.cons.inj hsecond
    cases hvalue

theorem openTable_isSome {s : LineState} {key : String} :
    (s.openTable key).isSome = true ↔ Extendable s.root key := by
  rw [openTable, Extendable]
  cases hvalue : s.root.get key with
  | none => exact iff_of_true rfl fun _ h => nomatch h
  | some value =>
    cases value with
    | tables items => exact iff_of_true rfl fun _ h => ⟨items, (Option.some.inj h).symm⟩
    | _ =>
      refine iff_of_false nofun fun h => ?_
      obtain ⟨items, hitems⟩ := h _ rfl
      cases hitems

theorem define_current {s : LineState} {array : String} {i : Nat} {table : Table}
    (hcurrent : s.current = some (array, i)) (htable : (elements s.root array)[i]? = some table)
    {key : String} (hkey : table.get key = none) (value : Value) :
    ∃ s', s.define key value = some s' ∧ s'.current = some (array, i) ∧
      s'.root = s.root.set array
        (.tables ((elements s.root array).set i (table.set key value))) := by
  let items := (elements s.root array).set i (table.set key value)
  refine ⟨{ s with root := s.root.set array (.tables items) }, ?_, hcurrent, rfl⟩
  rw [define, hcurrent]
  dsimp only
  rw [htable]
  dsimp only
  rw [hkey]

end LineState

theorem lineReader_lawful : lineReader.Lawful where
  read_nil := LineState.read_nil
  read_lineBreak := LineState.read_lineBreak
  read_header := LineState.read_header
  read_emptyArray := LineState.read_emptyArray
  read_string := LineState.read_string
  basic_of_read := fun hkey _ _ _ _ h => LineState.basic_of_read hkey h
  multiline_of_read := fun hkey _ _ _ h => absurd h (LineState.no_multiline hkey)
  openTable_isSome := LineState.openTable_isSome
  openTable_some := LineState.openTable_some
  define_current := LineState.define_current
  string_kept := fun h _ _ _ _ table htable hstring => LineState.read_keeps h ⟨table, htable, hstring⟩

end Toml
