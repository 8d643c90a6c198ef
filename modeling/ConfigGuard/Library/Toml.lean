import Mathlib.Data.List.Basic
import Mathlib.Data.Option.Basic

/-!
# TOML

Basic strings character by character, values and tables, and what is known of
a reader of documents.
-/

namespace Toml

/-- The characters that may stand in a string: no control character but the tab. -/
def IsLegal (c : Char) : Prop := c = '\t' ∨ 0x20 ≤ c.toNat ∧ c.toNat ≠ 0x7F

instance (c : Char) : Decidable (IsLegal c) := inferInstanceAs (Decidable (_ ∨ _))

/-- The characters that stand for themselves. -/
structure IsPlain (c : Char) : Prop where
  notQuote : c ≠ '"'
  notBackslash : c ≠ '\\'
  legal : IsLegal c

instance (c : Char) : Decidable (IsPlain c) :=
  decidable_of_iff (c ≠ '"' ∧ c ≠ '\\' ∧ IsLegal c)
    ⟨fun h => ⟨h.1, h.2.1, h.2.2⟩, fun h => ⟨h.notQuote, h.notBackslash, h.legal⟩⟩

theorem IsPlain.of_all {text : List Char} (h : text.all (IsPlain ·) = true) :
    ∀ c ∈ text, IsPlain c :=
  fun c hc => of_decide_eq_true (List.all_eq_true.mp h c hc)

/-- What a character behind a backslash stands for. -/
def escaped : Char → Option Char
  | 'b' => some '\x08'
  | 't' => some '\t'
  | 'n' => some '\n'
  | 'f' => some '\x0C'
  | 'r' => some '\r'
  | '"' => some '"'
  | '\\' => some '\\'
  | _ => none

def hexDigit (c : Char) : Option Nat :=
  if '0' ≤ c ∧ c ≤ '9' then some (c.toNat - '0'.toNat)
  else if 'a' ≤ c ∧ c ≤ 'f' then some (c.toNat - 'a'.toNat + 10)
  else if 'A' ≤ c ∧ c ≤ 'F' then some (c.toNat - 'A'.toNat + 10)
  else none

/-- Where in a string a reader is; `hex` is in a code point, with so many digits to come. -/
inductive Mode where
  | text
  | escape
  | hex (left code : Nat)

/-- What a reader does with the next character of a string. -/
inductive Step where
  | close
  | skip (mode : Mode)
  | push (c : Char)

def step : Mode → Char → Option Step
  | .text, c =>
    if c = '"' then some .close
    else if c = '\\' then some (.skip .escape)
    else if IsLegal c then some (.push c)
    else none
  | .escape, c =>
    if c = 'u' then some (.skip (.hex 4 0))
    else if c = 'U' then some (.skip (.hex 8 0))
    else (escaped c).map .push
  | .hex left code, c =>
    (hexDigit c).bind fun digit =>
      if 1 < left then some (.skip (.hex (left - 1) (16 * code + digit)))
      else if (16 * code + digit).isValidChar then some (.push (Char.ofNat (16 * code + digit)))
      else none

/-- The value of a string from here to its closing quote, and what is behind it. -/
def scan : Mode → List Char → Option (List Char × List Char)
  | _, [] => none
  | mode, c :: text =>
    match step mode c with
    | none => none
    | some .close => some ([], text)
    | some (.skip mode) => scan mode text
    | some (.push d) => (scan .text text).map fun p => (d :: p.1, p.2)

/-- A basic string behind its opening quote. -/
def basicString (text : List Char) : Option (List Char × List Char) := scan .text text

theorem step_newline (mode : Mode) : step mode '\n' = none := by
  cases mode <;> rfl

theorem step_close {mode : Mode} {c : Char} (h : step mode c = some .close) :
    mode = .text ∧ c = '"' := by
  cases mode with
  | text =>
    rw [step] at h
    split at h
    · rename_i hc
      exact ⟨rfl, hc⟩
    · split at h
      · cases h
      · split at h <;> cases h
  | escape =>
    rw [step] at h
    split at h
    · cases h
    · split at h
      · cases h
      · cases hc : escaped c <;> rw [hc] at h <;> cases h
  | hex left code =>
    rw [step] at h
    obtain ⟨digit, -, h⟩ := Option.bind_eq_some_iff.mp h
    split at h
    · cases h
    · split at h <;> cases h

theorem step_plain {c : Char} (h : IsPlain c) : step .text c = some (.push c) := by
  rw [step, if_neg h.notQuote, if_neg h.notBackslash, if_pos h.legal]

/-- Outside of an escape only plain characters are taken, as they are. -/
theorem step_push {c d : Char} (h : step .text c = some (.push d)) : d = c ∧ IsPlain c := by
  rw [step] at h
  split at h
  · cases h
  · rename_i hquote
    split at h
    · cases h
    · rename_i hbackslash
      split at h
      · rename_i hlegal
        cases h
        exact ⟨rfl, hquote, hbackslash, hlegal⟩
      · cases h

theorem scan_plain {text : List Char} (h : ∀ c ∈ text, IsPlain c) (rest : List Char) :
    scan .text (text ++ '"' :: rest) = some (text, rest) := by
  induction text with
  | nil => rfl
  | cons c text ih =>
    rw [List.cons_append, scan, step_plain (h c List.mem_cons_self),
      ih fun d hd => h d (List.mem_cons_of_mem _ hd)]
    rfl

theorem exists_of_push {d : Char} {text value rest : List Char}
    (h : (scan .text text).map (fun p => (d :: p.1, p.2)) = some (value, rest)) :
    ∃ value', value = d :: value' ∧ scan .text text = some (value', rest) := by
  obtain ⟨⟨value', rest'⟩, hscan, hvalue⟩ := Option.map_eq_some_iff.mp h
  dsimp only at hvalue
  obtain ⟨rfl, rfl⟩ := Prod.mk.inj hvalue
  exact ⟨value', rfl, hscan⟩

/-- What is read of a string has no line break in it, and is read the same
whatever follows. -/
theorem scan_used {mode : Mode} {text value rest : List Char}
    (h : scan mode text = some (value, rest)) :
    ∃ used, text = used ++ rest ∧ '\n' ∉ used ∧
      ∀ more, scan mode (used ++ more) = some (value, more) := by
  induction text generalizing mode value with
  | nil => cases h
  | cons c text ih =>
    rw [scan] at h
    have hbreak : ∀ {used : List Char} {s : Step}, step mode c = some s → '\n' ∉ used →
        '\n' ∉ c :: used := by
      intro used s hs hused hmem
      rcases List.mem_cons.mp hmem with rfl | hmem
      · rw [step_newline] at hs
        cases hs
      · exact hused hmem
    split at h
    · cases h
    · rename_i hstep
      obtain ⟨rfl, rfl⟩ := Prod.mk.inj (Option.some.inj h)
      refine ⟨[c], rfl, hbreak hstep List.not_mem_nil, ?_⟩
      intro more
      rw [List.singleton_append, scan, hstep]
    · rename_i mode' hstep
      obtain ⟨used, rfl, hused, hread⟩ := ih h
      refine ⟨c :: used, rfl, hbreak hstep hused, ?_⟩
      intro more
      rw [List.cons_append, scan, hstep]
      exact hread more
    · rename_i d hstep
      obtain ⟨value', rfl, hscan⟩ := exists_of_push h
      obtain ⟨used, rfl, hused, hread⟩ := ih hscan
      refine ⟨c :: used, rfl, hbreak hstep hused, ?_⟩
      intro more
      rw [List.cons_append, scan, hstep]
      dsimp only
      rw [hread more]
      rfl

/-- A value is not longer than its text, and of the same length only if the
text is the value. -/
theorem scan_length {mode : Mode} {text value rest : List Char}
    (h : scan mode text = some (value, rest)) :
    value.length + 1 + rest.length ≤ text.length ∧
      (mode = .text → (text = value ++ '"' :: rest ∧ ∀ c ∈ value, IsPlain c) ∨
        value.length + 1 + rest.length < text.length) := by
  induction text generalizing mode value with
  | nil => cases h
  | cons c text ih =>
    rw [scan] at h
    split at h
    · cases h
    · rename_i hstep
      obtain ⟨rfl, rfl⟩ := Prod.mk.inj (Option.some.inj h)
      obtain ⟨-, rfl⟩ := step_close hstep
      refine ⟨?_, fun _ => .inl ⟨rfl, fun _ hc => absurd hc List.not_mem_nil⟩⟩
      rw [List.length_nil, List.length_cons]
      omega
    · rename_i mode' hstep
      have hlength := (ih h).1
      refine ⟨?_, fun _ => .inr ?_⟩ <;>
      · rw [List.length_cons]
        omega
    · rename_i d hstep
      obtain ⟨value', rfl, hscan⟩ := exists_of_push h
      obtain ⟨hlength, htext⟩ := ih hscan
      refine ⟨?_, ?_⟩
      · rw [List.length_cons, List.length_cons]
        omega
      · rintro rfl
        obtain ⟨rfl, hplain⟩ := step_push hstep
        rcases htext rfl with ⟨rfl, hall⟩ | hshort
        · refine .inl ⟨rfl, ?_⟩
          intro c hc
          rcases List.mem_cons.mp hc with rfl | hc
          · exact hplain
          · exact hall c hc
        · refine .inr ?_
          rw [List.length_cons, List.length_cons]
          omega

/-- A text that is put between quotes as it is comes back only if it is plain;
what comes back otherwise is shorter. -/
theorem length_lt_of_not_plain {text more value rest : List Char}
    (hplain : ¬ ∀ c ∈ text, IsPlain c)
    (h : basicString (text ++ '"' :: '\n' :: more) = some (value, rest)) :
    value.length < text.length := by
  rcases (scan_length h).2 rfl with ⟨hsplit, hvalue⟩ | hshort
  · by_contra hlong
    have hpre : text <+: value :=
      List.prefix_of_prefix_length_le ⟨_, hsplit⟩ ⟨_, rfl⟩ (Nat.le_of_not_lt hlong)
    exact hplain fun c hc => hvalue c (hpre.subset hc)
  · obtain ⟨used, hsplit, hused, -⟩ := scan_used h
    -- the line break behind the second quote is not in what was read
    have hlength : used.length ≤ text.length + 1 := by
      by_contra hlong
      have hpre : text ++ ['"', '\n'] <+: used := by
        refine List.prefix_of_prefix_length_le ⟨more, ?_⟩ ⟨rest, hsplit.symm⟩ ?_
        · rw [List.append_assoc]
          rfl
        · rw [List.length_append, List.length_cons, List.length_singleton]
          omega
      exact hused (hpre.subset (List.mem_append_right _ (by decide)))
    rw [hsplit, List.length_append] at hshort
    omega

/-- What is between the delimiters of a multi-line string, and its value. A
reader may keep the line breaks of two characters or not. -/
inductive Multiline : List Char → List Char → Prop
  | nil : Multiline [] []
  | char {c : Char} {body value : List Char} (hc : c ≠ '\\') (h : Multiline body value) :
    Multiline (c :: body) (c :: value)
  | lineBreak {body value : List Char} (h : Multiline body value) :
    Multiline ('\r' :: '\n' :: body) ('\n' :: value)
  | escape {c d : Char} {body value : List Char} (hc : escaped c = some d)
    (h : Multiline body value) : Multiline ('\\' :: c :: body) (d :: value)
  | codePoint {u d : Char} {digits body value : List Char}
    (hdigits : ∀ c ∈ digits, (hexDigit c).isSome = true) (hu : u = 'u' ∨ u = 'U')
    (hne : digits ≠ []) (h : Multiline body value) :
    Multiline ('\\' :: u :: (digits ++ body)) (d :: value)
  | continued {space body value : List Char}
    (hspace : ∀ c ∈ space, c = ' ' ∨ c = '\t' ∨ c = '\r' ∨ c = '\n')
    (h : Multiline body value) : Multiline ('\\' :: (space ++ body)) value

/-- The line break a multi-line string may begin with. -/
def trimLineBreak : List Char → List Char
  | '\n' :: body => body
  | '\r' :: '\n' :: body => body
  | body => body

def delimiter : List Char := ['"', '"', '"']

/-- How often a quote, a line break and the given character follow each other. -/
def breaks (d : Char) : List Char → Nat
  | [] => 0
  | c :: text => (if c = '"' ∧ ['\n', d] <+: text then 1 else 0) + breaks d text

theorem breaks_append_of_notMem (d : Char) {text : List Char} (h : '"' ∉ text)
    (more : List Char) : breaks d (text ++ more) = breaks d more := by
  induction text with
  | nil => rfl
  | cons c text ih =>
    rw [List.mem_cons, not_or] at h
    rw [List.cons_append, breaks, if_neg fun hc => h.1 hc.1.symm, ih h.2, Nat.zero_add]

theorem breaks_le_append (d : Char) (text more : List Char) :
    breaks d text + breaks d more ≤ breaks d (text ++ more) := by
  induction text with
  | nil => exact Nat.le_of_eq (Nat.zero_add _)
  | cons c text ih =>
    have hhead : (if c = '"' ∧ ['\n', d] <+: text then 1 else 0) ≤
        if c = '"' ∧ ['\n', d] <+: text ++ more then 1 else 0 := by
      split
      · rename_i h
        exact Nat.le_of_eq (if_pos ⟨h.1, h.2.trans (List.prefix_append _ _)⟩).symm
      · exact Nat.zero_le _
    rw [List.cons_append, breaks, breaks]
    omega

theorem Multiline.of_cons {c : Char} {body value : List Char} (hc : c ≠ '\\') (hr : c ≠ '\r')
    (h : Multiline (c :: body) value) : ∃ value', value = c :: value' ∧ Multiline body value' := by
  cases h with
  | char _ h => exact ⟨_, rfl, h⟩
  | lineBreak => exact absurd rfl hr
  | escape => exact absurd rfl hc
  | codePoint => exact absurd rfl hc
  | continued => exact absurd rfl hc

theorem hexDigit_quote : hexDigit '"' = none := by decide

theorem Multiline.length_le {body value : List Char} (h : Multiline body value) :
    value.length ≤ body.length := by
  induction h with
  | nil => exact Nat.le_refl _
  | char | lineBreak | escape => simp only [List.length_cons]; omega
  | codePoint => simp only [List.length_cons, List.length_append]; omega
  | continued => simp only [List.length_cons, List.length_append]; omega

section

variable {d : Char} (hbackslash : d ≠ '\\') (hreturn : d ≠ '\r')

include hbackslash hreturn

theorem Multiline.starts {body value : List Char} (h : Multiline body value)
    (hbody : ['\n', d] <+: body) : ['\n', d] <+: value := by
  obtain ⟨rest, rfl⟩ := hbody
  obtain ⟨value₁, rfl, hrest⟩ := h.of_cons (by decide) (by decide)
  obtain ⟨value₂, rfl, -⟩ := Multiline.of_cons (c := d) hbackslash hreturn hrest
  exact List.prefix_append ['\n', d] value₂

/-- No quote before a line break is lost. -/
theorem Multiline.breaks_le {body value : List Char} (h : Multiline body value) :
    breaks d body ≤ breaks d value := by
  induction h with
  | nil => exact Nat.le_refl _
  | @char c body value hc h ih =>
    rw [breaks, breaks]
    split
    · rename_i hstart
      rw [if_pos ⟨hstart.1, h.starts hbackslash hreturn hstart.2⟩]
      omega
    · omega
  | @lineBreak body value h ih =>
    have hbody : breaks d ('\r' :: '\n' :: body) = breaks d body :=
      breaks_append_of_notMem d (by decide : '"' ∉ ['\r', '\n']) body
    have hvalue : breaks d ('\n' :: value) = breaks d value :=
      breaks_append_of_notMem d (by decide : '"' ∉ ['\n']) value
    rwa [hbody, hvalue]
  | @escape c e body value hc h ih =>
    have hbody : breaks d ('\\' :: c :: body) = breaks d (c :: body) :=
      breaks_append_of_notMem d (by decide : '"' ∉ ['\\']) (c :: body)
    rw [hbody, breaks, breaks]
    split
    · rename_i hstart
      rw [hstart.1] at hc
      rw [← Option.some.inj hc, if_pos ⟨rfl, h.starts hbackslash hreturn hstart.2⟩]
      omega
    · omega
  | @codePoint u e digits body value hdigits hu hne h ih =>
    have hquote : '"' ∉ '\\' :: u :: digits := by
      simp only [List.mem_cons, not_or]
      refine ⟨by decide, by rintro rfl; simp at hu, ?_⟩
      intro hmem
      have hsome := hdigits _ hmem
      rw [hexDigit_quote] at hsome
      cases hsome
    have hbody := breaks_append_of_notMem d hquote body
    rw [List.cons_append, List.cons_append] at hbody
    rw [hbody, breaks]
    omega
  | @continued space body value hspace h ih =>
    have hquote : '"' ∉ '\\' :: space := by
      simp only [List.mem_cons, not_or]
      refine ⟨by decide, ?_⟩
      intro hmem
      exact absurd (hspace _ hmem) (by decide)
    have hbody := breaks_append_of_notMem d hquote body
    rw [List.cons_append] at hbody
    rwa [hbody]

end

theorem trimLineBreak_length_le (body : List Char) :
    (trimLineBreak body).length ≤ body.length := by
  unfold trimLineBreak
  split
  · exact Nat.le_succ _
  · exact Nat.le_add_right _ 2
  · exact Nat.le_refl _

/-- What a text begins with, as far as line breaks go. -/
theorem trimLineBreak_cases (text : List Char) :
    (∃ rest, text = '\n' :: rest ∧ ∀ more, trimLineBreak (text ++ '"' :: more) = rest ++ '"' :: more) ∨
      (∃ rest, text = '\r' :: '\n' :: rest ∧
        ∀ more, trimLineBreak (text ++ '"' :: more) = rest ++ '"' :: more) ∨
      ¬ ['\n'] <+: text ∧
        ∀ more, trimLineBreak (text ++ '"' :: more) = text ++ '"' :: more := by
  cases text with
  | nil => exact .inr (.inr ⟨by decide, fun _ => rfl⟩)
  | cons c text =>
    by_cases hn : c = '\n'
    · subst hn
      exact .inl ⟨text, rfl, fun _ => rfl⟩
    · by_cases hr : ∃ rest, c = '\r' ∧ text = '\n' :: rest
      · obtain ⟨rest, rfl, rfl⟩ := hr
        exact .inr (.inl ⟨rest, rfl, fun _ => rfl⟩)
      · refine .inr (.inr ⟨?_, ?_⟩)
        · rw [List.cons_prefix_cons]
          exact fun h => hn h.1.symm
        · intro more
          rw [List.cons_append]
          unfold trimLineBreak
          split
          · rename_i heq
            exact absurd (List.cons.inj heq).1 hn
          · rename_i body heq
            obtain ⟨hc, htext⟩ := List.cons.inj heq
            cases text with
            | nil => cases htext
            | cons d text => exact absurd ⟨text, hc, by rw [(List.cons.inj htext).1]⟩ hr
          · rfl

theorem lt_breaks_append (d : Char) (text tail : List Char) :
    breaks d text < breaks d (text ++ '"' :: '\n' :: d :: tail) := by
  refine Nat.lt_of_lt_of_le ?_ (breaks_le_append d _ _)
  rw [breaks.eq_2 d '"', if_pos ⟨rfl, List.prefix_append ['\n', d] tail⟩]
  omega

theorem breaks_quotes {d : Char} {text : List Char} (hstart : ¬ ['\n', d] <+: text) :
    breaks d ('"' :: '"' :: text) = breaks d text := by
  rw [breaks, breaks, if_neg fun hc => absurd (List.cons_prefix_cons.mp hc.2).1 (by decide),
    if_neg fun hc => hstart hc.2, Nat.zero_add, Nat.zero_add]

/-- The text between quotes goes on behind the line break, as no delimiter is there. -/
theorem exists_behind {d : Char} (hquote : d ≠ '"') {text more body rest : List Char}
    (hsplit : text ++ '"' :: '\n' :: d :: more = body ++ (delimiter ++ rest))
    (hlength : text.length + 2 ≤ body.length) :
    ∃ tail, body = text ++ '"' :: '\n' :: d :: tail := by
  have hpre : text ++ ['"', '\n'] <+: body := by
    refine List.prefix_of_prefix_length_le ⟨d :: more, ?_⟩ ⟨_, hsplit.symm⟩ ?_
    · rw [List.append_assoc]
      rfl
    · rwa [List.length_append]
  obtain ⟨tail, rfl⟩ := hpre
  rw [List.append_assoc, List.append_assoc, List.append_cancel_left_eq] at hsplit
  have htail := (List.cons.inj (List.cons.inj hsplit).2).2
  cases tail with
  | nil => exact absurd (List.cons.inj htail).1 hquote
  | cons c tail =>
    refine ⟨tail, ?_⟩
    rw [(List.cons.inj htail).1, List.append_assoc]
    rfl

theorem Multiline.breaks_lt {d : Char} (hbackslash : d ≠ '\\') (hreturn : d ≠ '\r')
    {text body tail : List Char} (hstart : ¬ ['\n', d] <+: text)
    (h : Multiline (body ++ '"' :: '\n' :: d :: tail) ('"' :: '"' :: text)) :
    breaks d body < breaks d text :=
  calc
    breaks d body < breaks d (body ++ '"' :: '\n' :: d :: tail) := lt_breaks_append d body tail
    _ ≤ breaks d ('"' :: '"' :: text) := h.breaks_le hbackslash hreturn
    _ = breaks d text := breaks_quotes hstart

/-- A text that begins with two quotes opens a multi-line string, and does not
come back if there is another line behind its closing quote. -/
theorem Multiline.ne_of_opened {d : Char} (hquote : d ≠ '"') (hbackslash : d ≠ '\\')
    (hreturn : d ≠ '\r') {text more body rest value : List Char}
    (hsplit : text ++ '"' :: '\n' :: d :: more = body ++ (delimiter ++ rest))
    (h : Multiline (trimLineBreak body) value) : value ≠ '"' :: '"' :: text := by
  rintro rfl
  obtain ⟨tail, rfl⟩ := exists_behind hquote hsplit
    (Nat.le_trans h.length_le (trimLineBreak_length_le body))
  rcases trimLineBreak_cases text with ⟨rest', rfl, htrim⟩ | ⟨rest', rfl, htrim⟩ | ⟨hstart, htrim⟩
  · rw [htrim] at h
    by_cases ho : [d] <+: rest'
    · obtain ⟨rest', rfl⟩ := ho
      obtain ⟨value, hvalue, -⟩ := Multiline.of_cons (c := d) hbackslash hreturn h
      exact absurd (List.cons.inj hvalue).1.symm hquote
    · have hlt := h.breaks_lt hbackslash hreturn
        fun hc => ho (List.cons_prefix_cons.mp hc).2
      have hskip : breaks d ('\n' :: rest') = breaks d rest' :=
        breaks_append_of_notMem d (by decide : '"' ∉ ['\n']) rest'
      omega
  · rw [htrim] at h
    have hlt := h.breaks_lt hbackslash hreturn
      fun hc => absurd (List.cons_prefix_cons.mp hc).1 (by decide)
    have hskip : breaks d ('\r' :: '\n' :: rest') = breaks d rest' :=
      breaks_append_of_notMem d (by decide : '"' ∉ ['\r', '\n']) rest'
    omega
  · rw [htrim] at h
    have hlt := h.breaks_lt hbackslash hreturn
      fun hc => hstart ((List.prefix_append ['\n'] [d]).trans hc)
    exact absurd hlt (Nat.lt_irrefl _)

/-- Nor does a text that is one quote. -/
theorem Multiline.ne_quote {d : Char} (hquote : d ≠ '"') (hbackslash : d ≠ '\\')
    (hreturn : d ≠ '\r') {more body rest value : List Char}
    (hsplit : '\n' :: d :: more = body ++ (delimiter ++ rest))
    (h : Multiline (trimLineBreak body) value) : value ≠ ['"'] := by
  rintro rfl
  cases body with
  | nil => exact absurd (List.cons.inj hsplit).1 (by decide)
  | cons c body =>
    obtain ⟨rfl, hline⟩ := List.cons.inj hsplit
    cases body with
    | nil => exact absurd (List.cons.inj hline).1 hquote
    | cons e body =>
      obtain ⟨rfl, -⟩ := List.cons.inj hline
      obtain ⟨value, hvalue, -⟩ := Multiline.of_cons (c := d) hbackslash hreturn h
      exact absurd (List.cons.inj hvalue).1.symm hquote

/-- A table is the list of its keys with their values. `tables` is an array made of tables
under `[[..]]`, `other` a number or a time. -/
inductive Value where
  | string (text : String)
  | boolean (value : Bool)
  | array (items : List Value)
  | table (entries : List (String × Value))
  | tables (items : List (List (String × Value)))
  | other

abbrev Table := List (String × Value)

def emptyTable : Table := []

namespace Table

def get (t : Table) (key : String) : Option Value := t.lookup key

/-- The value of the key is replaced, or the key comes last. -/
def set : Table → String → Value → Table
  | [], key, value => [(key, value)]
  | (other, old) :: t, key, value =>
    if other = key then (key, value) :: t else (other, old) :: set t key value

theorem get_cons (t : Table) (key other : String) (value : Value) :
    get ((other, value) :: t) key = if key = other then some value else t.get key := by
  rw [get, List.lookup_cons]
  by_cases h : key = other
  · rw [if_pos h, beq_iff_eq.mpr h]
  · rw [if_neg h, beq_false_of_ne h]
    rfl

theorem get_set_self (t : Table) (key : String) (value : Value) :
    (t.set key value).get key = some value := by
  induction t with
  | nil => rw [set, get_cons, if_pos rfl]
  | cons entry t ih =>
    obtain ⟨other, old⟩ := entry
    rw [set]
    split
    · rw [get_cons, if_pos rfl]
    · rename_i hne
      rw [get_cons, if_neg (Ne.symm hne), ih]

theorem get_set_ne (t : Table) {key other : String} (h : key ≠ other) (value : Value) :
    (t.set other value).get key = t.get key := by
  induction t with
  | nil => rw [set, get_cons, if_neg h]
  | cons entry t ih =>
    obtain ⟨first, old⟩ := entry
    rw [set]
    split
    · rename_i heq
      rw [get_cons, get_cons, heq, if_neg h, if_neg h]
    · rw [get_cons, get_cons, ih]

theorem set_set (t : Table) (key : String) (value value' : Value) :
    (t.set key value).set key value' = t.set key value' := by
  induction t with
  | nil => exact if_pos rfl
  | cons entry t ih =>
    obtain ⟨other, old⟩ := entry
    by_cases h : other = key
    · rw [set, set, if_pos h, if_pos h, set, if_pos rfl]
    · rw [set, set, if_neg h, if_neg h, set, if_neg h, ih]

end Table

namespace Value

def asString : Value → Option String
  | string text => some text
  | _ => none

def asBoolean : Value → Option Bool
  | boolean value => some value
  | _ => none

def asItems : Value → Option (List Value)
  | array items => some items
  | tables items => some (items.map .table)
  | _ => none

def asList {α : Type} (read : Value → Option α) (value : Value) : Option (List α) :=
  value.asItems.bind fun items => items.mapM read

/-- What is read of a list is read of each item in its place. -/
theorem mapM_eq_some {α β : Type} {read : α → Option β} {items : List α} {results : List β}
    (h : items.mapM read = some results) :
    results.length = items.length ∧ ∀ {i : Nat} {item : α}, items[i]? = some item →
      ∃ result, results[i]? = some result ∧ read item = some result := by
  induction items generalizing results with
  | nil =>
    obtain rfl := Option.some.inj h
    exact ⟨rfl, fun hi => nomatch hi⟩
  | cons first items ih =>
    rw [List.mapM_cons] at h
    obtain ⟨result, hresult, h⟩ := Option.bind_eq_some_iff.mp h
    obtain ⟨rest, hrest, h⟩ := Option.bind_eq_some_iff.mp h
    obtain rfl := Option.some.inj h
    obtain ⟨hlength, hitems⟩ := ih hrest
    refine ⟨by rw [List.length_cons, List.length_cons, hlength], ?_⟩
    intro i item hi
    cases i with
    | zero =>
      obtain rfl := Option.some.inj hi
      exact ⟨result, rfl, hresult⟩
    | succ i => exact hitems hi

/-- The fields of a record: by name from a table, by position from an array. -/
def asRecord (names : List String) (value : Value) : Option Table :=
  match value with
  | table entries => some entries
  | _ => value.asItems.map names.zip

/-- Nothing is in the table or the array. -/
def isEmpty : Value → Bool
  | table [] | array [] | tables [] => true
  | _ => false

/-- The name of a variant: a string, or the only key of a table with nothing under it. -/
def asVariant : Value → Option String
  | string text => some text
  | table [(name, content)] => if content.isEmpty then some name else none
  | _ => none

end Value

namespace Table

def required {α : Type} (fields : Table) (key : String) (read : Value → Option α) : Option α :=
  (fields.get key).bind read

def optional {α : Type} (fields : Table) (key : String) (default : α) (read : Value → Option α) :
    Option α :=
  match fields.get key with
  | none => some default
  | some value => read value

theorem optional_set_ne {α : Type} (fields : Table) {key other : String} (h : key ≠ other)
    (value : Value) (default : α) (read : Value → Option α) :
    optional (fields.set other value) key default read = optional fields key default read := by
  rw [optional, optional, get_set_ne _ h]

end Table

/-- The tables there are under `[[..]]` with this key. -/
def elements (root : Table) (key : String) : List Table :=
  match root.get key with
  | some (.tables items) => items
  | _ => []

/-- A table can be added with a header, as there is no other value under the key. -/
def Extendable (root : Table) (key : String) : Prop :=
  ∀ value, root.get key = some value → ∃ items, value = .tables items

theorem extendable_emptyTable (key : String) : Extendable emptyTable key := fun _ h => nomatch h

/-- A key that is written without quotes. -/
structure IsBare (key : String) : Prop where
  nonempty : key.toList ≠ []
  chars : ∀ c ∈ key.toList, c.isAlphanum = true ∨ c = '_' ∨ c = '-'

theorem IsBare.of_all {key : String} (hne : key.toList ≠ [])
    (h : key.toList.all (fun c => c.isAlphanum = true ∨ c = '_' ∨ c = '-') = true) : IsBare key :=
  ⟨hne, fun c hc => of_decide_eq_true (List.all_eq_true.mp h c hc)⟩

def headerText (key : String) : List Char := '[' :: '[' :: (key.toList ++ [']', ']', '\n'])

/-- A key and the opening quote of its string. -/
def openingText (key : String) : List Char := key.toList ++ [' ', '=', ' ', '"']

def emptyArrayText (key : String) : List Char := key.toList ++ [' ', '=', ' ', '[', ']', '\n']

/-- A reader of documents. `current` is the place of the table that keys go to,
if it is one under `[[..]]`. -/
structure Reader where
  State : Type
  start : State
  root : State → Table
  current : State → Option (String × Nat)
  read : State → List Char → Option State
  openTable : State → String → Option State
  define : State → String → Value → Option State

/-- What TOML says of the documents the readers here are used on. -/
structure Reader.Lawful (r : Reader) : Prop where
  read_nil : ∀ s, r.read s [] = some s
  /-- A line break ends what was complete before it. -/
  read_lineBreak : ∀ {s s' text}, r.read s text = some s' →
    ∀ more, r.read s (text ++ '\n' :: more) = r.read s' more
  read_header : ∀ {key}, IsBare key → ∀ s more,
    r.read s (headerText key ++ more) = (r.openTable s key).bind fun s' => r.read s' more
  read_emptyArray : ∀ {key}, IsBare key → ∀ s more,
    r.read s (emptyArrayText key ++ more) =
      (r.define s key (.array [])).bind fun s' => r.read s' more
  read_string : ∀ {key}, IsBare key → ∀ {text value more},
    basicString text = some (value, '\n' :: more) → ∀ s,
      r.read s (openingText key ++ text) =
        (r.define s key (.string (String.ofList value))).bind fun s' => r.read s' more
  /-- Without two quotes to begin with, it is a basic string that is read. -/
  basic_of_read : ∀ {key}, IsBare key → ∀ {s s' text}, ¬ ['"', '"'] <+: text →
    r.read s (openingText key ++ text) = some s' →
      ∃ value rest s₁ more, basicString text = some (value, rest) ∧
        r.define s key (.string (String.ofList value)) = some s₁ ∧ r.read s₁ more = some s'
  /-- With two, it is a multi-line string. -/
  multiline_of_read : ∀ {key}, IsBare key → ∀ {s s' text},
    r.read s (openingText key ++ '"' :: '"' :: text) = some s' →
      ∃ body rest value s₁ more, text = body ++ (delimiter ++ rest) ∧
        Multiline (trimLineBreak body) value ∧
        r.define s key (.string (String.ofList value)) = some s₁ ∧ r.read s₁ more = some s'
  openTable_isSome : ∀ {s key}, (r.openTable s key).isSome = true ↔ Extendable (r.root s) key
  /-- A header makes a new table, and keys go to it. -/
  openTable_some : ∀ {s s' key}, r.openTable s key = some s' →
    r.root s' = (r.root s).set key (.tables (elements (r.root s) key ++ [emptyTable])) ∧
      r.current s' = some (key, (elements (r.root s) key).length)
  /-- A key can be defined that is not in the table. -/
  define_current : ∀ {s array} {i : Nat} {table : Table}, r.current s = some (array, i) →
    (elements (r.root s) array)[i]? = some table → ∀ {key}, table.get key = none → ∀ value,
      ∃ s', r.define s key value = some s' ∧ r.current s' = some (array, i) ∧
        r.root s' = (r.root s).set array
          (.tables ((elements (r.root s) array).set i (table.set key value)))
  /-- A string that is defined stays as it is. -/
  string_kept : ∀ {s s' text}, r.read s text = some s' → ∀ {array key value} {i : Nat} {table : Table},
    (elements (r.root s) array)[i]? = some table → table.get key = some (.string value) →
      ∃ table' : Table, (elements (r.root s') array)[i]? = some table' ∧
        table'.get key = some (.string value)

namespace Reader

/-- The document that is read. -/
def parse (r : Reader) (text : List Char) : Option Table := (r.read r.start text).map r.root

/-- The reader is in the last of these tables under a header. -/
structure Within (r : Reader) (root : Table) (array : String) (items : List Table) (table : Table)
    (s : r.State) : Prop where
  current : r.current s = some (array, items.length)
  root : r.root s = root.set array (.tables (items ++ [table]))

variable {r : Reader}

theorem Within.elements {root : Table} {array : String} {items : List Table} {table : Table}
    {s : r.State} (h : r.Within root array items table s) :
    elements (r.root s) array = items ++ [table] := by
  rw [Toml.elements, h.root, Table.get_set_self]

variable (hr : r.Lawful)

include hr

theorem Lawful.openTable_within {s s' : r.State} {array : String}
    (h : r.openTable s array = some s') :
    r.Within (r.root s) array (elements (r.root s) array) emptyTable s' :=
  ⟨(hr.openTable_some h).2, (hr.openTable_some h).1⟩

theorem Lawful.define_within {root : Table} {array key : String} {items : List Table}
    {table : Table} {s : r.State} (h : r.Within root array items table s) (hkey : table.get key = none)
    (value : Value) :
    ∃ s', r.define s key value = some s' ∧
      r.Within root array items (table.set key value) s' := by
  have hlast : (elements (r.root s) array)[items.length]? = some table := by
    rw [h.elements, List.getElem?_concat_length]
  obtain ⟨s', hdefine, hcurrent, hroot⟩ := hr.define_current h.current hlast hkey value
  refine ⟨s', hdefine, hcurrent, ?_⟩
  rw [hroot, h.elements, h.root, Table.set_set, List.set_append_right _ _ (Nat.le_refl _),
    Nat.sub_self]
  rfl

/-- A plain text between quotes is read as it is. -/
theorem Lawful.read_quoted {key : String} (hkey : IsBare key) {text : List Char}
    (htext : ∀ c ∈ text, IsPlain c) (s : r.State) (more : List Char) :
    r.read s (openingText key ++ (text ++ '"' :: '\n' :: more)) =
      (r.define s key (.string (String.ofList text))).bind fun s' => r.read s' more :=
  hr.read_string hkey (scan_plain htext ('\n' :: more)) s

/-- Any text between quotes gives a string, if there is another line, and only
a plain text gives itself. -/
theorem Lawful.quoted_of_read {key : String} (hkey : IsBare key) {d : Char} (hquote : d ≠ '"')
    (hbackslash : d ≠ '\\') (hreturn : d ≠ '\r') {s s' : r.State} {text more : List Char}
    (h : r.read s (openingText key ++ (text ++ '"' :: '\n' :: d :: more)) = some s') :
    ∃ value s₁ rest, r.define s key (.string (String.ofList value)) = some s₁ ∧
      r.read s₁ rest = some s' ∧ (value = text → ∀ c ∈ text, IsPlain c) := by
  by_cases hopened : ['"', '"'] <+: text ++ '"' :: '\n' :: d :: more
  · obtain ⟨tail, htail⟩ := hopened
    rw [← htail] at h
    obtain ⟨body, rest, value, s₁, more', hsplit, hvalue, hdefine, hread⟩ :=
      hr.multiline_of_read hkey h
    refine ⟨value, s₁, more', hdefine, hread, ?_⟩
    rintro rfl
    match value with
    | [] => exact absurd (List.cons.inj (List.cons.inj htail).2).1 (by decide)
    | [c] =>
      obtain ⟨rfl, hsecond⟩ := List.cons.inj htail
      have hline : tail = '\n' :: d :: more := (List.cons.inj hsecond).2
      exact absurd rfl
        (hvalue.ne_quote hquote hbackslash hreturn (hline.symm.trans hsplit))
    | c :: e :: text =>
      obtain ⟨rfl, hsecond⟩ := List.cons.inj htail
      obtain ⟨rfl, hline⟩ := List.cons.inj hsecond
      exact absurd rfl
        (hvalue.ne_of_opened hquote hbackslash hreturn (hline.symm.trans hsplit))
  · obtain ⟨value, rest, s₁, more', hvalue, hdefine, hread⟩ := hr.basic_of_read hkey hopened h
    refine ⟨value, s₁, more', hdefine, hread, ?_⟩
    rintro rfl
    by_contra hplain
    exact absurd (length_lt_of_not_plain hplain hvalue) (Nat.lt_irrefl _)

end Reader

end Toml
