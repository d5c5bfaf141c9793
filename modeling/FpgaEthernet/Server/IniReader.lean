import Mathlib.Data.Char
import Mathlib.Data.List.DropRight
import Mathlib.Data.List.Lex
import FpgaEthernet.Numeric.Strtol

/-!
# INI files

Models of `server/src/ini.cpp`, the parser that hands every `name = value` line
of a file to a handler, and of `server/src/INIReader.cpp`, the handler that keeps
them by section and name.

Main results:

* `fgetsLines_lines`: a text of short lines is read line by line.
* `iniParse_document`: the parser hands the pairs of a document to its handler,
  each with its section.
* `getInteger_pairs`: the integer of a key is that of the first pair that has it.
-/

namespace FpgaEthernet.Server

open Numeric

/-! ## The parser -/

/-- `INI_MAX_LINE` (`ini.h` line 70). -/
def iniMaxLine : ℕ := 200

/-- `MAX_SECTION` and `MAX_NAME` (`ini.cpp` lines 20-21). -/
def maxSection : ℕ := 50

@[inherit_doc maxSection]
def maxName : ℕ := 50

/-- `rstrip` (lines 24-30). -/
def rstrip (s : List Char) : List Char := s.rdropWhile isSpace

/-- `lskip` (lines 33-38). -/
def lskip (s : List Char) : List Char := s.dropWhile isSpace

/-- `find_char_or_comment` (lines 43-51): the text in front of the place found,
    and the text from there on. -/
def findCharOrComment (c : Char) (wasWhitespace : Bool) : List Char → List Char × List Char
  | [] => ([], [])
  | x :: xs =>
    if x = c ∨ (wasWhitespace ∧ x = ';') then ([], x :: xs)
    else ((x :: (findCharOrComment c (isSpace x) xs).1), (findCharOrComment c (isSpace x) xs).2)

/-- `strncpy0` (lines 54-59). -/
def strncpy0 (src : List Char) (size : ℕ) : List Char := src.take (size - 1)

/-- A buffer as a C string: up to the first null. -/
def cString (s : List Char) : List Char := s.takeWhile (· ≠ '\x00')

/-- What `fgets` returns, call by call, until the end of the file; the buffer has
    room for `room` characters more of the line that is being read. -/
def fgetsLines (room : ℕ) : List Char → List (List Char)
  | [] => []
  | c :: cs =>
    if c = '\n' ∨ room ≤ 1 then [c] :: fgetsLines (iniMaxLine - 1) cs
    else
      match fgetsLines (room - 1) cs with
      | [] => [[c]]
      | l :: ls => (c :: l) :: ls

/-- The variables of `ini_parse_file`, and the data of its handler. -/
structure IniState (σ : Type) where
  user : σ
  sectionName : List Char
  prevName : List Char
  lineno : ℕ
  error : ℕ

/-- A handler: it is given the section, the name and the value, and says whether
    it succeeded. -/
abbrev IniHandler (σ : Type) := σ → List Char → List Char → List Char → σ × Bool

variable {σ : Type}

/-- The first error is kept (`if (... && !error) error = lineno`). -/
def IniState.fail (s : IniState σ) : IniState σ :=
  { s with error := if s.error = 0 then s.lineno else s.error }

/-- A call of the handler. -/
def IniState.call (handler : IniHandler σ) (name value : List Char) (s : IniState σ) :
    IniState σ :=
  let r := handler s.user s.sectionName name value
  let s' := { s with user := r.1 }
  if r.2 then s' else s'.fail

/-- The byte-order mark that the first line may start with. -/
def byteOrderMark : List Char := ['\xef', '\xbb', '\xbf']

/-- The value behind an `=` or `:` (lines 137-141): without a comment at its end. -/
def valueOf (rest : List Char) : List Char :=
  rstrip (findCharOrComment '\x00' false (lskip rest)).1

/-- A line that is stripped, and is no comment, continuation or section
    (lines 130-151). -/
def parsePair (handler : IniHandler σ) (start : List Char) (s : IniState σ) : IniState σ :=
  let e := findCharOrComment '=' false start
  let e := if e.2.head? = some '=' then e else findCharOrComment ':' false start
  if e.2.head? = some '=' ∨ e.2.head? = some ':' then
    let name := rstrip e.1
    { s with prevName := strncpy0 name maxName }.call handler name (valueOf e.2.tail)
  else s.fail

/-- A line of the file (lines 92-152). -/
def parseLine (handler : IniHandler σ) (s : IniState σ) (buffer : List Char) : IniState σ :=
  let s := { s with lineno := s.lineno + 1 }
  let line := cString buffer
  let body := if s.lineno = 1 ∧ line.take 3 = byteOrderMark then line.drop 3 else line
  let start := lskip (rstrip body)
  if start.head? = some ';' ∨ start.head? = some '#' then s
  else if s.prevName ≠ [] ∧ start ≠ [] ∧ start.length < (rstrip line).length then
    s.call handler s.prevName start
  else if start.head? = some '[' then
    let e := findCharOrComment ']' false start.tail
    if e.2.head? = some ']' then
      { s with sectionName := strncpy0 e.1 maxSection, prevName := [] }
    else s.fail
  else if start ≠ [] then parsePair handler start s
  else s

/-- `ini_parse_file` (lines 62-165) for a file with this text. -/
def iniParse (handler : IniHandler σ) (user : σ) (text : List Char) : IniState σ :=
  (fgetsLines (iniMaxLine - 1) text).foldl (parseLine handler) ⟨user, [], [], 0, 0⟩

/-! ## The reader -/

/-- One proof for all lookups. -/
instance lawfulBEqText : LawfulBEq (List Char) := List.instLawfulBEq

/-- Insertion into a `std::set<std::string>`: the strings in order, each once. -/
def setInsert (x : List Char) (l : List (List Char)) : List (List Char) :=
  if x ∈ l then l else l.orderedInsert (· ≤ ·) x

/-- `INIReader` (`INIReader.h`): `_values`, `_sections` and `_fields`. -/
structure INIReader where
  values : List Char → Option (List Char)
  sections : List (List Char)
  fields : List Char → List (List Char)

/-- `std::transform(.., ::tolower)`. -/
def toLower (s : List Char) : List Char := s.map Char.toLower

/-- `MakeKey` (lines 81-87). -/
def makeKey (sectionName name : List Char) : List Char := toLower (sectionName ++ '=' :: name)

/-- `ValueHandler` (lines 89-119). -/
def valueHandler : IniHandler INIReader := fun r sectionName name value =>
  let key := makeKey sectionName name
  let old := (r.values key).getD []
  let joined := (if old ≠ [] then old ++ ['\n'] else old) ++ value
  ({ values := Function.update r.values key (some joined)
     sections := setInsert sectionName r.sections
     fields := Function.update r.fields (toLower sectionName)
       (setInsert name (r.fields (toLower sectionName))) }, true)

/-- `Get` (lines 28-32). -/
def INIReader.get (r : INIReader) (sectionName name defaultValue : List Char) : List Char :=
  (r.values (makeKey sectionName name)).getD defaultValue

/-- `GetInteger` (lines 34-42). -/
def INIReader.getInteger (r : INIReader) (sectionName name : List Char) (defaultValue : ℤ) : ℤ :=
  (strtol (r.get sectionName name [])).getD defaultValue

/-- `GetFields` (lines 71-79). -/
def INIReader.getFields (r : INIReader) (sectionName : List Char) : List (List Char) :=
  r.fields (toLower sectionName)

/-- The reader before the first line. -/
def INIReader.empty : INIReader := ⟨fun _ => none, [], fun _ => []⟩

/-! ## Lines -/

/-- The text of some lines. -/
def textOf (ls : List (List Char)) : List Char := ls.flatMap (· ++ ['\n'])

theorem fgetsLines_line {l : List Char} (hl : '\n' ∉ l) {room : ℕ} (h : l.length < room)
    (cs : List Char) :
    fgetsLines room (l ++ '\n' :: cs) = (l ++ ['\n']) :: fgetsLines (iniMaxLine - 1) cs := by
  induction l generalizing room with
  | nil => simp [fgetsLines]
  | cons c l ih =>
    have hc : ¬(c = '\n' ∨ room ≤ 1) := by
      rintro (rfl | hroom)
      · exact hl List.mem_cons_self
      · simp only [List.length_cons] at h
        omega
    have hlen : l.length < room - 1 := by
      simp only [List.length_cons] at h
      omega
    have hrest := ih (fun hmem => hl (List.mem_cons_of_mem c hmem)) hlen
    simp only [List.cons_append, fgetsLines, if_neg hc, hrest]

/-- A text of lines that fit into the buffer is read line by line. -/
theorem fgetsLines_lines {ls : List (List Char)}
    (h : ∀ l ∈ ls, '\n' ∉ l ∧ l.length < iniMaxLine - 1) :
    fgetsLines (iniMaxLine - 1) (textOf ls) = ls.map (· ++ ['\n']) := by
  induction ls with
  | nil => rfl
  | cons l ls ih =>
    obtain ⟨hl, hlen⟩ := h l List.mem_cons_self
    rw [textOf, List.flatMap_cons, List.append_assoc, List.singleton_append,
      fgetsLines_line hl hlen, List.map_cons]
    exact congrArg _ (ih fun l' hl' => h l' (List.mem_cons_of_mem l hl'))

/-! ## Words -/

/-- The characters of names and numbers. -/
def isWordChar (c : Char) : Bool := (digitVal c).isSome || c = '_'

/-- A name or a number: no spaces, and nothing that the parser looks for. -/
def IsWord (s : List Char) : Prop := s ≠ [] ∧ ∀ c ∈ s, isWordChar c

instance (s : List Char) : Decidable (IsWord s) :=
  decidable_of_iff (s ≠ [] ∧ s.all isWordChar = true) (by rw [IsWord, List.all_eq_true])

theorem isSpace_of_isWordChar {c : Char} (h : isWordChar c) : isSpace c = false := by
  by_contra hspace
  simp only [isSpace, Bool.not_eq_false, Bool.or_eq_true, decide_eq_true_eq] at hspace
  obtain ((((rfl | rfl) | rfl) | rfl) | rfl) | rfl := hspace <;> exact absurd h (by decide)

theorem IsWord.not_mem {s : List Char} (h : IsWord s) {c : Char} (hc : isWordChar c = false) :
    c ∉ s := by
  intro hmem
  rw [h.2 c hmem] at hc
  exact absurd hc (by decide)

theorem rstrip_append_of_isWord {s : List Char} (h : IsWord s) (t : List Char) :
    rstrip (t ++ s) = t ++ s := by
  refine List.rdropWhile_eq_self_iff.2 fun hne => ?_
  rw [List.getLast_append_of_ne_nil hne h.1, isSpace_of_isWordChar (h.2 _ (List.getLast_mem h.1))]
  exact Bool.false_ne_true

theorem rstrip_isWord {s : List Char} (h : IsWord s) : rstrip s = s :=
  rstrip_append_of_isWord h []

theorem lskip_of_head {c : Char} (hc : isSpace c = false) (s : List Char) :
    lskip (c :: s) = c :: s :=
  List.dropWhile_cons_of_neg (by simp [hc])

theorem lskip_isWord_append {s : List Char} (h : IsWord s) (t : List Char) :
    lskip (s ++ t) = s ++ t := by
  obtain ⟨hne, hchars⟩ := h
  cases s with
  | nil => exact absurd rfl hne
  | cons c s => exact lskip_of_head (isSpace_of_isWordChar (hchars c List.mem_cons_self)) _

theorem rstrip_concat {c : Char} (hc : isSpace c = true) (s : List Char) :
    rstrip (s ++ [c]) = rstrip s :=
  List.rdropWhile_concat_pos _ _ _ hc

theorem rstrip_cons {c : Char} (hc : isSpace c = false) (s : List Char) :
    ∃ t, rstrip (c :: s) = c :: t := by
  induction s using List.reverseRecOn with
  | nil => exact ⟨[], by simp [rstrip, List.rdropWhile_singleton, hc]⟩
  | append_singleton s x ih =>
    rw [← List.cons_append]
    rcases Bool.eq_false_or_eq_true (isSpace x) with hx | hx
    · rw [rstrip_concat hx]
      exact ih
    · refine ⟨s ++ [x], ?_⟩
      rw [rstrip, List.rdropWhile_concat_neg _ _ _ (by simp [hx]), List.cons_append]

theorem findCharOrComment_append {c : Char} {l : List Char} (h : ∀ x ∈ l, x ≠ c ∧ x ≠ ';')
    (ws : Bool) (r : List Char) : findCharOrComment c ws (l ++ c :: r) = (l, c :: r) := by
  induction l generalizing ws with
  | nil => simp [findCharOrComment]
  | cons x l ih =>
    obtain ⟨hx, hsemi⟩ := h x List.mem_cons_self
    have hrest := ih (fun y hy => h y (List.mem_cons_of_mem x hy)) (isSpace x)
    rw [List.cons_append, findCharOrComment, if_neg (by simp [hx, hsemi]), hrest]

theorem findCharOrComment_none {c : Char} {l : List Char} (h : ∀ x ∈ l, x ≠ c ∧ x ≠ ';')
    (ws : Bool) : findCharOrComment c ws l = (l, []) := by
  induction l generalizing ws with
  | nil => rfl
  | cons x l ih =>
    obtain ⟨hx, hsemi⟩ := h x List.mem_cons_self
    have hrest := ih (fun y hy => h y (List.mem_cons_of_mem x hy)) (isSpace x)
    rw [findCharOrComment, if_neg (by simp [hx, hsemi]), hrest]

theorem valueOf_isWord {v : List Char} (h : IsWord v) : valueOf (' ' :: v) = v := by
  have hskip : lskip (' ' :: v) = v := by
    have := lskip_isWord_append h []
    rw [List.append_nil] at this
    rw [lskip, List.dropWhile_cons_of_pos (by decide)]
    exact this
  rw [valueOf, hskip, findCharOrComment_none, rstrip_isWord h]
  intro x hx
  constructor
  · rintro rfl
    exact h.not_mem (by decide) hx
  · rintro rfl
    exact h.not_mem (by decide) hx

/-! ## Documents -/

/-- A line of a document: the start of a section, a comment, or a pair. -/
inductive IniLine where
  | sectionStart (name : List Char)
  | comment (text : List Char)
  | pair (name value : List Char)

/-- A line as it stands in the file. -/
def IniLine.text : IniLine → List Char
  | sectionStart name => '[' :: (name ++ [']'])
  | comment text => ';' :: text
  | pair name value => name ++ (' ' :: '=' :: ' ' :: value)

/-- The lines that are read as what they are: made of words, and short enough for
    the buffers of the parser. -/
def IniLine.Clean : IniLine → Prop
  | sectionStart name => IsWord name ∧ name.length < maxSection
  | comment text => '\n' ∉ text ∧ text.length < iniMaxLine - 2
  | pair name value => IsWord name ∧ IsWord value ∧ name.length < maxName ∧
      value.length < iniMaxLine - maxName - 4

/-- A pair with the section it stands in. -/
structure IniPair where
  sectionName : List Char
  name : List Char
  value : List Char

/-- The pairs of a document, the section of its first lines being `sec`. -/
def pairsOf (sec : List Char) : List IniLine → List IniPair
  | [] => []
  | .sectionStart name :: ls => pairsOf name ls
  | .comment _ :: ls => pairsOf sec ls
  | .pair name value :: ls => ⟨sec, name, value⟩ :: pairsOf sec ls

/-- A handler is given a pair. -/
def giveTo (handler : IniHandler σ) (u : σ) (p : IniPair) : σ :=
  (handler u p.sectionName p.name p.value).1

theorem IniLine.Clean.line {l : IniLine} (h : l.Clean) :
    '\n' ∉ l.text ∧ l.text.length < iniMaxLine - 1 := by
  cases l with
  | sectionStart name =>
    obtain ⟨hword, hlen⟩ := h
    have hmem := hword.not_mem (c := '\n') (by decide)
    constructor
    · simpa [IniLine.text] using hmem
    · simp only [maxSection] at hlen
      simp only [IniLine.text, List.length_cons, List.length_append, List.length_nil, iniMaxLine]
      omega
  | comment text =>
    obtain ⟨hmem, hlen⟩ := h
    constructor
    · simpa [IniLine.text] using hmem
    · simp only [iniMaxLine] at hlen
      simp only [IniLine.text, List.length_cons, iniMaxLine]
      omega
  | pair name value =>
    obtain ⟨hname, hvalue, hlen, hlen'⟩ := h
    have hn := hname.not_mem (c := '\n') (by decide)
    have hv := hvalue.not_mem (c := '\n') (by decide)
    constructor
    · simp [IniLine.text, hn, hv]
    · simp only [iniMaxLine, maxName] at hlen hlen'
      simp only [IniLine.text, List.length_cons, List.length_append, iniMaxLine]
      omega

theorem cString_eq {s : List Char} (h : '\x00' ∉ s) : cString s = s := by
  refine List.takeWhile_eq_self_iff.2 fun c hc => ?_
  simp only [ne_eq, decide_not, Bool.not_eq_true', decide_eq_false_iff_not]
  rintro rfl
  exact h hc

variable {handler : IniHandler σ}

theorem parseLine_comment (s : IniState σ) (t : List Char) :
    parseLine handler s (';' :: t) = { s with lineno := s.lineno + 1 } := by
  have hline : cString (';' :: t) = ';' :: cString t := List.takeWhile_cons_of_pos (by decide)
  have hmark : (';' :: cString t).take 3 ≠ byteOrderMark := by
    intro h
    exact absurd (congrArg List.head? h) (by simp [byteOrderMark])
  obtain ⟨u, hu⟩ := rstrip_cons (c := ';') (by decide) (cString t)
  have hskip := lskip_of_head (c := ';') (by decide) u
  simp only [parseLine, hline, hmark, and_false, if_false, hu, hskip, List.head?_cons, true_or,
    if_true]

/-- A line that starts and ends with no space, and is neither a comment nor a
    continuation, is a section or a pair. -/
theorem parseLine_stripped {c : Char} {l : List Char} (hc : isWordChar c ∨ c = '[')
    (hnull : '\x00' ∉ c :: l) (hstrip : rstrip (c :: l) = c :: l) (s : IniState σ) :
    parseLine handler s (c :: l ++ ['\n']) =
      (let s := { s with lineno := s.lineno + 1 }
      if c = '[' then
        let e := findCharOrComment ']' false l
        if e.2.head? = some ']' then
          { s with sectionName := strncpy0 e.1 maxSection, prevName := [] }
        else s.fail
      else parsePair handler (c :: l) s) := by
  have hspace : isSpace c = false := by
    rcases hc with hc | rfl
    · exact isSpace_of_isWordChar hc
    · decide
  have hother : ∀ x : Char, isWordChar x = false → x ≠ '[' → c ≠ x := by
    rintro x hx hne rfl
    rcases hc with hc | hc
    · rw [hx] at hc
      exact absurd hc (by decide)
    · exact hne hc
  have hline : cString (c :: l ++ ['\n']) = c :: l ++ ['\n'] := by
    apply cString_eq
    simpa using hnull
  have hmark : (c :: l ++ ['\n']).take 3 ≠ byteOrderMark := by
    intro h
    have hhead := congrArg List.head? h
    simp only [List.cons_append, List.take_succ_cons, List.head?_cons, byteOrderMark,
      Option.some.injEq] at hhead
    exact hother '\xef' (by decide) (by decide) hhead
  have hbody : rstrip (c :: l ++ ['\n']) = c :: l := by
    rw [rstrip_concat (by decide), hstrip]
  have hstart := lskip_of_head hspace l
  have hsemi := hother ';' (by decide) (by decide)
  have hhash := hother '#' (by decide) (by decide)
  simp only [parseLine, hline, hmark, and_false, if_false, hbody, hstart, List.head?_cons,
    Option.some.injEq, hsemi, hhash, or_self, lt_irrefl, List.tail_cons, ne_eq, reduceCtorEq,
    not_false_eq_true, if_true]

theorem parseLine_section {name : List Char} (h : (IniLine.sectionStart name).Clean)
    (s : IniState σ) :
    parseLine handler s ((IniLine.sectionStart name).text ++ ['\n']) =
      { s with lineno := s.lineno + 1, sectionName := name, prevName := [] } := by
  obtain ⟨hword, hlen⟩ := h
  have hnull := hword.not_mem (c := '\x00') (by decide)
  have hstrip : rstrip ('[' :: (name ++ [']'])) = '[' :: (name ++ [']']) := by
    rw [← List.cons_append, rstrip, List.rdropWhile_concat_neg _ _ _ (by decide)]
  have hfind : findCharOrComment ']' false (name ++ [']']) = (name, [']']) := by
    refine findCharOrComment_append (fun x hx => ⟨?_, ?_⟩) false []
    · rintro rfl
      exact hword.not_mem (by decide) hx
    · rintro rfl
      exact hword.not_mem (by decide) hx
  have hcopy : strncpy0 name maxSection = name := by
    apply List.take_of_length_le
    omega
  rw [IniLine.text, parseLine_stripped (Or.inr rfl) (by simpa using hnull) hstrip]
  simp only [hfind, hcopy, List.head?_cons, if_true]

theorem parseLine_pair {name value : List Char} (h : (IniLine.pair name value).Clean)
    (s : IniState σ) :
    parseLine handler s ((IniLine.pair name value).text ++ ['\n']) =
      { s with lineno := s.lineno + 1, prevName := name }.call handler name value := by
  obtain ⟨hname, hvalue, hlen, -⟩ := h
  have hstrip : rstrip (name ++ (' ' :: '=' :: ' ' :: value)) =
      name ++ (' ' :: '=' :: ' ' :: value) := by
    have := rstrip_append_of_isWord hvalue (name ++ [' ', '=', ' '])
    simpa using this
  have hfind : findCharOrComment '=' false (name ++ (' ' :: '=' :: ' ' :: value)) =
      (name ++ [' '], '=' :: ' ' :: value) := by
    have := findCharOrComment_append (c := '=') (l := name ++ [' ']) (fun x hx => ?_) false
      (' ' :: value)
    · simpa using this
    · rcases List.mem_append.1 hx with hx | hx
      · constructor
        · rintro rfl
          exact hname.not_mem (by decide) hx
        · rintro rfl
          exact hname.not_mem (by decide) hx
      · rw [List.mem_singleton.1 hx]
        decide
  have hnull : '\x00' ∉ name ++ (' ' :: '=' :: ' ' :: value) := by
    have hn := hname.not_mem (c := '\x00') (by decide)
    have hv := hvalue.not_mem (c := '\x00') (by decide)
    simp [hn, hv]
  have hcopy : strncpy0 name maxName = name := by
    apply List.take_of_length_le
    omega
  have hpair : ∀ s : IniState σ, parsePair handler (name ++ (' ' :: '=' :: ' ' :: value)) s =
      { s with prevName := name }.call handler name value := by
    intro s
    simp only [parsePair, hfind, List.head?_cons, true_or, if_true, List.tail_cons,
      valueOf_isWord hvalue, rstrip_concat (show isSpace ' ' = true by decide),
      rstrip_isWord hname, hcopy]
  obtain ⟨c, l, rfl⟩ := List.exists_cons_of_ne_nil hname.1
  have hc : isWordChar c := hname.2 c List.mem_cons_self
  have hbracket : c ≠ '[' := by
    rintro rfl
    exact absurd hc (by decide)
  rw [List.cons_append] at hstrip hnull hpair
  rw [IniLine.text, List.cons_append, parseLine_stripped (Or.inl hc) hnull hstrip]
  simp only [hbracket, if_false, hpair]

/-- The lines of a document give the handler its pairs, and no error. -/
theorem foldl_parseLine (hok : ∀ u a b c, (handler u a b c).2 = true) {ls : List IniLine}
    (h : ∀ l ∈ ls, l.Clean) (s : IniState σ) :
    ((ls.map fun l => l.text ++ ['\n']).foldl (parseLine handler) s).user =
        (pairsOf s.sectionName ls).foldl (giveTo handler) s.user ∧
      ((ls.map fun l => l.text ++ ['\n']).foldl (parseLine handler) s).error = s.error := by
  induction ls generalizing s with
  | nil => exact ⟨rfl, rfl⟩
  | cons l ls ih =>
    have hl := h l List.mem_cons_self
    have hrest := ih fun l' hl' => h l' (List.mem_cons_of_mem l hl')
    rw [List.map_cons, List.foldl_cons]
    cases l with
    | sectionStart name =>
      rw [parseLine_section hl]
      exact hrest _
    | comment text =>
      rw [IniLine.text, List.cons_append, parseLine_comment]
      exact hrest _
    | pair name value =>
      rw [parseLine_pair hl, IniState.call]
      simp only [hok, if_true]
      exact hrest _

/-- A document is read as its pairs. -/
theorem iniParse_document (hok : ∀ u a b c, (handler u a b c).2 = true) {ls : List IniLine}
    (h : ∀ l ∈ ls, l.Clean) (u : σ) :
    (iniParse handler u (textOf (ls.map IniLine.text))).user =
        (pairsOf [] ls).foldl (giveTo handler) u ∧
      (iniParse handler u (textOf (ls.map IniLine.text))).error = 0 := by
  have hlines : ∀ l ∈ ls.map IniLine.text, '\n' ∉ l ∧ l.length < iniMaxLine - 1 := by
    intro t ht
    obtain ⟨l, hl, rfl⟩ := List.mem_map.1 ht
    exact (h l hl).line
  have hrun := foldl_parseLine hok h ⟨u, [], [], 0, 0⟩
  rw [iniParse, fgetsLines_lines hlines, List.map_map]
  exact hrun

/-! ## The pairs in the reader -/

/-- The key of a pair. -/
def IniPair.key (p : IniPair) : List Char := makeKey p.sectionName p.name

/-- A value under a key that holds `old`: repeated keys are joined by a newline. -/
def joinValue (old : Option (List Char)) (value : List Char) : Option (List Char) :=
  some ((if old.getD [] ≠ [] then old.getD [] ++ ['\n'] else old.getD []) ++ value)

variable {ps : List IniPair} {r : INIReader}

theorem values_foldl (k : List Char) :
    (ps.foldl (giveTo valueHandler) r).values k =
      ((ps.filter fun p => p.key = k).map IniPair.value).foldl joinValue (r.values k) := by
  induction ps generalizing r with
  | nil => rfl
  | cons p ps ih =>
    rw [List.foldl_cons, ih]
    by_cases hk : p.key = k
    · subst hk
      rw [List.filter_cons_of_pos (by simp), List.map_cons, List.foldl_cons]
      congr 1
      exact Function.update_self ..
    · rw [List.filter_cons_of_neg (by simpa using hk)]
      congr 1
      exact Function.update_of_ne (Ne.symm hk) ..

theorem mem_setInsert {x y : List Char} {l : List (List Char)} :
    y ∈ setInsert x l ↔ y = x ∨ y ∈ l := by
  unfold setInsert
  split
  · next hx =>
    constructor
    · exact Or.inr
    · rintro (rfl | hy)
      · exact hx
      · exact hy
  · exact List.mem_orderedInsert _

theorem mem_sections_foldl {x : List Char} :
    x ∈ (ps.foldl (giveTo valueHandler) r).sections ↔
      x ∈ r.sections ∨ ∃ p ∈ ps, p.sectionName = x := by
  induction ps generalizing r with
  | nil => simp
  | cons p ps ih =>
    have hstep : x ∈ (giveTo valueHandler r p).sections ↔ x = p.sectionName ∨ x ∈ r.sections :=
      mem_setInsert
    rw [List.foldl_cons, ih, hstep, List.exists_mem_cons_iff]
    tauto

theorem mem_fields_foldl {k x : List Char} :
    x ∈ (ps.foldl (giveTo valueHandler) r).fields k ↔
      x ∈ r.fields k ∨ ∃ p ∈ ps, toLower p.sectionName = k ∧ p.name = x := by
  induction ps generalizing r with
  | nil => simp
  | cons p ps ih =>
    have hstep : x ∈ (giveTo valueHandler r p).fields k ↔
        (toLower p.sectionName = k ∧ p.name = x) ∨ x ∈ r.fields k := by
      show x ∈ Function.update r.fields (toLower p.sectionName) _ k ↔ _
      by_cases hk : toLower p.sectionName = k
      · subst hk
        rw [Function.update_self, mem_setInsert]
        simp [eq_comm]
      · rw [Function.update_of_ne (Ne.symm hk)]
        simp [hk]
    rw [List.foldl_cons, ih, hstep, List.exists_mem_cons_iff]
    tauto

/-- Values joined to a first one stand behind a newline. -/
theorem joined_values {v : List Char} (hv : v ≠ []) (vs : List (List Char)) :
    ∃ t, vs.foldl joinValue (some v) = some (v ++ t) ∧ Stops t := by
  have hmore : ∀ (vs : List (List Char)) (t : List Char), Stops t →
      ∃ t', vs.foldl joinValue (some (v ++ t)) = some (v ++ t') ∧ Stops t' := by
    intro vs
    induction vs with
    | nil => exact fun t ht => ⟨t, rfl, ht⟩
    | cons w vs ih =>
      intro t ht
      have hjoin : joinValue (some (v ++ t)) w = some (v ++ (t ++ '\n' :: w)) := by
        simp [joinValue, hv]
      have hstops : Stops (t ++ '\n' :: w) := by
        cases t with
        | nil => rfl
        | cons c t => exact ht
      rw [List.foldl_cons, hjoin]
      exact ih _ hstops
  have := hmore vs [] rfl
  rwa [List.append_nil] at this

/-- The integer of a key is that of the first pair that has it. -/
theorem getInteger_pairs {sec name : List Char} {p : IniPair}
    (hp : ps.find? (fun p => p.key = makeKey sec name) = some p) {n : ℕ} (hn : n < 2 ^ 63)
    (hvalue : p.value = showHex n) :
    (ps.foldl (giveTo valueHandler) .empty).getInteger sec name 0 = n := by
  obtain ⟨t, ht, hstops⟩ := joined_values (showHex_ne_nil n)
    (((ps.filter fun p => p.key = makeKey sec name).map IniPair.value).tail)
  have hfirst : (ps.filter fun p => p.key = makeKey sec name).head? = some p := by
    rw [List.head?_filter]
    exact hp
  obtain ⟨qs, hqs⟩ := List.head?_eq_some_iff.1 hfirst
  have hval : (ps.foldl (giveTo valueHandler) .empty).values (makeKey sec name) =
      some (showHex n ++ t) := by
    rw [values_foldl, ← ht, hqs, List.map_cons, List.foldl_cons, List.tail_cons, hvalue]
    rfl
  rw [INIReader.getInteger, INIReader.get, hval, Option.getD_some, strtol_showHex hn hstops]
  rfl

end FpgaEthernet.Server
