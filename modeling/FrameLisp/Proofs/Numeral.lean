import FrameLisp.Setting
import Mathlib.Data.List.DropRight
import Mathlib.Data.Nat.Digits.Defs
import Mathlib.Tactic.Common

/-!
How settings are read. A numeral is an optional sign and digits of any script, in groups with an
underscore between each and the next, and stands for the number that its digits have by their
places; `Setting.Answers` has one rule for each kind of text that a setting can have. Reading
follows these rules, and so a positive number is read from each of its spellings
(`Setting.read_follows_rules`).
-/
namespace FrameLisp

namespace Text

/-! ## White space around a text -/

/-- What is left of a text without the white space at its ends. -/
structure Strips (text core : List Char) : Prop where
  around : ∃ before after, text = before ++ core ++ after ∧ ∀ c ∈ before ++ after, isBlank c = true
  first : ∀ c ∈ core.head?, isBlank c = false
  last : ∀ c ∈ core.getLast?, isBlank c = false

theorem strips_trim (text : List Char) : Strips text (trim text) := by
  have split : text = text.takeWhile isBlank ++ trim text ++
      (text.dropWhile isBlank).rtakeWhile isBlank := by
    rw [List.append_assoc]
    show text = _ ++ ((text.dropWhile isBlank).rdropWhile isBlank ++ _)
    rw [List.rdropWhile_append_rtakeWhile, List.takeWhile_append_dropWhile]
  refine ⟨⟨_, _, split, ?_⟩, ?_, ?_⟩
  · intro c member
    rcases List.mem_append.mp member with member | member
    · exact List.mem_takeWhile_imp member
    · exact List.mem_rtakeWhile_imp member
  · intro c first
    obtain ⟨rest, whole⟩ : trim text <+: text.dropWhile isBlank := List.rdropWhile_prefix ..
    have first : (text.dropWhile isBlank).head? = some c := by
      rw [← whole, List.head?_append, Option.mem_def.mp first, Option.some_or]
    have ends := List.head?_dropWhile_not isBlank text
    rwa [first] at ends
  · intro c last
    have first : ((text.dropWhile isBlank).reverse.dropWhile isBlank).head? = some c := by
      rw [← List.getLast?_reverse]
      exact last
    have ends := List.head?_dropWhile_not isBlank (text.dropWhile isBlank).reverse
    rwa [first] at ends

/-- Dropping ends with the white space. -/
private theorem dropWhile_blank {before core : List Char} (blank : ∀ c ∈ before, isBlank c = true)
    (first : ∀ c ∈ core.head?, isBlank c = false) : (before ++ core).dropWhile isBlank = core := by
  rw [List.dropWhile_append_of_pos blank]
  cases core with
  | nil => rfl
  | cons c rest => exact List.dropWhile_cons_of_neg (by simp [first c rfl])

theorem Strips.trim_eq {text core : List Char} (strips : Strips text core) : trim text = core := by
  obtain ⟨⟨before, after, rfl, blank⟩, first, last⟩ := strips
  obtain ⟨blankBefore, blankAfter⟩ := List.forall_mem_append.mp blank
  have back : (core ++ after).reverse.dropWhile isBlank = core.reverse := by
    rw [List.reverse_append]
    exact dropWhile_blank (by simpa using blankAfter) (by simpa using last)
  unfold trim
  cases core with
  | nil =>
    have nothing : after.dropWhile isBlank = [] := List.dropWhile_eq_nil_iff.mpr blankAfter
    rw [List.append_nil, List.dropWhile_append_of_pos blankBefore, nothing]
    rfl
  | cons c rest =>
    rw [List.append_assoc, dropWhile_blank blankBefore (by simpa using first), back,
      List.reverse_reverse]

/-! ## Digits -/

/-- Neither the separator nor a sign is a digit. -/
theorem not_mark_of_digitValue? {c : Char} {d : Nat} (digit : digitValue? c = some d) :
    c ≠ '_' ∧ c ≠ '-' ∧ c ≠ '+' := by
  refine ⟨?_, ?_, ?_⟩ <;> rintro rfl <;> cases digit

theorem digitValue?_of_isDigit {c : Char} (digit : c.isDigit = true) :
    digitValue? c = some (c.toNat - '0'.toNat) := by
  obtain ⟨low, high⟩ := Char.isDigit_iff_toNat.mp digit
  have range : 0x30 ≤ c.toNat ∧ c.toNat < 0x30 + 10 := ⟨low, Nat.lt_succ_of_le high⟩
  simp only [digitValue?, digitZeros, List.find?_cons, decide_eq_true range]
  rfl

theorem isBlank_of_isDigit {c : Char} (digit : c.isDigit = true) : isBlank c = false := by
  obtain ⟨low, high⟩ := Char.isDigit_iff_toNat.mp digit
  have low : 48 ≤ c.toNat := low
  have high : c.toNat ≤ 57 := high
  simp only [isBlank]
  grind

end Text

namespace Setting

/-! ## Numerals -/

/-- Digits in writing, in groups with an underscore between each and the next. -/
def Grouped (text : List Char) (digits : List Nat) : Prop :=
  ∃ groups : List (List Char), groups ≠ [] ∧ (∀ group ∈ groups, group ≠ []) ∧
    text = ['_'].intercalate groups ∧ groups.flatten.map Text.digitValue? = digits.map some

/-- A numeral, with the integer that it stands for. There is a limit to the number of digits. -/
inductive Numeral : List Char → Int → Prop
  | unsigned {text : List Char} {digits : List Nat} (written : Grouped text digits)
      (short : digits.length ≤ Number.digitLimit) :
      Numeral text (Nat.ofDigits 10 digits.reverse : Nat)
  | plus {text : List Char} {digits : List Nat} (written : Grouped text digits)
      (short : digits.length ≤ Number.digitLimit) :
      Numeral ('+' :: text) (Nat.ofDigits 10 digits.reverse : Nat)
  | minus {text : List Char} {digits : List Nat} (written : Grouped text digits)
      (short : digits.length ≤ Number.digitLimit) :
      Numeral ('-' :: text) (-(Nat.ofDigits 10 digits.reverse : Nat))

/-- What a setting yields, by one rule for each kind of text that it can have. -/
inductive Answers (setting : String) (default : Option Int) :
    Option String → Except Fault (Option Int) → Prop
  | unset : Answers setting default none (.ok default)
  | blank {text : String} (strips : Text.Strips text.toList []) :
      Answers setting default (some text) (.ok default)
  | positive {text : String} {core : List Char} {n : Int} (strips : Text.Strips text.toList core)
      (numeral : Numeral core n) (positive : 0 < n) :
      Answers setting default (some text) (.ok (some n))
  | notPositive {text : String} {core : List Char} {n : Int}
      (strips : Text.Strips text.toList core) (numeral : Numeral core n) (negligible : n ≤ 0) :
      Answers setting default (some text) (.error (.settingNotPositive setting n))
  | notInteger {text : String} {core : List Char} (strips : Text.Strips text.toList core)
      (written : core ≠ []) (other : ∀ n, ¬ Numeral core n) :
      Answers setting default (some text) (.error (.settingNotInteger setting text))

/-! ## Reading numerals -/

section
variable {text rest : List Char} {digits : List Nat} {c : Char} {d : Nat} {n : Int}

theorem ofDigits_eq (digits : List Nat) : ofDigits digits = Nat.ofDigits 10 digits.reverse := by
  rw [Nat.ofDigits_eq_foldr, List.foldr_reverse]
  unfold ofDigits
  congr 1
  funext total d
  simp only [Nat.cast_id]
  omega

theorem ofDigits_map (chars : List Char) :
    ofDigits (chars.map fun c => c.toNat - '0'.toNat) = Nat.ofDigitChars 10 chars 0 := by
  rw [ofDigits, List.foldl_map, Nat.ofDigitChars_eq_foldl]
  congr 1
  funext total c
  omega

theorem grouped_singleton (digit : Text.digitValue? c = some d) : Grouped [c] [d] :=
  ⟨[[c]], by simp, by simp, by simp, by simp [digit]⟩

theorem Grouped.cons (digit : Text.digitValue? c = some d) (later : Grouped rest digits) :
    Grouped (c :: rest) (d :: digits) := by
  obtain ⟨groups, some, nonEmpty, rfl, values⟩ := later
  cases groups with
  | nil => exact absurd rfl some
  | cons group groups =>
    refine ⟨(c :: group) :: groups, by simp, ?_, ?_, ?_⟩
    · simpa using fun g member => nonEmpty g (List.mem_cons_of_mem _ member)
    · cases groups <;> simp
    · simpa [digit] using values

theorem Grouped.cons_underscore (digit : Text.digitValue? c = some d)
    (later : Grouped rest digits) : Grouped (c :: '_' :: rest) (d :: digits) := by
  obtain ⟨groups, some, nonEmpty, rfl, values⟩ := later
  refine ⟨[c] :: groups, by simp, ?_, ?_, ?_⟩
  · simpa using nonEmpty
  · cases groups with
    | nil => exact absurd rfl some
    | cons group groups => simp
  · simpa [digit] using values

theorem grouped_of_readDigits? (read : readDigits? text = some digits) : Grouped text digits := by
  fun_induction readDigits? text generalizing digits with
  | case1 => cases read
  | case2 c =>
    obtain ⟨d, digit, rfl⟩ := Option.map_eq_some_iff.mp read
    exact grouped_singleton digit
  | case3 c rest d digits' later digit ih =>
    cases read
    exact (ih later).cons_underscore digit
  | case4 => cases read
  | case5 c rest _ _ d digits' later digit ih =>
    cases read
    exact (ih later).cons digit
  | case6 => cases read

/-- Digits in writing begin with a digit, which is the last one, or has more of them behind it, at
    once or after an underscore. -/
theorem Grouped.exists_first (written : Grouped text digits) :
    ∃ c tail d others, text = c :: tail ∧ digits = d :: others ∧ Text.digitValue? c = some d ∧
      (tail = [] ∧ others = [] ∨
        ∃ rest, Grouped rest others ∧ (tail = rest ∨ tail = '_' :: rest)) := by
  obtain ⟨groups, some, nonEmpty, rfl, values⟩ := written
  match groups, nonEmpty with
  | [], _ => exact absurd rfl some
  | [] :: _, nonEmpty => exact absurd rfl (nonEmpty [] List.mem_cons_self)
  | (c :: group) :: groups, nonEmpty =>
    obtain ⟨d, others, rfl, digit, values⟩ : ∃ d others, digits = d :: others ∧
        Text.digitValue? c = .some d ∧
        (group ++ groups.flatten).map Text.digitValue? = others.map .some := by
      cases digits with
      | nil => simp at values
      | cons d others => exact ⟨d, others, rfl, by simpa using values⟩
    have nonEmpty := fun g member => nonEmpty g (List.mem_cons_of_mem _ member)
    match group, groups with
    | [], [] =>
      have nothing : others = [] := by simpa using values.symm
      exact ⟨c, [], d, others, by simp, rfl, digit, .inl ⟨rfl, nothing⟩⟩
    | [], next :: groups =>
      have later : Grouped (['_'].intercalate (next :: groups)) others :=
        ⟨next :: groups, by simp, nonEmpty, rfl, values⟩
      exact ⟨c, _, d, others, by simp, rfl, digit, .inr ⟨_, later, .inr rfl⟩⟩
    | c' :: group, groups =>
      have later : Grouped (['_'].intercalate ((c' :: group) :: groups)) others :=
        ⟨(c' :: group) :: groups, by simp, List.forall_mem_cons.mpr ⟨by simp, nonEmpty⟩, rfl,
          values⟩
      exact ⟨c, _, d, others, by cases groups <;> simp, rfl, digit, .inr ⟨_, later, .inl rfl⟩⟩

theorem readDigits?_cons (digit : Text.digitValue? c = some d)
    (later : readDigits? rest = some digits) : readDigits? (c :: rest) = some (d :: digits) := by
  -- What follows begins with a digit and not with an underscore that would be left out.
  obtain ⟨c', tail, _, _, rfl, _, first, _⟩ := (grouped_of_readDigits? later).exists_first
  have apart := (Text.not_mark_of_digitValue? first).1
  rw [readDigits?, digit, later]
  · exact nofun
  · exact fun _ same => apart (List.cons.inj same).1

theorem readDigits?_eq_some_iff : readDigits? text = some digits ↔ Grouped text digits := by
  refine ⟨grouped_of_readDigits?, fun written => ?_⟩
  induction digits generalizing text with
  | nil =>
    obtain ⟨_, _, _, _, _, same, _⟩ := written.exists_first
    cases same
  | cons d digits ih =>
    obtain ⟨c, _, _, _, rfl, same, digit, ⟨rfl, rfl⟩ | ⟨rest, later, rfl | rfl⟩⟩ :=
      written.exists_first <;> cases same
    · simp [readDigits?, digit]
    · exact readDigits?_cons digit (ih later)
    · rw [readDigits?, digit, ih later]

theorem numeral_of_readInt? (read : readInt? text = some n) : Numeral text n := by
  unfold readInt? at read
  split at read
  rename_i negative rest split
  split at read
  · cases read
  rename_i digits found
  have written := readDigits?_eq_some_iff.mp found
  split at read <;> cases read
  rename_i short
  rw [ofDigits_eq]
  unfold Text.splitSign at split
  split at split <;> cases split
  · exact .minus written short
  · exact .plus written short
  · exact .unsigned written short

/-- Digits in writing begin with no sign. -/
theorem Grouped.splitSign_eq (written : Grouped text digits) :
    Text.splitSign text = (false, text) := by
  obtain ⟨c, tail, _, _, rfl, _, digit, _⟩ := written.exists_first
  simp [Text.splitSign, Text.not_mark_of_digitValue? digit]

theorem readInt?_eq_some_iff : readInt? text = some n ↔ Numeral text n := by
  refine ⟨numeral_of_readInt?, fun numeral => ?_⟩
  cases numeral with
  | unsigned written short =>
    rw [readInt?, written.splitSign_eq]
    simp [readDigits?_eq_some_iff.mpr written, short, ofDigits_eq]
  | plus written short =>
    simp [readInt?, Text.splitSign, readDigits?_eq_some_iff.mpr written, short, ofDigits_eq]
  | minus written short =>
    simp [readInt?, Text.splitSign, readDigits?_eq_some_iff.mpr written, short, ofDigits_eq]

theorem Numeral.ne_nil (numeral : Numeral text n) : text ≠ [] := by
  cases numeral with
  | unsigned written _ =>
    obtain ⟨c, tail, _, _, rfl, _⟩ := written.exists_first
    simp
  | plus => simp
  | minus => simp

end

/-! ## Reading settings -/

section
variable {setting text : String} {default : Option Int} {raw : Option String} {core : List Char}
  {n : Int}

theorem read_of_written (setting : String) (default : Option Int)
    (strips : Text.Strips text.toList core) (written : core ≠ []) :
    read setting default (some text) =
      match readInt? core with
      | none => .error (.settingNotInteger setting text)
      | some n => if 0 < n then .ok (some n) else .error (.settingNotPositive setting n) := by
  cases core with
  | nil => exact absurd rfl written
  | cons c rest => cases found : readInt? (c :: rest) <;> simp only [read, strips.trim_eq, found]

theorem read_of_blank (setting : String) (default : Option Int)
    (strips : Text.Strips text.toList []) : read setting default (some text) = .ok default := by
  simp only [read, strips.trim_eq]

theorem read_of_numeral (setting : String) (default : Option Int)
    (strips : Text.Strips text.toList core) (numeral : Numeral core n) :
    read setting default (some text) =
      if 0 < n then .ok (some n) else .error (.settingNotPositive setting n) := by
  rw [read_of_written setting default strips numeral.ne_nil, readInt?_eq_some_iff.mpr numeral]

/-- Every setting has an answer by one of the rules, and it is the one that is read. -/
theorem answers_read (setting : String) (default : Option Int) (raw : Option String) :
    Answers setting default raw (read setting default raw) := by
  cases raw with
  | none => exact .unset
  | some text =>
    have strips := Text.strips_trim text.toList
    generalize Text.trim text.toList = core at strips
    by_cases nothing : core = []
    · subst nothing
      rw [read_of_blank setting default strips]
      exact .blank strips
    cases found : readInt? core with
    | none =>
      have other : ∀ n, ¬ Numeral core n := by
        intro n numeral
        rw [readInt?_eq_some_iff.mpr numeral] at found
        cases found
      rw [read_of_written setting default strips nothing, found]
      exact .notInteger strips nothing other
    | some n =>
      have numeral := readInt?_eq_some_iff.mp found
      rw [read_of_numeral setting default strips numeral]
      split
      · rename_i positive
        exact .positive strips numeral positive
      · rename_i negligible
        exact .notPositive strips numeral (Int.not_lt.mp negligible)

theorem Answers.read_eq {r : Except Fault (Option Int)} (answers : Answers setting default raw r) :
    read setting default raw = r := by
  cases answers with
  | unset => rfl
  | blank strips => exact read_of_blank setting default strips
  | positive strips numeral positive =>
    rw [read_of_numeral setting default strips numeral, if_pos positive]
  | notPositive strips numeral negligible =>
    rw [read_of_numeral setting default strips numeral, if_neg (Int.not_lt.mpr negligible)]
  | @notInteger _ core strips written other =>
    rw [read_of_written setting default strips written]
    cases found : readInt? core with
    | none => rfl
    | some n => exact absurd (readInt?_eq_some_iff.mp found) (other n)

end

/-! ## Spellings of a number -/

/-- A way to write a number in a setting: with white space around it, a plus sign in front, zeros
    before its digits and underscores between them, where wanted. -/
structure Spelling (n : Nat) where
  before : List Char
  plus : Bool
  zeros : Nat
  groups : List (List Char)
  after : List Char
  blank : ∀ c ∈ before ++ after, Text.isBlank c = true
  nonEmpty : ∀ group ∈ groups, group ≠ []
  digits : groups.flatten = List.replicate zeros '0' ++ (toString n).toList
  short : groups.flatten.length ≤ Number.digitLimit

theorem mem_intercalate {groups : List (List Char)} {c : Char}
    (member : c ∈ ['_'].intercalate groups) : c = '_' ∨ c ∈ groups.flatten := by
  induction groups with
  | nil => cases member
  | cons group groups ih =>
    cases groups with
    | nil => exact .inr (by simpa using member)
    | cons next groups =>
      rw [List.intercalate_cons_cons, List.mem_append, List.mem_append,
        List.mem_singleton] at member
      rw [List.flatten_cons, List.mem_append]
      rcases member with (member | same) | member
      · exact .inr (.inl member)
      · exact .inl same
      · exact (ih member).imp_right .inr

namespace Spelling

variable {n : Nat}

/-- The numeral in a spelling. -/
def numeral (s : Spelling n) : List Char :=
  (if s.plus then ['+'] else []) ++ ['_'].intercalate s.groups

/-- The text of a setting that is spelled so. -/
def text (s : Spelling n) : String := String.ofList (s.before ++ s.numeral ++ s.after)

theorem isDigit (s : Spelling n) : ∀ c ∈ s.groups.flatten, c.isDigit = true := by
  intro c member
  rw [s.digits, List.mem_append] at member
  rcases member with member | member
  · rw [List.eq_of_mem_replicate member]
    rfl
  · rw [Nat.toString_eq_repr, Nat.toList_repr] at member
    exact Nat.isDigit_of_mem_toDigits (by decide) (by decide) member

/-- The numeral in a spelling is made of a sign, underscores and digits. -/
theorem mem_numeral (s : Spelling n) {c : Char} (member : c ∈ s.numeral) :
    c = '+' ∨ c = '_' ∨ c.isDigit = true := by
  rcases List.mem_append.mp member with member | member
  · split at member
    · exact .inl (List.mem_singleton.mp member)
    · cases member
  · exact .inr ((mem_intercalate member).imp_right (s.isDigit c))

theorem strips (s : Spelling n) : Text.Strips s.text.toList s.numeral := by
  have inside : ∀ c ∈ s.numeral, Text.isBlank c = false := by
    intro c member
    rcases s.mem_numeral member with rfl | rfl | digit
    · decide
    · decide
    · exact Text.isBlank_of_isDigit digit
  refine ⟨⟨s.before, s.after, by simp [text], s.blank⟩, ?_, ?_⟩
  · exact fun c first => inside c (List.mem_of_mem_head? first)
  · exact fun c last => inside c (List.mem_of_mem_getLast? last)

theorem grouped (s : Spelling n) :
    Grouped (['_'].intercalate s.groups) (s.groups.flatten.map fun c => c.toNat - '0'.toNat) := by
  refine ⟨s.groups, ?_, s.nonEmpty, rfl, ?_⟩
  · intro nothing
    have digits := s.digits
    simp [nothing] at digits
  · rw [List.map_map]
    exact List.map_congr_left fun c member => Text.digitValue?_of_isDigit (s.isDigit c member)

theorem value (s : Spelling n) :
    Nat.ofDigits 10 (s.groups.flatten.map fun c => c.toNat - '0'.toNat).reverse = n := by
  rw [← ofDigits_eq, ofDigits_map, s.digits, Nat.ofDigitChars_append,
    Nat.ofDigitChars_replicate_zero, Nat.mul_zero, Nat.toString_eq_repr, Nat.toList_repr,
    Nat.ofDigitChars_ten_toDigits]

/-- What is in the white space of a spelling is a numeral of the number. -/
theorem numeral_spec (s : Spelling n) : Numeral s.numeral n := by
  have short : (s.groups.flatten.map fun c => c.toNat - '0'.toNat).length ≤ Number.digitLimit := by
    rw [List.length_map]
    exact s.short
  have signed := Numeral.plus s.grouped short
  have unsigned := Numeral.unsigned s.grouped short
  rw [s.value] at signed unsigned
  unfold numeral
  split
  · exact signed
  · exact unsigned

end Spelling

/-- Reading a setting follows the rules, whatever its text. The default is what is read exactly
    where the setting is absent or blank, a positive number is read from all of its spellings, and
    what is refused is refused with the words that say why. -/
theorem read_follows_rules (setting : String) (raw : Option String) :
    (∀ default r, read setting default raw = r ↔ Answers setting default raw r) ∧
      ((∀ default, read setting default raw = .ok default) ↔
        raw = none ∨ ∃ text, raw = some text ∧ Text.Strips text.toList []) ∧
      (∀ n, 0 < n → ∀ (s : Spelling n) default,
        read setting default (some s.text) = .ok (some n)) ∧
      (∀ n, (Fault.settingNotPositive setting n).faultClass = .value ∧
        (Fault.settingNotPositive setting n).message =
          setting ++ " must be positive, got " ++ toString n) ∧
      ∀ text, (Fault.settingNotInteger setting text).faultClass = .value ∧
        (Fault.settingNotInteger setting text).message =
          setting ++ " must be an integer, got " ++ Text.quoted text := by
  refine ⟨?_, ?_, ?_, fun n => ⟨rfl, rfl⟩, fun text => ⟨rfl, rfl⟩⟩
  · intro default r
    constructor
    · rintro rfl
      exact answers_read setting default raw
    · exact Answers.read_eq
  · constructor
    · intro yields
      -- With no default at all, nothing that is read from a text can be taken for it.
      have answers := answers_read setting none raw
      rw [yields none] at answers
      cases answers with
      | unset => exact .inl rfl
      | blank strips => exact .inr ⟨_, rfl, strips⟩
    · rintro (rfl | ⟨text, rfl, strips⟩) default
      · rfl
      · exact read_of_blank setting default strips
  · intro n positive s default
    rw [read_of_numeral setting default s.strips s.numeral_spec,
      if_pos (Int.natCast_pos.mpr positive)]

/-- ` +04_2` with white space around it. -/
def spacedSpelling : Spelling 42 where
  before := [' ', '\t']
  plus := true
  zeros := 1
  groups := [['0', '4'], ['2']]
  after := ['\n']
  blank := by simp [Text.isBlank]
  nonEmpty := by decide
  digits := by decide
  short := by decide

theorem read_follows_rules_spacedSpelling :
    0 < 42 ∧ spacedSpelling.text = " \t+04_2\n" ∧
      read recursionLimitName none (some " \t+04_2\n") = .ok (some 42) := by
  have written : spacedSpelling.text = " \t+04_2\n" := by decide
  have read := (read_follows_rules recursionLimitName none).2.2.1 42 (by decide) spacedSpelling none
  rw [written] at read
  exact ⟨by decide, written, read⟩

end Setting

end FrameLisp
